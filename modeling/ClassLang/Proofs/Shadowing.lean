import ClassLang.Proofs.Effects

/-!
# Declarations shadow exactly below themselves

A scope that binds a further name changes what the name means to itself and to the scopes inside
it, up to those that bind the name again, and it changes nothing else.

* `ScopeTree.WellFormed`: only the first scope is global, and every other one stands inside a scope
  with a smaller number.
* `ScopeTree.Reaches Free j s`: on the way outward from `j` to `s`, all scopes before `s` are
  `Free`.
* `find_set_of_reaches`, `find_set_of_not_reaches`: the two halves of the law, for any way to look
  into a scope and any change of one scope.
* `ScopeTree.declare_shadows`: variables, methods and types are **bound, refused and looked up** by
  that law, and a new scope inherits every meaning from the scope around it.
-/

namespace ClassLang

/-- **A name is shadowed**: it takes a meaning at some places, and nothing else changes. -/
structure Shadows {β : Type} (before after : ScopeId → String → Option β) (name : String) (b : β)
    (Below : ScopeId → Prop) : Prop where
  below : ∀ j, Below j → after j name = some b
  elsewhere : ∀ j m, ¬ (m = name ∧ Below j) → after j m = before j m

/-- **A new scope inherits**: every name means to it what it means to the scope around it, and
nothing else changes. -/
structure Inherits {β : Type} (before after : ScopeId → String → Option β) (new outer : ScopeId) :
    Prop where
  inherited : ∀ m, after new m = before outer m
  others : ∀ j m, j ≠ new → after j m = before j m

namespace ScopeTree

variable {t : ScopeTree} {j s o p : ScopeId} {sc sc' : Scope} {β : Type} {f : Scope → Option β}
  {b : β} {n : String} {Free : Scope → Prop}

/-- **A tree of scopes.** The first scope is global and stands in no other. No other scope is
global, and each stands inside one with a smaller number. -/
structure WellFormed (t : ScopeTree) : Prop where
  root : ∀ sc, t.scopes[globalId.index]? = some sc → sc.kind = .global ∧ sc.parent = none
  inner : ∀ (id : ScopeId) (sc : Scope), t.scopes[id.index]? = some sc → id ≠ globalId →
    sc.kind ≠ .global ∧ ∃ p, sc.parent = some p ∧ p.index < id.index

/-- **The way outward** from a scope to itself or to one around it, when all scopes that come
before the latter are free. -/
inductive Reaches (t : ScopeTree) (Free : Scope → Prop) : ScopeId → ScopeId → Prop where
  | here {j : ScopeId} : Reaches t Free j j
  | outward {j p s : ScopeId} {sc : Scope} (hj : t.scopes[j.index]? = some sc) (hfree : Free sc)
      (hparent : sc.parent = some p) (hrest : Reaches t Free p s) : Reaches t Free j s

/-- **A declaration in a tree.** It is refused if and only if the name is bound, and whatever it
fails with, it leaves the tree as it was; otherwise it leaves a tree of which a law holds. -/
structure Declares (t : ScopeTree) (declare : EStateM Diagnostic ScopeTree Unit)
    (refusal : Diagnostic) (bound : Prop) (Law : ScopeTree → Prop) : Prop where
  refused_iff : (∃ t', declare t = .error refusal t') ↔ bound
  unchanged : ∀ f t', declare t = .error f t' → f = refusal ∧ t' = t
  entered : ¬ bound → ∃ t', declare t = .ok () t' ∧ t'.WellFormed ∧ Law t'

/-- **A new scope in a tree.** It was not there before, it is of its kind and stands inside its
parent, and all other scopes are what they were. -/
structure Pushes (t : ScopeTree) (kind : ScopeKind) (parent new : ScopeId) (t' : ScopeTree) :
    Prop where
  fresh : t.scopes[new.index]? = none
  scope : ∃ sc, t'.scopes[new.index]? = some sc ∧ sc.kind = kind ∧ sc.parent = some parent
  others : ∀ j, j ≠ new → t'.scopes[j.index]? = t.scopes[j.index]?

/-! ## Well-formed trees -/

theorem ext_index (h : j.index = s.index) : j = s := by
  cases j
  cases s
  exact congrArg ScopeId.mk h

theorem WellFormed.inner_of_parent (ht : t.WellFormed) (hj : t.scopes[j.index]? = some sc)
    (hp : sc.parent = some p) : sc.kind ≠ .global ∧ p.index < j.index := by
  by_cases hroot : j = globalId
  · subst hroot
    have hnone : sc.parent = none := (ht.root sc hj).2
    rw [hnone] at hp
    cases hp
  · obtain ⟨hkind, p', hp', hlt⟩ := ht.inner j sc hj hroot
    rw [hp] at hp'
    cases hp'
    exact ⟨hkind, hlt⟩

theorem WellFormed.rooted (ht : t.WellFormed) : t.Rooted := by
  intro id p sc hid hp
  exact (ht.inner_of_parent hid hp).2

theorem exists_root (hs : t.scopes[s.index]? = some sc) :
    ∃ root, t.scopes[globalId.index]? = some root := by
  have hlt : s.index < t.scopes.size := (Array.getElem?_eq_some_iff.1 hs).1
  have hzero : globalId.index < t.scopes.size := Nat.lt_of_le_of_lt (Nat.zero_le _) hlt
  exact ⟨t.scopes[globalId.index], Array.getElem?_eq_getElem hzero⟩

theorem initial_wellFormed : initial.WellFormed := by
  constructor
  · intro sc h
    cases h
    exact ⟨rfl, rfl⟩
  · intro id sc h hne
    have hlt : id.index < 1 := (Array.getElem?_eq_some_iff.1 h).1
    have hzero : id.index = 0 := by omega
    exact absurd (ext_index hzero) hne

/-! ## One scope changed -/

theorem getElem?_set_self (hs : t.scopes[s.index]? = some sc) :
    (t.set s sc').scopes[s.index]? = some sc' := by
  have hlt : s.index < t.scopes.size := (Array.getElem?_eq_some_iff.1 hs).1
  simp [set, hlt]

theorem getElem?_set_of_ne (hne : j ≠ s) :
    (t.set s sc').scopes[j.index]? = t.scopes[j.index]? := by
  have hindex : s.index ≠ j.index := fun h => hne (ext_index h.symm)
  simp [set, Array.getElem?_setIfInBounds_ne hindex]

/-- A changed scope that keeps its kind and its place leaves the tree well formed. -/
theorem WellFormed.set (ht : t.WellFormed) (hs : t.scopes[s.index]? = some sc)
    (hkind : sc'.kind = sc.kind) (hparent : sc'.parent = sc.parent) : (t.set s sc').WellFormed := by
  constructor
  · intro root hroot
    by_cases hj : globalId = s
    · subst hj
      rw [getElem?_set_self hs] at hroot
      cases hroot
      rw [hkind, hparent]
      exact ht.root sc hs
    · rw [getElem?_set_of_ne hj] at hroot
      exact ht.root root hroot
  · intro id inner hid hne
    by_cases hj : id = s
    · subst hj
      rw [getElem?_set_self hs] at hid
      cases hid
      rw [hkind, hparent]
      exact ht.inner id sc hs hne
    · rw [getElem?_set_of_ne hj] at hid
      exact ht.inner id inner hid hne

/-- What is looked up from a scope that does not exist is not found. -/
theorem find_of_none (hj : t.scopes[j.index]? = none) : (t.chain j).findSome? f = none := by
  unfold chain
  cases t.size with
  | zero => rfl
  | succ size => simp only [chainWithin, hj, List.findSome?_nil]

/-- Two trees agree on a lookup from a scope if they agree on it from the scope's parent and hold
the same scope there. -/
theorem find_congr {t' : ScopeTree} (ht : t.Rooted) (ht' : t'.Rooted)
    (hsame : t'.scopes[j.index]? = t.scopes[j.index]?)
    (hparent : ∀ sc p, t.scopes[j.index]? = some sc → f sc = none → sc.parent = some p →
      (t'.chain p).findSome? f = (t.chain p).findSome? f) :
    (t'.chain j).findSome? f = (t.chain j).findSome? f := by
  cases hj : t.scopes[j.index]? with
  | none =>
    rw [hj] at hsame
    rw [find_of_none hj, find_of_none hsame]
  | some sc =>
    rw [hj] at hsame
    rw [find_eq ht hj, find_eq ht' hsame]
    cases hf : f sc with
    | some b => rfl
    | none =>
      cases hp : sc.parent with
      | none => rfl
      | some p => simp only [Option.none_or, hparent sc p hj hf hp]

/-! ## The way outward -/

/-- Only scopes that stand in another one are passed. -/
theorem Reaches.mono {Free' : Scope → Prop}
    (h : ∀ (j : ScopeId) (sc : Scope) (p : ScopeId), t.scopes[j.index]? = some sc →
      sc.parent = some p → Free sc → Free' sc) (hj : t.Reaches Free j s) : t.Reaches Free' j s := by
  induction hj with
  | here => exact .here
  | @outward j p s sc hsc hfree hp hrest ih => exact .outward hsc (h j sc p hsc hp hfree) hp ih

/-- The way to a scope stays when that scope changes. -/
theorem Reaches.set (hj : t.Reaches Free j s) : (t.set s sc').Reaches Free j s := by
  induction hj with
  | here => exact .here
  | @outward j p s sc hsc hfree hp hrest ih =>
    by_cases hne : j = s
    · subst hne
      exact .here
    · have hsame : (t.set s sc').scopes[j.index]? = some sc := by
        rw [getElem?_set_of_ne hne, hsc]
      exact .outward hsame hfree hp ih

/-- A way past a changed scope was there before if the scope was free before. -/
theorem Reaches.of_set (hs : t.scopes[s.index]? = some sc) (hparent : sc'.parent = sc.parent)
    (hfree : Free sc' → Free sc) (hj : (t.set s sc').Reaches Free j o) : t.Reaches Free j o := by
  induction hj with
  | here => exact .here
  | @outward j p o scj hscj hfreej hp hrest ih =>
    by_cases hne : j = s
    · subst hne
      rw [getElem?_set_self hs] at hscj
      cases hscj
      exact .outward hs (hfree hfreej) (hparent ▸ hp) ih
    · rw [getElem?_set_of_ne hne] at hscj
      exact .outward hscj hfreej hp ih

/-- **What is found at the end of the way**, if nothing is found before. -/
theorem find_of_reaches (ht : t.Rooted) (ho : t.scopes[o.index]? = some sc) (hf : f sc = some b)
    (hj : t.Reaches (f · = none) j o) : (t.chain j).findSome? f = some b := by
  induction hj with
  | here => rw [find_eq ht ho, hf, Option.some_or]
  | @outward j p o scj hscj hfree hp hrest ih =>
    rw [find_eq ht hscj, hfree, Option.none_or, hp]
    exact ih ho

section Change

variable (ht : t.WellFormed) (hs : t.scopes[s.index]? = some sc) (hkind : sc'.kind = sc.kind)
  (hparent : sc'.parent = sc.parent)

include ht hs hkind hparent

/-- **A lookup that the change does not reach** finds what it found before. -/
theorem find_set_of_not_reaches (hj : ¬ t.Reaches (f · = none) j s) :
    ((t.set s sc').chain j).findSome? f = (t.chain j).findSome? f := by
  have ht' : (t.set s sc').WellFormed := ht.set hs hkind hparent
  induction hi : j.index using Nat.strongRecOn generalizing j with
  | ind i ih =>
    have hne : j ≠ s := by
      intro h
      subst h
      exact hj .here
    refine find_congr ht.rooted ht'.rooted (getElem?_set_of_ne hne) fun scj p hscj hf hp => ?_
    have hlt : p.index < i := hi ▸ (ht.inner_of_parent hscj hp).2
    exact ih p.index hlt (fun hrest => hj (.outward hscj hf hp hrest)) rfl

/-- **A lookup that the change reaches** finds what the changed scope binds. -/
theorem find_set_of_reaches (hf : f sc' = some b) (hj : t.Reaches (f · = none) j s) :
    ((t.set s sc').chain j).findSome? f = some b := by
  have ht' : (t.set s sc').WellFormed := ht.set hs hkind hparent
  exact find_of_reaches ht'.rooted (getElem?_set_self hs) hf hj.set

/-- A lookup to which the changed scope looks the same finds what it found before. -/
theorem find_set_of_eq (hf : f sc' = f sc) :
    ((t.set s sc').chain j).findSome? f = (t.chain j).findSome? f := by
  have ht' : (t.set s sc').WellFormed := ht.set hs hkind hparent
  induction hi : j.index using Nat.strongRecOn generalizing j with
  | ind i ih =>
    by_cases hne : j = s
    · subst hne
      rw [find_eq ht.rooted hs, find_eq ht'.rooted (getElem?_set_self hs), hf, hparent]
      cases hp : sc.parent with
      | none => rfl
      | some p =>
        have hlt : p.index < i := hi ▸ (ht.inner_of_parent hs hp).2
        simp only [ih p.index hlt rfl]
    · refine find_congr ht.rooted ht'.rooted (getElem?_set_of_ne hne) fun scj p hscj _ hp => ?_
      have hlt : p.index < i := hi ▸ (ht.inner_of_parent hscj hp).2
      exact ih p.index hlt rfl

/-- A sort of names that the change does not touch means what it meant, from every scope. -/
theorem find_set_unchanged {look : String → Scope → Option β}
    (hlook : ∀ m, look m sc' = look m sc) :
    (fun j m => ((t.set s sc').chain j).findSome? (look m)) =
      fun j m => (t.chain j).findSome? (look m) := by
  funext j m
  exact find_set_of_eq ht hs hkind hparent (hlook m)

/-- **One name bound in one scope**, for any sort of names: its meaning changes exactly where the
lookup comes to that scope. -/
theorem shadows_set {look : String → Scope → Option β}
    (hlook : ∀ m, look m sc' = if n = m then some b else look m sc) :
    Shadows (fun j m => (t.chain j).findSome? (look m))
      (fun j m => ((t.set s sc').chain j).findSome? (look m)) n b
      fun j => t.Reaches (look n · = none) j s := by
  constructor
  · intro j hj
    have hbind : look n sc' = some b := by rw [hlook, if_pos rfl]
    exact find_set_of_reaches ht hs hkind hparent hbind hj
  · intro j m hm
    by_cases hmn : n = m
    · subst hmn
      exact find_set_of_not_reaches ht hs hkind hparent fun hj => hm ⟨rfl, hj⟩
    · have hkeep : look m sc' = look m sc := by rw [hlook, if_neg hmn]
      exact find_set_of_eq ht hs hkind hparent hkeep

end Change

end ScopeTree

/-! ## What a scope binds -/

namespace Scope

variable {sc : Scope} {n m : String}

theorem findVariable?_insert {v : VariableId} :
    ({ sc with vars := sc.vars.insert n v } : Scope).findVariable? m =
      if n = m then some v else sc.findVariable? m := getElem?_insert_eq

theorem findMethod?_insert {g : MethodId} :
    ({ sc with methods := sc.methods.insert n g } : Scope).findMethod? m =
      if n = m then some g else sc.findMethod? m := getElem?_insert_eq

theorem findUserType?_insert {ty : TypeId} :
    ({ sc with types := sc.types.insert n ty } : Scope).findUserType? m =
      if n = m then some ty else sc.findUserType? m := getElem?_insert_eq

theorem findType?_of_inner (h : sc.kind ≠ .global) (catalog : Catalog) (m : String) :
    sc.findType? catalog m = sc.findUserType? m := by
  unfold findType?
  split
  · rename_i hkind
    exact absurd hkind h
  · rfl

theorem findType?_of_global (h : sc.kind = .global) (catalog : Catalog) (m : String) :
    sc.findType? catalog m = ((catalog.find? m).map Native.id).or (sc.findUserType? m) := by
  unfold findType?
  rw [h]

end Scope

/-! ## Native types -/

theorem Shadows.congr {β : Type} {before after : ScopeId → String → Option β} {n : String} {b : β}
    {Below Below' : ScopeId → Prop} (h : Shadows before after n b Below)
    (hiff : ∀ j, Below j ↔ Below' j) : Shadows before after n b Below' := by
  constructor
  · intro j hj
    exact h.below j ((hiff j).2 hj)
  · intro j m hm
    exact h.elsewhere j m fun hj => hm ⟨hj.1, (hiff j).1 hj.2⟩

namespace ScopeTree

variable {t : ScopeTree} {j s o p : ScopeId} {sc sc' : Scope} {n m : String} {catalog : Catalog}
  {kind : ScopeKind}

/-- On the way to a scope, the types that are found are those of the program. -/
theorem reaches_type_iff (ht : t.WellFormed) :
    t.Reaches (·.findType? catalog n = none) j s ↔ t.Reaches (·.findUserType? n = none) j s := by
  constructor
  · refine Reaches.mono fun j sc p hsc hp hfree => ?_
    rwa [Scope.findType?_of_inner (ht.inner_of_parent hsc hp).1] at hfree
  · refine Reaches.mono fun j sc p hsc hp hfree => ?_
    rwa [Scope.findType?_of_inner (ht.inner_of_parent hsc hp).1]

/-- **A native name means its native type** to every scope that finds no type of the program under
that name before it comes to the global scope. -/
theorem findType?_native {k : Native} (ht : t.WellFormed) (hs : t.scopes[s.index]? = some sc)
    (hk : catalog.find? m = some k) (hj : t.Reaches (·.findUserType? m = none) j globalId) :
    t.findType? catalog j m = some k.id := by
  obtain ⟨root, hroot⟩ := exists_root hs
  have hfound : root.findType? catalog m = some k.id := by
    rw [Scope.findType?_of_global (ht.root root hroot).1, hk, Option.map_some, Option.some_or]
  exact find_of_reaches ht.rooted hroot hfound ((reaches_type_iff ht).2 hj)

/-- **A type bound in a scope** is found where the lookup comes to that scope, except that the
global scope does not give a native name away. -/
theorem findType?_shadows {ty : TypeId} (ht : t.WellFormed) (hs : t.scopes[s.index]? = some sc) :
    Shadows (t.findType? catalog)
      ((t.set s { sc with types := sc.types.insert n ty }).findType? catalog) n ty
      fun j => t.Reaches (·.findUserType? n = none) j s ∧
        ¬ (s = globalId ∧ catalog.find? n ≠ none) := by
  generalize hsc' : ({ sc with types := sc.types.insert n ty } : Scope) = sc'
  have hkind : sc'.kind = sc.kind := by rw [← hsc']
  have hparent : sc'.parent = sc.parent := by rw [← hsc']
  have hown (m : String) : sc'.findUserType? m = if n = m then some ty else sc.findUserType? m := by
    rw [← hsc', Scope.findUserType?_insert]
  have hkeep (m : String) (hm : n ≠ m) : sc'.findType? catalog m = sc.findType? catalog m := by
    unfold Scope.findType?
    rw [hown, if_neg hm, hkind]
  by_cases hnative : s = globalId ∧ catalog.find? n ≠ none
  · -- the native type comes first, so that the scope looks the same under every name
    have hglobal : sc.kind = .global := by
      obtain ⟨rfl, -⟩ := hnative
      exact (ht.root sc hs).1
    obtain ⟨k, hk⟩ := Option.ne_none_iff_exists'.1 hnative.2
    have hsame : sc'.findType? catalog n = sc.findType? catalog n := by
      rw [Scope.findType?_of_global hglobal, Scope.findType?_of_global (hkind.trans hglobal), hk,
        Option.map_some, Option.some_or, Option.some_or]
    constructor
    · intro j hj
      exact absurd hnative hj.2
    · intro j m _
      by_cases hm : n = m
      · subst hm
        exact find_set_of_eq ht hs hkind hparent hsame
      · exact find_set_of_eq ht hs hkind hparent (hkeep m hm)
  · have hbind : sc'.findType? catalog n = some ty := by
      by_cases hroot : s = globalId
      · subst hroot
        have hno : catalog.find? n = none := Decidable.not_not.1 fun h => hnative ⟨rfl, h⟩
        rw [Scope.findType?_of_global (hkind.trans (ht.root sc hs).1), hno, hown, if_pos rfl]
        rfl
      · have hinner : sc'.kind ≠ .global := hkind ▸ (ht.inner s sc hs hroot).1
        rw [Scope.findType?_of_inner hinner, hown, if_pos rfl]
    have hlook (m : String) :
        sc'.findType? catalog m = if n = m then some ty else sc.findType? catalog m := by
      split
      · rename_i hm
        subst hm
        exact hbind
      · rename_i hm
        exact hkeep m hm
    have hshadows : Shadows (t.findType? catalog) ((t.set s sc').findType? catalog) n ty fun j =>
        t.Reaches (·.findType? catalog n = none) j s := shadows_set ht hs hkind hparent hlook
    refine hshadows.congr fun j => ?_
    rw [reaches_type_iff ht, and_iff_left hnative]

/-! ## Declarations -/

/-- A declaration of one sort of names, from what holds of the tree with the name in it. -/
theorem declares_of_law {α : Type} {names : Scope.Names α} {a : α} {span : Span}
    {Law : ScopeTree → Prop} (hs : t.scopes[s.index]? = some sc)
    (ht' : (t.set s (names.replace sc ((names.table sc).insert n a))).WellFormed)
    (hlaw : Law (t.set s (names.replace sc ((names.table sc).insert n a)))) :
    t.Declares (declare names s n a span) ⟨names.taken n, span⟩ ((names.table sc)[n]? ≠ none)
      Law := by
  have hrefused (hbound : (names.table sc)[n]? ≠ none) :
      declare names s n a span t = .error ⟨names.taken n, span⟩ t := by
    rw [declare_eq hs, if_pos (contains_iff.2 hbound)]
  have hentered (hfree : ¬ (names.table sc)[n]? ≠ none) : declare names s n a span t =
      .ok () (t.set s (names.replace sc ((names.table sc).insert n a))) := by
    rw [declare_eq hs, if_neg (mt contains_iff.1 hfree)]
  refine ⟨⟨?_, fun hbound => ⟨t, hrefused hbound⟩⟩, ?_, fun hfree => ⟨_, hentered hfree, ht', hlaw⟩⟩
  · rintro ⟨t', herror⟩ hnone
    rw [hentered (not_not_intro hnone)] at herror
    cases herror
  · intro f t' herror
    by_cases hbound : (names.table sc)[n]? ≠ none
    · rw [hrefused hbound] at herror
      cases herror
      exact ⟨rfl, rfl⟩
    · rw [hentered hbound] at herror
      cases herror

/-- **A variable that is declared** shadows variables, and no methods or types. -/
theorem declareVariable_declares (ht : t.WellFormed) (hs : t.scopes[s.index]? = some sc)
    (v : VariableId) (span : Span) :
    t.Declares (declareVariable s n v span) ⟨.duplicateVariable n, span⟩
      (sc.findVariable? n ≠ none) fun t' =>
        Shadows t.findVariable? t'.findVariable? n v
          (fun j => t.Reaches (·.findVariable? n = none) j s) ∧
        t'.findMethod? = t.findMethod? ∧ t'.findType? catalog = t.findType? catalog := by
  refine declares_of_law hs (ht.set hs rfl rfl) ⟨?_, ?_, ?_⟩
  · exact shadows_set ht hs (by rfl) (by rfl) fun m => Scope.findVariable?_insert
  · exact find_set_unchanged ht hs (by rfl) (by rfl) fun _ => rfl
  · exact find_set_unchanged ht hs (by rfl) (by rfl) fun _ => rfl

/-- **A method that is declared** shadows methods, and no variables or types. -/
theorem declareMethod_declares (ht : t.WellFormed) (hs : t.scopes[s.index]? = some sc)
    (g : MethodId) (span : Span) :
    t.Declares (declareMethod s n g span) ⟨.duplicateMethod n, span⟩
      (sc.findMethod? n ≠ none) fun t' =>
        Shadows t.findMethod? t'.findMethod? n g
          (fun j => t.Reaches (·.findMethod? n = none) j s) ∧
        t'.findVariable? = t.findVariable? ∧ t'.findType? catalog = t.findType? catalog := by
  refine declares_of_law hs (ht.set hs rfl rfl) ⟨?_, ?_, ?_⟩
  · exact shadows_set ht hs (by rfl) (by rfl) fun m => Scope.findMethod?_insert
  · exact find_set_unchanged ht hs (by rfl) (by rfl) fun _ => rfl
  · exact find_set_unchanged ht hs (by rfl) (by rfl) fun _ => rfl

/-- **A type that is declared** shadows types, but no native type in the global scope, and no
variables or methods. -/
theorem declareType_declares (ht : t.WellFormed) (hs : t.scopes[s.index]? = some sc)
    (ty : TypeId) (span : Span) :
    t.Declares (declareType s n ty span) ⟨.duplicateClass n, span⟩
      (sc.findUserType? n ≠ none) fun t' =>
        Shadows (t.findType? catalog) (t'.findType? catalog) n ty
          (fun j => t.Reaches (·.findUserType? n = none) j s ∧
            ¬ (s = globalId ∧ catalog.find? n ≠ none)) ∧
        (∀ (j : ScopeId) (m : String) (k : Native), catalog.find? m = some k →
          t'.Reaches (·.findUserType? m = none) j globalId →
          t.findType? catalog j m = some k.id ∧ t'.findType? catalog j m = some k.id) ∧
        t'.findVariable? = t.findVariable? ∧ t'.findMethod? = t.findMethod? := by
  have ht' : (t.set s { sc with types := sc.types.insert n ty }).WellFormed := ht.set hs rfl rfl
  refine declares_of_law hs ht' ⟨findType?_shadows ht hs, ?_, ?_, ?_⟩
  · intro j m k hk hj
    have hbefore : t.Reaches (·.findUserType? m = none) j globalId := by
      refine hj.of_set hs (by rfl) fun hfree => ?_
      have hinsert : Scope.findUserType? { sc with types := sc.types.insert n ty } m = none := hfree
      rw [Scope.findUserType?_insert] at hinsert
      split at hinsert
      · cases hinsert
      · exact hinsert
    exact ⟨findType?_native ht hs hk hbefore, findType?_native ht' (getElem?_set_self hs) hk hj⟩
  · exact find_set_unchanged ht hs (by rfl) (by rfl) fun _ => rfl
  · exact find_set_unchanged ht hs (by rfl) (by rfl) fun _ => rfl

/-! ## New scopes -/

theorem getElem?_push_self :
    (t.push kind s).2.scopes[(t.push kind s).1.index]? = some (.empty kind (some s)) := by
  simp [push]

theorem getElem?_push_of_ne (hne : j ≠ (t.push kind s).1) :
    (t.push kind s).2.scopes[j.index]? = t.scopes[j.index]? := by
  have hindex : j.index ≠ t.scopes.size := fun h => hne (ext_index h)
  simp [push, Array.getElem?_push, hindex]

theorem push_pushes (t : ScopeTree) (kind : ScopeKind) (s : ScopeId) :
    t.Pushes kind s (t.push kind s).1 (t.push kind s).2 where
  fresh := Array.getElem?_eq_none (Nat.le_refl _)
  scope := ⟨_, getElem?_push_self, rfl, rfl⟩
  others _ hne := getElem?_push_of_ne hne

/-- A new scope inside one that is there leaves the tree well formed, unless it is global. -/
theorem WellFormed.push (ht : t.WellFormed) (hs : t.scopes[s.index]? = some sc)
    (hkind : kind ≠ .global) : (t.push kind s).2.WellFormed := by
  have hlt : s.index < t.scopes.size := (Array.getElem?_eq_some_iff.1 hs).1
  constructor
  · intro root hroot
    have hne : globalId ≠ (t.push kind s).1 := by
      intro h
      have hzero : 0 = t.scopes.size := congrArg ScopeId.index h
      omega
    rw [getElem?_push_of_ne hne] at hroot
    exact ht.root root hroot
  · intro id inner hid hroot
    by_cases hne : id = (t.push kind s).1
    · subst hne
      rw [getElem?_push_self] at hid
      cases hid
      exact ⟨hkind, s, rfl, hlt⟩
    · rw [getElem?_push_of_ne hne] at hid
      exact ht.inner id inner hid hroot

/-- **A new scope inherits** all that is looked up, as it binds nothing itself. -/
theorem push_inherits {β : Type} {look : String → Scope → Option β} (ht : t.WellFormed)
    (hs : t.scopes[s.index]? = some sc) (hkind : kind ≠ .global)
    (hempty : ∀ m, look m (.empty kind (some s)) = none) :
    Inherits (fun j m => (t.chain j).findSome? (look m))
      (fun j m => ((t.push kind s).2.chain j).findSome? (look m)) (t.push kind s).1 s := by
  have ht' : (t.push kind s).2.WellFormed := ht.push hs hkind
  have hlt {j : ScopeId} {scj : Scope} (hj : t.scopes[j.index]? = some scj) :
      j.index < t.scopes.size := (Array.getElem?_eq_some_iff.1 hj).1
  have hne {j : ScopeId} (hj : j.index < t.scopes.size) : j ≠ (t.push kind s).1 := by
    intro h
    have hindex : j.index = t.scopes.size := congrArg ScopeId.index h
    omega
  have hothers (j : ScopeId) (m : String) (hj : j ≠ (t.push kind s).1) :
      ((t.push kind s).2.chain j).findSome? (look m) = (t.chain j).findSome? (look m) := by
    induction hi : j.index using Nat.strongRecOn generalizing j with
    | ind i ih =>
      refine find_congr ht.rooted ht'.rooted (getElem?_push_of_ne hj) fun scj p hscj _ hp => ?_
      have hp' : p.index < j.index := (ht.inner_of_parent hscj hp).2
      have hsize : j.index < t.scopes.size := hlt hscj
      exact ih p.index (by omega) p (hne (by omega)) rfl
  refine ⟨fun m => ?_, hothers⟩
  show ((t.push kind s).2.chain (t.push kind s).1).findSome? (look m) = _
  rw [find_eq ht'.rooted getElem?_push_self, hempty m, Option.none_or]
  exact hothers s m (hne (hlt hs))

end ScopeTree

/-- **Declarations shadow exactly below themselves, and they fail without a trace.** In a
well-formed tree, a scope refuses a name if and only if it binds the name itself, each sort of names
by itself, and then the tree is left as it was. Otherwise the tree stays well formed and the name
takes its meaning where the way outward comes to the scope past scopes that do not bind it, except
that a native type keeps its name in the global scope; all other names and sorts of names mean what
they meant. A new scope is one that was not there, of its kind and inside its parent, and it
inherits every meaning from the scope around it. -/
theorem ScopeTree.declare_shadows {t : ScopeTree} {s : ScopeId} {sc : Scope} (ht : t.WellFormed)
    (hs : t.scopes[s.index]? = some sc) (catalog : Catalog) (n : String) (span : Span) :
    (∀ v : VariableId, t.Declares (declareVariable s n v span) ⟨.duplicateVariable n, span⟩
      (sc.findVariable? n ≠ none) fun t' =>
        Shadows t.findVariable? t'.findVariable? n v
          (fun j => t.Reaches (·.findVariable? n = none) j s) ∧
        t'.findMethod? = t.findMethod? ∧ t'.findType? catalog = t.findType? catalog) ∧
    (∀ g : MethodId, t.Declares (declareMethod s n g span) ⟨.duplicateMethod n, span⟩
      (sc.findMethod? n ≠ none) fun t' =>
        Shadows t.findMethod? t'.findMethod? n g
          (fun j => t.Reaches (·.findMethod? n = none) j s) ∧
        t'.findVariable? = t.findVariable? ∧ t'.findType? catalog = t.findType? catalog) ∧
    (∀ ty : TypeId, t.Declares (declareType s n ty span) ⟨.duplicateClass n, span⟩
      (sc.findUserType? n ≠ none) fun t' =>
        Shadows (t.findType? catalog) (t'.findType? catalog) n ty
          (fun j => t.Reaches (·.findUserType? n = none) j s ∧
            ¬ (s = globalId ∧ catalog.find? n ≠ none)) ∧
        (∀ (j : ScopeId) (m : String) (k : Native), catalog.find? m = some k →
          t'.Reaches (·.findUserType? m = none) j globalId →
          t.findType? catalog j m = some k.id ∧ t'.findType? catalog j m = some k.id) ∧
        t'.findVariable? = t.findVariable? ∧ t'.findMethod? = t.findMethod?) ∧
    (∀ kind : ScopeKind, kind ≠ .global →
      (t.push kind s).2.WellFormed ∧ t.Pushes kind s (t.push kind s).1 (t.push kind s).2 ∧
      Inherits t.findVariable? (t.push kind s).2.findVariable? (t.push kind s).1 s ∧
      Inherits t.findMethod? (t.push kind s).2.findMethod? (t.push kind s).1 s ∧
      Inherits (t.findType? catalog) ((t.push kind s).2.findType? catalog)
        (t.push kind s).1 s) := by
  refine ⟨fun v => declareVariable_declares ht hs v span,
    fun g => declareMethod_declares ht hs g span, fun ty => declareType_declares ht hs ty span,
    fun kind hkind => ⟨ht.push hs hkind, t.push_pushes kind s, ?_, ?_, ?_⟩⟩
  · exact push_inherits ht hs hkind fun _ => Std.TreeMap.getElem?_emptyc
  · exact push_inherits ht hs hkind fun _ => Std.TreeMap.getElem?_emptyc
  · refine push_inherits ht hs hkind fun m => ?_
    rw [Scope.findType?_of_inner hkind]
    exact Std.TreeMap.getElem?_emptyc

/-- A class, a block in it and a block in that one. -/
def Nest.tree : ScopeTree :=
  (((ScopeTree.initial.push (.ofClass ⟨0⟩) ⟨0⟩).2.push .block ⟨1⟩).2.push .block ⟨2⟩).2

theorem Nest.tree_wellFormed : Nest.tree.WellFormed := by
  have hclass : (ScopeTree.initial.push (.ofClass ⟨0⟩) ⟨0⟩).2.WellFormed :=
    ScopeTree.initial_wellFormed.push rfl (by decide)
  have hblock := hclass.push (s := ⟨1⟩) rfl (show ScopeKind.block ≠ .global by decide)
  exact hblock.push rfl (by decide)

/-- The innermost block sees a variable of the class, which the global scope does not see; a type
of the program does not take the name of a native one. -/
theorem Nest.declarations_shadow :
    (∃ t', ScopeTree.declareVariable ⟨1⟩ "x" ⟨5⟩ .nowhere Nest.tree = .ok () t' ∧
      t'.findVariable? ⟨3⟩ "x" = some ⟨5⟩ ∧ t'.findVariable? ⟨0⟩ "x" = none) ∧
    ∃ t', ScopeTree.declareType ⟨0⟩ "Boolean" ⟨9⟩ .nowhere Nest.tree = .ok () t' ∧
      t'.findType? .standard ⟨3⟩ "Boolean" = some Native.boolean.id := by
  constructor
  · obtain ⟨hdeclares, -⟩ := ScopeTree.declare_shadows Nest.tree_wellFormed (s := ⟨1⟩) rfl .standard
      "x" .nowhere
    obtain ⟨t', hok, -, hshadows, -⟩ := (hdeclares ⟨5⟩).entered (by decide +kernel)
    refine ⟨t', hok, hshadows.below ⟨3⟩ ?_, ?_⟩
    · exact .outward rfl (by decide +kernel) rfl (.outward rfl (by decide +kernel) rfl .here)
    · rw [hshadows.elsewhere ⟨0⟩ "x"]
      · decide +kernel
      · rintro ⟨-, hreaches⟩
        cases hreaches with
        | outward hj _ hp _ =>
          cases hj
          cases hp
  · obtain ⟨-, -, hdeclares, -⟩ := ScopeTree.declare_shadows Nest.tree_wellFormed (s := ⟨0⟩) rfl
      .standard "Boolean" .nowhere
    obtain ⟨t', hok, -, hshadows, -⟩ := (hdeclares ⟨9⟩).entered (by decide +kernel)
    refine ⟨t', hok, ?_⟩
    rw [hshadows.elsewhere ⟨3⟩ "Boolean"]
    · decide +kernel
    · rintro ⟨-, -, hkept⟩
      exact hkept ⟨rfl, by decide +kernel⟩

end ClassLang
