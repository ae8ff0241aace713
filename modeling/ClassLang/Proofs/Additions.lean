import ClassLang.Proofs.Install

/-!
# One class or function more

The states that the first pass over a unit goes through: each declaration adds a class or a function to
the state before.

* `Registry.pushClass`: the registry with a class more, and what is found in it.
* `Resolver.pushClass`: the state with a class more. It has a scope of its own, and its name is bound in
  the global scope.
* `Resolver.bindFunction`: the state with a function more, whose name is bound in the global scope.
* `Sound.pushClass`, `Sound.bindFunction`: **both keep the state sound**.
-/

namespace ClassLang

open Resolver Resolve

/-! ## Adding a class -/

namespace Registry

variable {r : Registry} {c : ClassId} {n : String}

/-- The registry with a class more. -/
def pushClass (r : Registry) (c : ClassId) (n : String) : Registry :=
  ⟨r.types.push ⟨.ofClass c, []⟩, r.ids.insert (.ofClass c) ⟨r.types.size⟩,
    r.classNames.insert c.index n⟩

/-- The number the next type will have. -/
def nextType (r : Registry) : TypeId := ⟨r.types.size⟩

/-- A class that has no type has no number in the table. -/
theorem Indexed.find?_eq_none (hr : r.Indexed) {k : TypeKind} (h : ∀ id, r.kind? id ≠ some k) :
    r.find? k = none := by
  rw [Option.eq_none_iff_forall_ne_some]
  exact fun id hf => h id ((hr k id).1 hf)

/-- A class without a type gets the next entry. -/
theorem internClass_eq (hr : r.Indexed) (h : ∀ id, r.kind? id ≠ some (.ofClass c)) :
    r.internClass c n = (r.nextType, r.pushClass c n) := by
  have hnone : Registry.find? { r with classNames := r.classNames.insert c.index n } (.ofClass c) =
      none := hr.find?_eq_none h
  unfold internClass intern
  rw [hnone]
  rfl

theorem entry?_pushClass (id : TypeId) : Registry.entry? (r.pushClass c n) id =
    if id = r.nextType then some ⟨.ofClass c, []⟩ else r.entry? id := by
  obtain ⟨i⟩ := id
  simp only [ entry?, pushClass, nextType, Array.getElem?_push, TypeId.mk.injEq]

theorem kind?_pushClass (id : TypeId) : (r.pushClass c n).kind? id =
    if id = r.nextType then some (.ofClass c) else r.kind? id := by
  unfold kind?
  rw [entry?_pushClass]
  split <;> rfl

theorem className?_pushClass (c' : ClassId) : (r.pushClass c n).className? c' =
    if c' = c then some n else r.className? c' := by
  obtain ⟨k⟩ := c'
  obtain ⟨l⟩ := c
  simp only [className?, pushClass, Std.TreeMap.getElem?_insert, Std.LawfulEqCmp.compare_eq_iff_eq,
    ClassId.mk.injEq]
  by_cases hkl : l = k
  · rw [if_pos hkl, if_pos hkl.symm]
  · rw [if_neg hkl, if_neg (Ne.symm hkl)]

theorem ne_nextType {id : TypeId} (h : r.Has id) : id ≠ r.nextType := by
  rintro rfl; exact absurd h (Nat.lt_irrefl _)

theorem Sound.pushClass (hr : r.Sound) (hc : ∀ id, r.kind? id ≠ some (.ofClass c)) :
    (r.pushClass c n).Sound where
  natives k := by
    rw [kind?_pushClass, if_neg (ne_nextType (hr.has_native k))]
    exact hr.natives k
  descends id k t hk ht := by
    rw [kind?_pushClass] at hk
    split at hk
    · cases hk; cases ht
    · exact hr.descends id k t hk ht
  indexed := hr.indexed.push (hr.indexed.find?_eq_none hc) _

end Registry

namespace Resolver

variable {s s' : Resolver} {n : String} {span : Span} {global : Scope}

/-- What is known of a class when it has been declared. -/
def newClass (s : Resolver) (n : String) (span : Span) : ClassInfo :=
  ⟨n, s.registry.nextType, ∅, [], ∅, s.nextScope, span⟩

/-- The state after a class has been declared in the global scope. -/
def pushClass (s : Resolver) (global : Scope) (n : String) (span : Span) : Resolver where
  registry := s.registry.pushClass s.program.nextClass n
  program :=
    { s.program with
      classes := s.program.classes.push (s.newClass n span)
      classNames := s.program.classNames.insert n s.program.nextClass
      scopes := ⟨(s.program.scopes.set ScopeTree.globalId { global with
        types := global.types.insert n s.registry.nextType }).scopes.push
          (.empty (.ofClass s.program.nextClass) (some ScopeTree.globalId))⟩ }
  current := s.current

theorem registry_pushClass : (s.pushClass global n span).registry =
    s.registry.pushClass s.program.nextClass n := rfl

/-- The class has the next number. -/
theorem classAt?_pushClass (c : ClassId) : (s.pushClass global n span).program.classAt? c =
    if c = s.program.nextClass then some (s.newClass n span) else s.program.classAt? c := by
  obtain ⟨i⟩ := c
  simp only [Program.classAt?, pushClass, Program.nextClass, Array.getElem?_push, ClassId.mk.injEq]

theorem scopeAt?_pushClass (hg : s.program.scopeAt? ScopeTree.globalId = some global)
    (j : ScopeId) : (s.pushClass global n span).program.scopeAt? j =
      if j = s.nextScope then
        some (.empty (.ofClass s.program.nextClass) (some ScopeTree.globalId))
      else if j = ScopeTree.globalId then
        some { global with types := global.types.insert n s.registry.nextType }
      else s.program.scopeAt? j := by
  rw [← scopeAt?_setScope hg]
  obtain ⟨i⟩ := j
  simp only [Program.scopeAt?, pushClass, setScope, nextScope, ScopeTree.size, ScopeTree.set,
    Array.getElem?_push, Array.size_setIfInBounds, ScopeId.mk.injEq]

theorem classAt?_pushClass_self : (s.pushClass global n span).program.classAt? s.program.nextClass =
    some (s.newClass n span) := (classAt?_pushClass _).trans (if_pos rfl)

theorem classAt?_nextClass (s : Resolver) : s.program.classAt? s.program.nextClass = none := by
  simp [Program.classAt?, Program.nextClass]

theorem classAt?_pushClass_of_some {c : ClassId} {i : ClassInfo}
    (h : s.program.classAt? c = some i) :
    (s.pushClass global n span).program.classAt? c = some i := by
  rw [classAt?_pushClass, if_neg]
  · exact h
  · rintro rfl; rw [classAt?_nextClass] at h; cases h

theorem scopeAt?_pushClass_of_some (hg : s.program.scopeAt? ScopeTree.globalId = some global)
    {j : ScopeId} {sc : Scope} (hj : j ≠ ScopeTree.globalId)
    (h : s.program.scopeAt? j = some sc) :
    (s.pushClass global n span).program.scopeAt? j = some sc := by
  rw [scopeAt?_pushClass hg, if_neg, if_neg hj]
  · exact h
  · rintro rfl; rw [scopeAt?_nextScope] at h; cases h

theorem nextScope_setScope {j : ScopeId} {sc : Scope} :
    (s.setScope j sc).nextScope = s.nextScope := by
  simp [nextScope, setScope, ScopeTree.set, ScopeTree.size]

theorem nextScope_ne_global (hg : s.program.scopeAt? ScopeTree.globalId = some global) :
    s.nextScope ≠ ScopeTree.globalId := by
  intro h; rw [← h, scopeAt?_nextScope] at hg; cases hg

theorem scopeAt?_pushClass_global (hg : s.program.scopeAt? ScopeTree.globalId = some global) :
    (s.pushClass global n span).program.scopeAt? ScopeTree.globalId =
      some { global with types := global.types.insert n s.registry.nextType } := by
  rw [scopeAt?_pushClass hg, if_neg (nextScope_ne_global hg).symm, if_pos rfl]

theorem entry?_pushClass_of_some {id : TypeId} {e : TypeEntry} {c : ClassId}
    (h : s.registry.entry? id = some e) :
    Registry.entry? (s.registry.pushClass c n) id = some e := by
  rw [Registry.entry?_pushClass, if_neg (Registry.ne_nextType (Registry.has_iff_entry.2 ⟨e, h⟩))]
  exact h

/-- No type is of a class that is still to come. -/
theorem Sound.kind?_ne_nextClass (hs : s.Sound) (id : TypeId) :
    s.registry.kind? id ≠ some (.ofClass s.program.nextClass) := by
  intro h
  obtain ⟨i, hi, -⟩ := hs.classType id _ h
  rw [classAt?_nextClass] at hi
  cases hi

/-- A new class takes nothing away. -/
theorem Grows.pushClass (hs : s.Sound) (hg : s.program.scopeAt? ScopeTree.globalId = some global)
    (hn : global.types[n]? = none) :
    s.Grows (s.pushClass global n span) where
  types id e he := ⟨e, entry?_pushClass_of_some he, rfl, fun _ h => h⟩
  names c n' hc := by
    obtain ⟨i, hi⟩ := hs.named c n' hc
    have hne : c ≠ s.program.nextClass := by
      rintro rfl; rw [classAt?_nextClass] at hi; cases hi
    exact (Registry.className?_pushClass c).trans ((if_neg hne).trans hc)
  classes c i hi := ⟨i, classAt?_pushClass_of_some hi, rfl, rfl, rfl⟩
  methods _ g h := ⟨g, h, rfl, rfl, rfl⟩
  vars _ _ h := h
  scopes j sc hsc := by
    by_cases hj : j = ScopeTree.globalId
    · subst hj
      rw [hg] at hsc
      cases hsc
      exact ⟨_, scopeAt?_pushClass_global hg, rfl, rfl, fun _ _ h => h, fun _ _ h => h,
        fun _ _ h => getElem?_insert_of_some hn h⟩
    · exact ⟨sc, scopeAt?_pushClass_of_some hg hj hsc, .refl sc⟩

/-- What is entered for the new class is in order: it has no members yet. -/
theorem ClassOk.newClass (hg : s.program.scopeAt? ScopeTree.globalId = some global) :
    ClassOk (s.pushClass global n span) s.program.nextClass (s.newClass n span) where
  kind := (Registry.kind?_pushClass _).trans (if_pos rfl)
  named := (Registry.className?_pushClass _).trans (if_pos rfl)
  declared := ⟨_, scopeAt?_pushClass_global hg, getElem?_insert_eq.trans (if_pos rfl)⟩
  scope := ⟨_, (scopeAt?_pushClass hg _).trans (if_pos rfl), rfl⟩
  field := by simp [Resolver.newClass]
  order := by simp [Resolver.newClass]
  method := by simp [Resolver.newClass]

/-- The scope of the new class binds nothing yet. -/
theorem ScopeOk.newClass (hg : s.program.scopeAt? ScopeTree.globalId = some global) :
    ScopeOk (s.pushClass global n span) s.nextScope
      (.empty (.ofClass s.program.nextClass) (some ScopeTree.globalId)) where
  root := by simp [Scope.empty, nextScope_ne_global hg]
  parent := by rintro _ ⟨⟩; exact scope_lt_next hg
  inside := by simp [Scope.empty, nextScope_ne_global hg]
  ofClass := by rintro _ ⟨⟩; exact ⟨rfl, _, classAt?_pushClass_self, rfl⟩
  var := by simp [Scope.empty]
  method := by simp [Scope.empty]
  type := by simp [Scope.empty]

/-- The global scope binds the name of the new class to its type. -/
theorem ScopeOk.bindClass (hs : s.Sound) (hg : s.program.scopeAt? ScopeTree.globalId = some global)
    (hn : global.types[n]? = none) :
    ScopeOk (s.pushClass global n span) ScopeTree.globalId
      { global with types := global.types.insert n s.registry.nextType } := by
  have hgr : s.Grows (s.pushClass global n span) := Grows.pushClass hs hg hn
  have hok := (hs.scopes _ _ hg).mono hgr
  refine { hok with type := ?_ }
  intro n' ty hty
  rw [getElem?_insert_eq] at hty
  split at hty
  · rename_i hn'
    cases hty
    exact ⟨rfl, _, _, classAt?_pushClass_self, hn', rfl⟩
  · exact hok.type n' ty hty

/-- **Declaring a class keeps the state sound.** -/
theorem Sound.pushClass (hs : s.Sound) (hg : s.program.scopeAt? ScopeTree.globalId = some global)
    (hn : global.types[n]? = none) : (s.pushClass global n span).Sound := by
  have hgr : s.Grows (s.pushClass global n span) := Grows.pushClass hs hg hn
  have hnew : (s.pushClass global n span).program.classAt? s.program.nextClass =
      some (s.newClass n span) := classAt?_pushClass_self
  -- in every table, what is found is the new entry or was there before
  refine hs.step hgr (hs.registry.pushClass hs.kind?_ne_nextClass)
    { InOrder.refl _ s with
      named := ?_, classType := ?_, member := ?_, classes := ?_, scopes := ?_, className := ?_ }
    hs.own
  · intro c n' h
    rw [registry_pushClass, Registry.className?_pushClass] at h
    split at h
    · rename_i hc; subst hc; exact .inr ⟨_, hnew⟩
    · exact .inl h
  · intro id c h
    rw [registry_pushClass, Registry.kind?_pushClass] at h
    split at h
    · rename_i hid; cases h; exact .inr ⟨_, hnew, hid.symm⟩
    · exact .inl h
  · intro id e n' m he hm
    rw [registry_pushClass, Registry.entry?_pushClass] at he
    split at he
    · cases he; cases hm
    · exact .inl ⟨e, he, hm⟩
  · intro c i hi
    rw [classAt?_pushClass] at hi
    split at hi
    · rename_i hc
      cases hi
      subst hc
      exact .inr (.newClass hg)
    · exact .inl hi
  · intro j sc hsc
    rw [scopeAt?_pushClass hg] at hsc
    split at hsc
    · rename_i hj
      cases hsc
      subst hj
      exact .inr (.newClass hg)
    · split at hsc
      · rename_i hj
        cases hsc
        subst hj
        exact .inr (.bindClass hs hg hn)
      · exact .inl hsc
  · intro n' c hc
    have hc' : (s.program.classNames.insert n s.program.nextClass)[n']? = some c := hc
    rw [getElem?_insert_eq] at hc'
    split at hc'
    · cases hc'; exact .inr ⟨_, hnew⟩
    · exact .inl hc'

/-! ## Adding a function -/

/-- The state with one function more. -/
def pushFunction (s : Resolver) (g : Method) : Resolver :=
  { s with program :=
    { s.program with
      methods := s.program.methods.push g
      functions := s.program.functions.insert g.name s.nextMethod } }

theorem Grows.pushFunction (s : Resolver) (g : Method) : s.Grows (s.pushFunction g) :=
  { Grows.pushMethod s g with }

theorem Sound.pushFunction (hs : s.Sound) {g : Method} (hg : MethodOk s g) (hj : g.scope = none) :
    (s.pushFunction g).Sound := by
  have hs₁ := hs.pushMethod hg hj
  have hgr : (s.pushMethod g).Grows (s.pushFunction g) := { Grows.refl (s.pushMethod g) with }
  refine hs₁.step hgr hs.registry { InOrder.refl _ (s.pushMethod g) with function := ?_ } hs₁.own
  intro n m hm
  have hm' : (s.program.functions.insert g.name s.nextMethod)[n]? = some m := hm
  rw [getElem?_insert_eq] at hm'
  split at hm'
  · cases hm'
    exact .inr ⟨g, (methodAt?_pushMethod g _).trans (if_pos rfl)⟩
  · exact .inl hm'

/-- The state after a function has been declared in the global scope. -/
def bindFunction (s : Resolver) (global : Scope) (g : Method) : Resolver :=
  (s.pushFunction g).setScope ScopeTree.globalId
    { global with methods := global.methods.insert g.name s.nextMethod }

section

variable {g : Method} (hg : s.program.scopeAt? ScopeTree.globalId = some global)

/-- The function has the next number. -/
theorem methodAt?_bindFunction (m : MethodId) : (s.bindFunction global g).program.methodAt? m =
    if m = s.nextMethod then some g else s.program.methodAt? m := methodAt?_pushMethod g m

include hg

theorem scopeAt?_bindFunction_global :
    (s.bindFunction global g).program.scopeAt? ScopeTree.globalId =
      some { global with methods := global.methods.insert g.name s.nextMethod } :=
  (scopeAt?_setScope (s := s.pushFunction g) hg _ _).trans (if_pos rfl)

/-- Only the global scope changes when a function that is there is named. -/
theorem Frame.bindFunction (hn : global.methods[g.name]? = none) :
    Frame (s.pushFunction g) (s.bindFunction global g) none none (some ScopeTree.globalId) :=
  Frame.setScope hg
    ⟨rfl, rfl, fun _ _ h => h, fun _ _ h => getElem?_insert_of_some hn h, fun _ _ h => h⟩

theorem Grows.bindFunction (hn : global.methods[g.name]? = none) :
    s.Grows (s.bindFunction global g) :=
  (Grows.pushFunction s g).trans (Frame.bindFunction hg hn).toGrows

/-- **Declaring a function keeps the state sound.** -/
theorem Sound.bindFunction (hs : s.Sound) (hok : MethodOk s g) (hj : g.scope = none)
    (howner : g.owner = none) (hn : global.methods[g.name]? = none) :
    (s.bindFunction global g).Sound := by
  have hs₁ := hs.pushFunction hok hj
  have hgok := hs₁.scopes _ _ hg
  refine hs₁.setScope hg
    ⟨rfl, rfl, fun _ _ h => h, fun _ _ h => getElem?_insert_of_some hn h, fun _ _ h => h⟩
    { hgok with method := ?_ }
  intro n m hm
  have hm' : (global.methods.insert g.name s.nextMethod)[n]? = some m := hm
  rw [getElem?_insert_eq] at hm'
  split at hm'
  · cases hm'
    refine ⟨g, (methodAt?_pushMethod g _).trans (if_pos rfl), ?_⟩
    rw [howner]; rfl
  · exact hgok.method n m hm'

end

end Resolver

end ClassLang
