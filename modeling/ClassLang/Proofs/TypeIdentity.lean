import ClassLang.Proofs.TraceUnit

/-!
# When two written types are the same type

Along every run of resolution, two written types get the same number if and only if they have the
same suffixes and their names denote the same native type or the same class, whenever and wherever
they were resolved.

* `Resolver.Keyed`: native types have their places, no type is entered twice, and names stand for
  classes. One step keeps this (`Keyed.step`), and so does a path.
* `Registry.Spells`: a number, the suffixes it is made with, and what they stand behind.
* `TypeName.resolve_spells`, `Path.spells`: what a resolved type spells, then and later.
* `Spells.eq_iff`: numbers that spell are equal if and only if they spell the same.
-/

namespace ClassLang

open Resolver Resolve

/-! ## Written types in two parts -/

/-- What can stand behind a type. -/
inductive Suffix where
  | pointer
  | array
deriving DecidableEq

/-- The type with a suffix. -/
def Suffix.kind : Suffix → TypeId → TypeKind
  | pointer, t => .pointer t
  | array, t => .array t

theorem Suffix.kind_inj {σ σ' : Suffix} {t t' : TypeId} (h : σ.kind t = σ'.kind t') :
    σ = σ' ∧ t = t' := by
  cases σ <;> cases σ' <;> cases h <;> exact ⟨rfl, rfl⟩

theorem Suffix.part?_kind (σ : Suffix) (t : TypeId) : (σ.kind t).part? = some t := by
  cases σ <;> rfl

namespace TypeName

/-- The name that a written type starts with. -/
def base : TypeName → String
  | named name _ => name
  | pointer target _ => target.base
  | array element _ => element.base

/-- The suffixes behind the name, from the last one on. -/
def suffixes : TypeName → List Suffix
  | named _ _ => []
  | pointer target _ => .pointer :: target.suffixes
  | array element _ => .array :: element.suffixes

end TypeName

/-- What the name of a written type denotes, as seen from a scope. -/
def Resolver.baseKind? (s : Resolver) (d : Dialect) (j : ScopeId) (n : TypeName) :
    Option TypeKind :=
  (s.scopes.findType? d.catalog j n.base).bind s.registry.kind?

/-! ## What a number spells -/

namespace Registry

variable {r r' : Registry} {a b : TypeId} {ss ss' : List Suffix} {k k' : TypeKind} {σ : Suffix}

/-- The number stands for these suffixes behind `k`. -/
def Spells (r : Registry) : TypeId → List Suffix → TypeKind → Prop
  | id, [], k => r.kind? id = some k
  | id, σ :: ss, k => ∃ t, r.kind? id = some (σ.kind t) ∧ r.Spells t ss k

theorem Spells.mono (hkeep : r.KeepsKinds r') (h : r.Spells a ss k) : r'.Spells a ss k := by
  induction ss generalizing a with
  | nil => exact hkeep a k h
  | cons σ ss ih =>
    obtain ⟨t, ht, hrest⟩ := h
    exact ⟨t, hkeep a _ ht, ih hrest⟩

/-- What is spelled in the same way is the same. -/
theorem Spells.unique (hr : r.Indexed) (ha : r.Spells a ss k) (hb : r.Spells b ss k) : a = b := by
  induction ss generalizing a b with
  | nil => exact hr.unique ha hb
  | cons σ ss ih =>
    obtain ⟨t, ht, hrest⟩ := ha
    obtain ⟨t', ht', hrest'⟩ := hb
    have hpart : t = t' := ih hrest hrest'
    subst hpart
    exact hr.unique ht ht'

/-- A number is spelled in one way only, down to what has no parts. -/
theorem Spells.inj (hk : k.part? = none) (hk' : k'.part? = none) (h : r.Spells a ss k)
    (h' : r.Spells a ss' k') : ss = ss' ∧ k = k' := by
  induction ss generalizing a ss' with
  | nil =>
    have ha : r.kind? a = some k := h
    cases ss' with
    | nil =>
      have ha' : r.kind? a = some k' := h'
      rw [ha] at ha'
      exact ⟨rfl, Option.some.inj ha'⟩
    | cons σ' ss' =>
      obtain ⟨t', ht', -⟩ := h'
      rw [ha] at ht'
      -- a basic type is neither a pointer nor an array
      rw [Option.some.inj ht', Suffix.part?_kind] at hk
      cases hk
  | cons σ ss ih =>
    obtain ⟨t, ht, hrest⟩ := h
    cases ss' with
    | nil =>
      have ha' : r.kind? a = some k' := h'
      rw [ht] at ha'
      rw [← Option.some.inj ha', Suffix.part?_kind] at hk'
      cases hk'
    | cons σ' ss' =>
      obtain ⟨t', ht', hrest'⟩ := h'
      rw [ht] at ht'
      obtain ⟨rfl, rfl⟩ := Suffix.kind_inj (Option.some.inj ht')
      obtain ⟨rfl, rfl⟩ := ih hrest hrest'
      exact ⟨rfl, rfl⟩

/-- **Equal numbers, equal spellings.** -/
theorem Spells.eq_iff (hr : r.Indexed) (hk : k.part? = none) (hk' : k'.part? = none)
    (ha : r.Spells a ss k) (hb : r.Spells b ss' k') : a = b ↔ ss = ss' ∧ k = k' := by
  constructor
  · rintro rfl
    exact ha.inj hk hk' hb
  · rintro ⟨rfl, rfl⟩
    exact ha.unique hr hb

end Registry

/-! ## Along a run -/

namespace Resolver

variable {s s' : Resolver} {d : Dialect} {log : List Event}

/-- Native types have their places, the table of numbers is inverse to the entries, and names stand
for classes. -/
structure Keyed (s : Resolver) : Prop where
  natives : ∀ k : Native, s.registry.kind? k.id = some (.native k)
  indexed : s.registry.Indexed
  named : ∀ ty, s.NamesType ty → ∃ c, s.registry.kind? ty = some (.ofClass c)

theorem initial_keyed : Resolver.initial.Keyed where
  natives := Registry.initial_sound.natives
  indexed := Registry.initial_indexed
  named := by
    rintro ty ⟨j, sc, hsc, n, hn⟩
    have hmem : sc ∈ #[Scope.empty .global none] := Array.mem_of_getElem? hsc
    rw [Array.mem_singleton.1 hmem] at hn
    simp [Scope.empty] at hn

/-- A changed registry in which every type is what it was. -/
theorem Keyed.withRegistry {r : Registry} (h : s.Keyed) (hkeep : s.registry.KeepsKinds r)
    (hr : r.Indexed) : (s.withRegistry r).Keyed where
  natives k := hkeep _ _ (h.natives k)
  indexed := hr
  named ty hty := by
    obtain ⟨c, hc⟩ := h.named ty hty
    exact ⟨c, hkeep ty _ hc⟩

theorem mem_chainWithin {t : ScopeTree} {sc : Scope} : ∀ {depth : Nat} {j : ScopeId},
    sc ∈ t.chainWithin depth j → ∃ l : ScopeId, t.scopes[l.index]? = some sc := by
  intro depth
  induction depth with
  | zero => intro j h; cases h
  | succ depth ih =>
    intro j h
    rw [ScopeTree.chainWithin] at h
    cases hj : t.scopes[j.index]? with
    | none => rw [hj] at h; cases h
    | some sc' =>
      rw [hj] at h
      cases hp : sc'.parent with
      | none =>
        simp only [hp, List.mem_singleton] at h
        exact ⟨j, h ▸ hj⟩
      | some p =>
        simp only [hp, List.mem_cons] at h
        rcases h with rfl | h
        · exact ⟨j, hj⟩
        · exact ih h

/-- **A name denotes a native type or a class**, from whatever scope it is seen. -/
theorem Keyed.findType? (h : s.Keyed) {catalog : Catalog} {j : ScopeId} {n : String} {ty : TypeId}
    (hty : s.scopes.findType? catalog j n = some ty) :
    ∃ k, s.registry.kind? ty = some k ∧ k.part? = none := by
  obtain ⟨sc, hsc, hfind⟩ := List.exists_of_findSome?_eq_some hty
  obtain ⟨l, hl⟩ := mem_chainWithin hsc
  have huser : sc.types[n]? = some ty → ∃ k, s.registry.kind? ty = some k ∧ k.part? = none := by
    intro hn
    obtain ⟨c, hc⟩ := h.named ty ⟨l, sc, hl, n, hn⟩
    exact ⟨_, hc, rfl⟩
  unfold Scope.findType? Scope.findUserType? at hfind
  cases hk : sc.kind with
  | ofClass c | block => rw [hk] at hfind; exact huser hfind
  | global =>
    rw [hk] at hfind
    cases hcat : catalog.find? n with
    | none => rw [hcat] at hfind; exact huser hfind
    | some k =>
      rw [hcat] at hfind
      cases hfind
      exact ⟨_, h.natives k, rfl⟩

end Resolver

/-- **What a resolved type spells**: its suffixes, behind what its name denotes. -/
theorem TypeName.resolve_spells {d : Dialect} {j : ScopeId} : ∀ (n : TypeName) {s s' : Resolver}
    {id : TypeId}, s.Keyed → n.resolve d j s = .ok id s' →
    s'.Keyed ∧ s.registry.KeepsKinds s'.registry ∧
      ∃ k, s.baseKind? d j n = some k ∧ k.part? = none ∧ s'.registry.Spells id n.suffixes k := by
  intro n
  -- a suffix enters one more type, made from the one before
  have suffix : ∀ {s s' : Resolver} {id : TypeId} {m : TypeName} (σ : Suffix), s.Keyed →
      (do let ty ← m.resolve d j; Resolve.intern (σ.kind ty) : Resolve TypeId) s = .ok id s' →
      (∀ {s₁ : Resolver} {ty : TypeId}, m.resolve d j s = .ok ty s₁ →
        s₁.Keyed ∧ s.registry.KeepsKinds s₁.registry ∧ ∃ k, s.baseKind? d j m = some k ∧
          k.part? = none ∧ s₁.registry.Spells ty m.suffixes k) →
      s'.Keyed ∧ s.registry.KeepsKinds s'.registry ∧ ∃ k, s.baseKind? d j m = some k ∧
        k.part? = none ∧ s'.registry.Spells id (σ :: m.suffixes) k := by
    intro s s' id m σ hs hrun ih
    simp only [bind, EStateM.bind] at hrun
    cases hm : m.resolve d j s with
    | error f s₁ => rw [hm] at hrun; cases hrun
    | ok ty s₁ =>
      rw [hm] at hrun
      cases hrun
      obtain ⟨hs₁, hkeep, k, hbase, hpart, hspells⟩ := ih hm
      have hkeep₁ := s₁.registry.keepsKinds_intern (σ.kind ty)
      refine ⟨hs₁.withRegistry hkeep₁ (hs₁.indexed.intern _), ?_, k, hbase, hpart, ty, ?_, ?_⟩
      · exact fun id k hk => hkeep₁ id k (hkeep id k hk)
      · exact Registry.kind?_intern hs₁.indexed _
      · exact hspells.mono hkeep₁
  induction n with
  | named name span =>
    intro s s' id hs hrun
    rw [TypeName.resolve] at hrun
    cases hfind : s.scopes.findType? d.catalog j name with
    | none =>
      rw [Resolve.ask_of_error (by unfold Resolver.typeNamed; rw [hfind])] at hrun
      cases hrun
    | some ty =>
      rw [Resolve.ask_of_ok (by unfold Resolver.typeNamed; rw [hfind])] at hrun
      cases hrun
      obtain ⟨k, hk, hpart⟩ := hs.findType? hfind
      refine ⟨hs, fun _ _ hk => hk, k, ?_, hpart, hk⟩
      unfold Resolver.baseKind? TypeName.base
      rw [hfind]
      exact hk
  | pointer m span ih =>
    intro s s' id hs hrun
    exact suffix .pointer hs hrun fun hm => ih hs hm
  | array m span ih =>
    intro s s' id hs hrun
    exact suffix .array hs hrun fun hm => ih hs hm

namespace Resolver

variable {s s' : Resolver} {d : Dialect} {log : List Event}

theorem KeepsTypes.keyed (hkeep : s.KeepsTypes s') (h : s.Keyed) : s'.Keyed where
  natives k := by rw [hkeep.registry]; exact h.natives k
  indexed := by rw [hkeep.registry]; exact h.indexed
  named ty hty := by rw [hkeep.registry]; exact h.named ty (hkeep.named ty hty)

/-- **One step** keeps numbers and types apart, and all types what they are. -/
theorem Keyed.step {events : List Event} (h : s.Keyed) (hstep : Step d s events s') :
    s'.Keyed ∧ s.registry.KeepsKinds s'.registry := by
  cases hstep with
  | @type _ n j id hrun =>
    obtain ⟨hs', hkeep, -⟩ := n.resolve_spells h hrun
    exact ⟨hs', hkeep⟩
  | method hkeep _ | quiet hkeep _ => exact ⟨hkeep.keyed h, fun id k hk => by rwa [hkeep.registry]⟩
  | ofClass c n =>
    have hkeep := s.registry.keepsKinds_internClass c n
    exact ⟨h.withRegistry hkeep (h.indexed.internClass c n), hkeep⟩
  | @part k t _ =>
    have hkeep := s.registry.keepsKinds_intern k
    exact ⟨h.withRegistry hkeep (h.indexed.intern k), hkeep⟩
  | @named _ c hregistry hnamed _ =>
    refine ⟨⟨?_, ?_, fun ty hty => ?_⟩, fun id k hk => by rwa [hregistry]⟩
    · rw [hregistry]; exact h.natives
    · rw [hregistry]; exact h.indexed
    · rw [hregistry]
      rcases hnamed ty hty with hold | hnew
      · exact h.named ty hold
      · exact ⟨c, (h.indexed _ ty).1 hnew⟩
  | member hadd =>
    have hkeep := Registry.keepsKinds_addMember hadd
    obtain ⟨e, he, rfl⟩ := Registry.addMember_eq_ok hadd
    exact ⟨h.withRegistry hkeep (h.indexed.withMember he _ _), hkeep⟩

/-- **What is resolved on a path** spells at its end what it spelled at its moment. -/
theorem Path.spells (hpath : Path d s log s') (h : s.Keyed) :
    s'.Keyed ∧ s.registry.KeepsKinds s'.registry ∧ ∀ n j moment id,
      .type n j moment id ∈ log → ∃ k, moment.baseKind? d j n = some k ∧ k.part? = none ∧
        s'.registry.Spells id n.suffixes k := by
  induction hpath with
  | done s => exact ⟨h, fun _ _ hk => hk, nofun⟩
  | @next s₁ s₂ s₃ events log hstep _ ih =>
    obtain ⟨hs₂, hkeep⟩ := h.step hstep
    obtain ⟨hs₃, hkeep', hrest⟩ := ih hs₂
    refine ⟨hs₃, fun id k hk => hkeep' id k (hkeep id k hk), fun n j moment id hin => ?_⟩
    rcases List.mem_append.1 hin with hin | hin
    · -- a type that is noted first is resolved by the first step
      cases hstep with
      | type hrun =>
        cases List.mem_singleton.1 hin
        obtain ⟨-, -, k, hbase, hpart, hspells⟩ := n.resolve_spells h hrun
        exact ⟨k, hbase, hpart, hspells.mono hkeep'⟩
      | method _ _ | ofClass _ _ => cases List.mem_singleton.1 hin
      | part _ => cases hin
      | named _ _ _ => cases hin
      | member _ => cases hin
      | quiet _ _ => cases hin
    · exact hrest n j moment id hin

/-- **Two written types on one path** are the same type if and only if they are written with the same
suffixes and their names denote the same native type or class. -/
theorem Path.same_type_iff (hpath : Path d s log s') (h : s.Keyed) {n n' : TypeName} {j j' : ScopeId}
    {moment moment' : Resolver} {id id' : TypeId} (hin : .type n j moment id ∈ log)
    (hin' : .type n' j' moment' id' ∈ log) :
    id = id' ↔ n.suffixes = n'.suffixes ∧ moment.baseKind? d j n = moment'.baseKind? d j' n' := by
  obtain ⟨hs', -, hspells⟩ := hpath.spells h
  obtain ⟨k, hbase, hpart, hid⟩ := hspells n j moment id hin
  obtain ⟨k', hbase', hpart', hid'⟩ := hspells n' j' moment' id' hin'
  rw [hid.eq_iff hs'.indexed hpart hpart' hid', hbase, hbase', Option.some.injEq]

end Resolver

/-! ## Units -/

namespace CompilationUnit

/-- The state in which the resolution of a unit ends, with an answer or with a fault. -/
def finalState (d : Dialect) (u : CompilationUnit) : Resolver :=
  match resolveUnit d u .initial with
  | .ok _ s => s
  | .error _ s => s

/-- **Resolution goes a path**, and if it succeeds, all types that are written in the unit are
resolved on it. -/
theorem exists_path (d : Dialect) (u : CompilationUnit) :
    ∃ log, Path d .initial log (u.finalState d) ∧
      ((u.resolve d).isOk = true → u.types ⊆ typesIn log) := by
  obtain ⟨s₀, h₀⟩ : ∃ s, s = Resolver.initial := ⟨_, rfl⟩
  have htraces := resolveUnit_traces d u h₀
  unfold finalState CompilationUnit.resolve
  rw [← h₀]
  unfold Traces at htraces
  cases hrun : resolveUnit d u s₀ with
  | ok a s =>
    rw [hrun] at htraces
    obtain ⟨log, hpath, hlogged⟩ := htraces
    exact ⟨log, hpath, fun _ => hlogged.types⟩
  | error f s =>
    rw [hrun] at htraces
    obtain ⟨⟨log, hpath⟩, -⟩ := htraces
    exact ⟨log, hpath, nofun⟩

end CompilationUnit

/-- **Types are entered once.** Whatever is asked of a registry, its table and its entries stay
inverse, numbers keep what they stand for, and equal numbers are equal types. So along every run of
resolution two written types get one number if and only if they are written with the same suffixes
and their names denote the same native type or class. -/
theorem Session.hash_consing (d : Dialect) (u : CompilationUnit) :
    (∀ S, start.Reaches S → S.Consed ∧ ∀ T, S.Reaches T → ∀ id ∈ S.given,
      id ∈ T.given ∧ T.registry.kind? id = S.registry.kind? id) ∧
    (∃ log, Path d .initial log (u.finalState d) ∧
      ((u.resolve d).isOk = true → u.types ⊆ typesIn log)) ∧
    ∀ log s, Path d .initial log s → ∀ n n' j j' moment moment' id id',
      .type n j moment id ∈ log → .type n' j' moment' id' ∈ log →
      (∃ k, moment.baseKind? d j n = some k ∧ k.part? = none) ∧
      (id = id' ↔ n.suffixes = n'.suffixes ∧
        moment.baseKind? d j n = moment'.baseKind? d j' n') := by
  refine ⟨fun S hS => ?_, u.exists_path d, fun log s hpath n n' j j' moment moment' id id' => ?_⟩
  · obtain ⟨hsound, -, -⟩ := hS.sound start_sound
    refine ⟨hsound.consed, fun T hT id hid => ⟨?_, hT.kind?_eq hsound hid⟩⟩
    exact (hT.sound hsound).2.2 hid
  · intro hin hin'
    obtain ⟨k, hbase, hpart, -⟩ := (hpath.spells initial_keyed).2.2 n j moment id hin
    exact ⟨⟨k, hbase, hpart⟩, hpath.same_type_iff initial_keyed hin hin'⟩

/-- A function of two arguments:
```
f(a: Integer*, b: Integer[]);
``` -/
def Twins.unit : CompilationUnit :=
  let sp := Span.nowhere
  let integer := TypeName.named "Integer" sp
  ⟨[.ofFunction ⟨"f", [⟨"a", .pointer integer sp, sp⟩, ⟨"b", .array integer sp, sp⟩], none, none,
    sp⟩], sp⟩

/-- A registry that is asked for a pointer type, and for a class. -/
def Twins.session : Session :=
  let asked := Session.start.registry.intern (.pointer Native.integer.id)
  let named := asked.2.internClass ⟨0⟩ "A"
  ⟨named.2, named.1 :: asked.1 :: Session.start.given⟩

theorem Twins.types_told_apart : Session.start.Reaches Twins.session ∧ Twins.session.Consed ∧
    (Twins.unit.resolve .standard).isOk = true ∧
    ∃ log j j' moment moment' id id', Path .standard .initial log (Twins.unit.finalState .standard) ∧
      .type (.pointer (.named "Integer" .nowhere) .nowhere) j moment id ∈ log ∧
      .type (.array (.named "Integer" .nowhere) .nowhere) j' moment' id' ∈ log ∧ id ≠ id' := by
  have hreach : Session.start.Reaches Twins.session :=
    .step (.step .refl (.type (.pointer Native.integer.id) (by rintro t ⟨⟩; decide)))
      (.ofClass ⟨0⟩ "A")
  have hok : (Twins.unit.resolve .standard).isOk = true := by decide +kernel
  obtain ⟨hcons, ⟨log, hpath, htypes⟩, hsame⟩ := Session.hash_consing .standard Twins.unit
  obtain ⟨j, moment, id, hin⟩ := mem_typesIn.1 (htypes hok List.mem_cons_self)
  obtain ⟨j', moment', id', hin'⟩ :=
    mem_typesIn.1 (htypes hok (List.mem_cons_of_mem _ List.mem_cons_self))
  refine ⟨hreach, (hcons _ hreach).1, hok, log, j, j', moment, moment', id, id', hpath, hin, hin',
    fun heq => ?_⟩
  -- the suffixes differ, so the numbers do
  have hsuffixes := ((hsame log _ hpath _ _ j j' moment moment' id id' hin hin').2.1 heq).1
  cases hsuffixes

end ClassLang
