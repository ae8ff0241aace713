import Mathlib.Data.List.Forall2
import ClassLang.Proofs.WellTyped
import ClassLang.Proofs.TypeRules

/-!
# Handles and what they stand for

The type rules know types by their names. Here the handles of a state are read back: a type as a
written-out type (`Registry.meaning?`), a variable as its type (`Resolver.tyOf?`), and a method as
its signature (`Resolver.signatureOf?`).

In a sound state every handle stands for something (`Sound.meaning?_isSome`), no two types stand for
the same (`Sound.meaning?_injective`), and what a handle stands for never changes
(`Grows.meaning?`).
-/

namespace ClassLang

/-- The type that a shape spells out, given the names of classes. -/
def Shape.ty? (classes : ClassId → Option String) : Shape → Option Ty
  | native k => some (.native k)
  | ofClass c => (classes c).map .ofClass
  | pointer target => (target.ty? classes).map .pointer
  | array element => (element.ty? classes).map .array
  | unknown _ => none

/-- The native type that a type is, if it is one. -/
def Ty.native? : Ty → Option Native
  | native k => some k
  | _ => none

/-- A list of answers is there if each of them is. -/
theorem mapM_eq_some_iff {α β : Type} {f : α → Option β} {l : List α} {bs : List β} :
    l.mapM f = some bs ↔ l.map f = bs.map some := by
  induction l generalizing bs with
  | nil => cases bs <;> simp
  | cons a l ih =>
    simp only [List.mapM_cons, Option.bind_eq_bind, Option.bind_eq_some_iff, Option.pure_def,
      Option.some.injEq, List.map_cons]
    constructor
    · rintro ⟨b, hb, cs, hcs, rfl⟩
      rw [List.map_cons, hb, ih.1 hcs]
    · intro h
      cases bs with
      | nil => simp at h
      | cons b bs =>
        rw [List.map_cons, List.cons.injEq] at h
        exact ⟨b, h.1, bs, ih.2 h.2, rfl⟩

/-- Lists that look the same look the same place by place. -/
theorem forall₂_of_map_eq {α β γ : Type} {f : α → γ} {g : β → γ} {l : List α} {l' : List β}
    (h : l.map f = l'.map g) : List.Forall₂ (fun a b => f a = g b) l l' := by
  rwa [← List.forall₂_eq_eq_eq, List.forall₂_map_left_iff, List.forall₂_map_right_iff] at h

namespace Registry

variable {r : Registry} {id t : TypeId} {T : Ty}

/-- The type that a number stands for. -/
def meaning? (r : Registry) (id : TypeId) : Option Ty := (r.shape id).ty? r.className?

theorem meaning?_eq (hr : r.Sound) (id : TypeId) : r.meaning? id =
    match r.kind? id with
    | some (.native k) => some (.native k)
    | some (.ofClass c) => (r.className? c).map .ofClass
    | some (.pointer t) => (r.meaning? t).map .pointer
    | some (.array t) => (r.meaning? t).map .array
    | none => none := by
  unfold meaning?
  rw [shape_eq hr]
  cases r.kind? id with
  | none => rfl
  | some k => cases k <;> rfl

theorem has_of_meaning? (hr : r.Sound) (h : r.meaning? id = some T) : r.Has id := by
  rw [meaning?_eq hr] at h
  cases hk : r.kind? id with
  | none => rw [hk] at h; cases h
  | some k => exact has_of_kind? hk

theorem meaning?_native (hr : r.Sound) (k : Native) : r.meaning? k.id = some (.native k) := by
  rw [meaning?_eq hr, hr.natives k]

theorem meaning?_ofClass (hr : r.Sound) {c : ClassId} {n : String}
    (hk : r.kind? id = some (.ofClass c)) (hn : r.className? c = some n) :
    r.meaning? id = some (.ofClass n) := by
  rw [meaning?_eq hr, hk]
  exact Option.map_eq_some_iff.2 ⟨n, hn, rfl⟩

theorem meaning?_pointer (hr : r.Sound) (hk : r.kind? id = some (.pointer t))
    (ht : r.meaning? t = some T) : r.meaning? id = some (.pointer T) := by
  rw [meaning?_eq hr, hk]
  exact Option.map_eq_some_iff.2 ⟨T, ht, rfl⟩

theorem meaning?_array (hr : r.Sound) (hk : r.kind? id = some (.array t))
    (ht : r.meaning? t = some T) : r.meaning? id = some (.array T) := by
  rw [meaning?_eq hr, hk]
  exact Option.map_eq_some_iff.2 ⟨T, ht, rfl⟩

/-- What kind of type a number stands for shows in its entry. -/
theorem kind?_of_meaning? (hr : r.Sound) (h : r.meaning? id = some T) :
    match T with
    | .native k => r.kind? id = some (.native k)
    | .ofClass n => ∃ c, r.kind? id = some (.ofClass c) ∧ r.className? c = some n
    | .pointer T => ∃ t, r.kind? id = some (.pointer t) ∧ r.meaning? t = some T
    | .array T => ∃ t, r.kind? id = some (.array t) ∧ r.meaning? t = some T := by
  rw [meaning?_eq hr] at h
  cases hk : r.kind? id with
  | none => rw [hk] at h; cases h
  | some k =>
    rw [hk] at h
    cases k with
    | native k => cases h; rfl
    | ofClass c =>
      obtain ⟨n, hn, rfl⟩ := Option.map_eq_some_iff.1 h
      exact ⟨c, rfl, hn⟩
    | pointer t | array t =>
      obtain ⟨T', hT, rfl⟩ := Option.map_eq_some_iff.1 h
      exact ⟨t, rfl, hT⟩

theorem eq_native_of_meaning? (hr : r.Sound) {k : Native} (h : r.meaning? id = some (.native k)) :
    id = k.id :=
  hr.unique id k.id _ (kind?_of_meaning? hr h) (hr.natives k)

theorem nativeOf?_eq (hr : r.Sound) (h : r.meaning? id = some T) :
    r.nativeOf? id = T.native? := by
  have hk := kind?_of_meaning? hr h
  unfold nativeOf?
  cases T with
  | native k => rw [hk]; rfl
  | ofClass n => obtain ⟨c, hc, -⟩ := hk; rw [hc]; rfl
  | pointer T | array T => obtain ⟨t, ht, -⟩ := hk; rw [ht]; rfl

end Registry

namespace Resolver

/-- The type of a variable. -/
def tyOf? (s : Resolver) (v : VariableId) : Option Ty :=
  (s.program.varAt? v).bind fun x => s.registry.meaning? x.ty

/-- What a method takes and gives. -/
def signatureOf? (s : Resolver) (m : MethodId) : Option Signature := do
  let g ← s.program.methodAt? m
  let parameters ← g.arguments.mapM s.tyOf?
  return ⟨parameters, ← s.registry.meaning? g.result⟩

variable {s s' : Resolver} {id a b : TypeId} {T : Ty} {v : VariableId} {m : MethodId}

theorem tyOf?_eq_some_iff : s.tyOf? v = some T ↔
    ∃ x, s.program.varAt? v = some x ∧ s.registry.meaning? x.ty = some T := by
  unfold tyOf?
  rw [Option.bind_eq_some_iff]

theorem signatureOf?_eq_some_iff {sig : Signature} : s.signatureOf? m = some sig ↔
    ∃ g, s.program.methodAt? m = some g ∧ g.arguments.map s.tyOf? = sig.parameters.map some ∧
      s.registry.meaning? g.result = some sig.result := by
  unfold signatureOf?
  simp only [Option.bind_eq_bind, Option.bind_eq_some_iff, Option.pure_def, Option.some.injEq,
    mapM_eq_some_iff]
  constructor
  · rintro ⟨g, hg, ps, hps, t, ht, rfl⟩
    exact ⟨g, hg, hps, ht⟩
  · rintro ⟨g, hg, hps, ht⟩
    exact ⟨g, hg, sig.parameters, hps, sig.result, ht, rfl⟩

/-! ## Meanings stay -/

/-- **What a type stands for never changes.** -/
theorem Grows.meaning? (hg : s.Grows s') (hr : s.registry.Sound) (hr' : s'.registry.Sound)
    (h : s.registry.meaning? id = some T) : s'.registry.meaning? id = some T := by
  induction T generalizing id with
  | native k =>
    rw [Registry.meaning?_eq hr', hg.kind? (Registry.kind?_of_meaning? hr h)]
  | ofClass n =>
    obtain ⟨c, hc, hn⟩ := Registry.kind?_of_meaning? hr h
    exact Registry.meaning?_ofClass hr' (hg.kind? hc) (hg.names c n hn)
  | pointer T ih =>
    obtain ⟨t, ht, hT⟩ := Registry.kind?_of_meaning? hr h
    exact Registry.meaning?_pointer hr' (hg.kind? ht) (ih hT)
  | array T ih =>
    obtain ⟨t, ht, hT⟩ := Registry.kind?_of_meaning? hr h
    exact Registry.meaning?_array hr' (hg.kind? ht) (ih hT)

theorem Grows.tyOf? (hg : s.Grows s') (hr : s.registry.Sound) (hr' : s'.registry.Sound)
    (h : s.tyOf? v = some T) : s'.tyOf? v = some T := by
  obtain ⟨x, hx, hT⟩ := tyOf?_eq_some_iff.1 h
  exact tyOf?_eq_some_iff.2 ⟨x, hg.vars v x hx, hg.meaning? hr hr' hT⟩

theorem Grows.map_tyOf? (hg : s.Grows s') (hr : s.registry.Sound) (hr' : s'.registry.Sound)
    {vs : List VariableId} {ps : List Ty} (h : vs.map s.tyOf? = ps.map some) :
    vs.map s'.tyOf? = ps.map some := by
  rw [← h]
  refine List.map_congr_left fun v hv => ?_
  have hmem : s.tyOf? v ∈ ps.map some := h ▸ List.mem_map_of_mem hv
  obtain ⟨T, -, hT⟩ := List.mem_map.1 hmem
  rw [← hT]
  exact hg.tyOf? hr hr' hT.symm

/-- A method that is not resolved anew keeps its signature. -/
theorem Grows.signatureOf? (hg : s.Grows s') (hr : s.registry.Sound) (hr' : s'.registry.Sound)
    {g g' : Method} {sig : Signature} (hm : s.program.methodAt? m = some g)
    (hm' : s'.program.methodAt? m = some g') (ha : g'.arguments = g.arguments)
    (hres : g'.result = g.result) (h : s.signatureOf? m = some sig) :
    s'.signatureOf? m = some sig := by
  obtain ⟨g₀, hg₀, hps, hT⟩ := signatureOf?_eq_some_iff.1 h
  rw [hm] at hg₀
  cases hg₀
  refine signatureOf?_eq_some_iff.2 ⟨g', hm', ?_, ?_⟩
  · rw [ha]; exact hg.map_tyOf? hr hr' hps
  · rw [hres]; exact hg.meaning? hr hr' hT

/-! ## Sound states -/

/-- **In a sound state every type stands for something.** -/
theorem Sound.meaning?_isSome (hs : s.Sound) (h : s.registry.Has id) :
    ∃ T, s.registry.meaning? id = some T := by
  obtain ⟨n⟩ := id
  induction n using Nat.strongRecOn with
  | ind n ih =>
    obtain ⟨k, hk⟩ := Registry.has_iff.1 h
    have part : ∀ t, k.part? = some t → ∃ T, s.registry.meaning? t = some T := by
      intro t ht
      have hlt := hs.registry.descends _ k t hk ht
      exact ih t.index hlt (Nat.lt_trans hlt h)
    cases k with
    | native k => rw [Registry.meaning?_eq hs.registry, hk]; exact ⟨_, rfl⟩
    | ofClass c =>
      obtain ⟨i, hi, -⟩ := hs.classType _ c hk
      exact ⟨_, Registry.meaning?_ofClass hs.registry hk (hs.classes c i hi).named⟩
    | pointer t =>
      obtain ⟨T, hT⟩ := part t rfl
      exact ⟨_, Registry.meaning?_pointer hs.registry hk hT⟩
    | array t =>
      obtain ⟨T, hT⟩ := part t rfl
      exact ⟨_, Registry.meaning?_array hs.registry hk hT⟩

/-- A type that stands for a class is the type of that class. -/
theorem Sound.class_of_meaning? (hs : s.Sound) {n : String}
    (h : s.registry.meaning? id = some (.ofClass n)) :
    ∃ c i, s.registry.kind? id = some (.ofClass c) ∧ s.program.classAt? c = some i ∧ i.name = n ∧
      i.ty = id := by
  obtain ⟨c, hc, hn⟩ := Registry.kind?_of_meaning? hs.registry h
  obtain ⟨i, hi, hty⟩ := hs.classType id c hc
  refine ⟨c, i, hc, hi, ?_, hty⟩
  have := (hs.classes c i hi).named
  rw [hn] at this
  cases this; rfl

theorem Sound.meaning?_class (hs : s.Sound) {c : ClassId} {i : ClassInfo}
    (hi : s.program.classAt? c = some i) : s.registry.meaning? i.ty = some (.ofClass i.name) :=
  Registry.meaning?_ofClass hs.registry (hs.classes c i hi).kind (hs.classes c i hi).named

/-- Classes of one name are one class. -/
theorem Sound.class_unique (hs : s.Sound) {c c' : ClassId} {i i' : ClassInfo}
    (hi : s.program.classAt? c = some i) (hi' : s.program.classAt? c' = some i')
    (hn : i.name = i'.name) : c = c' := by
  obtain ⟨sc, hsc, hty⟩ := (hs.classes c i hi).declared
  obtain ⟨sc', hsc', hty'⟩ := (hs.classes c' i' hi').declared
  rw [hsc] at hsc'
  cases hsc'
  rw [hn, hty', Option.some.injEq] at hty
  have hk := (hs.classes c' i' hi').kind
  rw [hty, (hs.classes c i hi).kind] at hk
  cases hk; rfl

/-- **No two types stand for the same.** -/
theorem Sound.meaning?_injective (hs : s.Sound) (ha : s.registry.meaning? a = some T)
    (hb : s.registry.meaning? b = some T) : a = b := by
  induction T generalizing a b with
  | native k =>
    rw [Registry.eq_native_of_meaning? hs.registry ha, Registry.eq_native_of_meaning? hs.registry hb]
  | ofClass n =>
    obtain ⟨c, i, -, hi, hn, rfl⟩ := hs.class_of_meaning? ha
    obtain ⟨c', i', -, hi', hn', rfl⟩ := hs.class_of_meaning? hb
    cases hs.class_unique hi hi' (hn.trans hn'.symm)
    rw [hi] at hi'
    cases hi'; rfl
  | pointer T ih | array T ih =>
    obtain ⟨t, ht, hT⟩ := Registry.kind?_of_meaning? hs.registry ha
    obtain ⟨t', ht', hT'⟩ := Registry.kind?_of_meaning? hs.registry hb
    cases ih hT hT'
    exact hs.registry.unique a b _ ht ht'

theorem Sound.tyOf?_isSome (hs : s.Sound) {x : Variable} (hx : s.program.varAt? v = some x) :
    ∃ T, s.tyOf? v = some T ∧ s.registry.meaning? x.ty = some T := by
  obtain ⟨T, hT⟩ := hs.meaning?_isSome (hs.vars v x hx).ty
  exact ⟨T, tyOf?_eq_some_iff.2 ⟨x, hx, hT⟩, hT⟩

/-- The types of some variables, as handles and written out. -/
theorem Sound.typesOf?_isSome (hs : s.Sound) {vs : List VariableId}
    (hv : ∀ v ∈ vs, ∃ x, s.program.varAt? v = some x) :
    ∃ (tys : List TypeId) (ps : List Ty), s.program.typesOf? vs = some tys ∧
      tys.map s.registry.meaning? = ps.map some ∧ vs.map s.tyOf? = ps.map some := by
  induction vs with
  | nil => exact ⟨[], [], rfl, rfl, rfl⟩
  | cons v vs ih =>
    obtain ⟨tys, ps, htys, hps, hvs⟩ := ih fun v hv' => hv v (List.mem_cons_of_mem _ hv')
    obtain ⟨x, hx⟩ := hv v List.mem_cons_self
    obtain ⟨T, hT, hm⟩ := hs.tyOf?_isSome hx
    refine ⟨x.ty :: tys, T :: ps, ?_, ?_, ?_⟩
    · unfold Program.typesOf? at *
      rw [List.mapM_cons, hx, htys]; rfl
    · rw [List.map_cons, List.map_cons, hm, hps]
    · rw [List.map_cons, List.map_cons, hT, hvs]

/-- In a sound state every method has a signature. -/
theorem Sound.signatureOf?_isSome (hs : s.Sound) {g : Method}
    (hg : s.program.methodAt? m = some g) :
    ∃ sig tys, s.signatureOf? m = some sig ∧ s.program.typesOf? g.arguments = some tys ∧
      tys.map s.registry.meaning? = sig.parameters.map some ∧
      s.registry.meaning? g.result = some sig.result := by
  obtain ⟨tys, ps, htys, hps, hvs⟩ := hs.typesOf?_isSome (hs.methods m g hg).argument
  obtain ⟨T, hT⟩ := hs.meaning?_isSome (hs.methods m g hg).result
  exact ⟨⟨ps, T⟩, tys, signatureOf?_eq_some_iff.2 ⟨g, hg, hvs, hT⟩, htys, hps, hT⟩

end Resolver

end ClassLang
