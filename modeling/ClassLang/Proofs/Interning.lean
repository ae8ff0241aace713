import ClassLang.Proofs.Install

/-!
# Types are entered once

A registry gives out numbers for types. Whoever uses it asks for a type, made from numbers that have
been given out before, names a class, or adds a member to a type (`Session.Step`). Whatever is asked
and in whatever order (`Session.Reaches`):

* `Indexed` is kept: looking up a type in the table of numbers and reading an entry stay inverse to
  each other.
* `Session.Reaches.kind?_eq`: a number that was given out keeps what it stands for.
* `intern_of_kind?`, `size_intern_le`: a request adds one entry at most, and none for a type that is
  there.
* `Session.Sound.eq_iff_shape_eq`: two numbers are equal if and only if they stand for the same type,
  written out down to a native type or a class.
-/

namespace ClassLang

/-- A shape that leads to a native type or a class. -/
def Shape.Known : Shape → Prop
  | native _ => True
  | ofClass _ => True
  | pointer target => target.Known
  | array element => element.Known
  | unknown _ => False

namespace Registry

variable {r r' : Registry} {id : TypeId} {k : TypeKind} {c : ClassId} {n : String}

/-! ## Single requests -/

/-- A type that is there is not entered again. -/
theorem Sound.intern_of_kind? (hr : r.Sound) (hk : r.kind? id = some k) : r.intern k = (id, r) := by
  unfold intern
  rw [(hr.indexed k id).2 hk]

/-- A request enters one type at most. -/
theorem size_intern_le (r : Registry) (k : TypeKind) :
    (r.intern k).2.types.size ≤ r.types.size + 1 := by
  unfold intern
  split
  · exact Nat.le_succ _
  · simp

/-- Naming a class enters its type like any other. -/
theorem internClass_types (r : Registry) (c : ClassId) (n : String) :
    (r.internClass c n).1 = (r.intern (.ofClass c)).1 ∧
      (r.internClass c n).2.types = (r.intern (.ofClass c)).2.types ∧
      (r.internClass c n).2.ids = (r.intern (.ofClass c)).2.ids := by
  unfold internClass intern find?
  cases r.ids[TypeKind.ofClass c]? with
  | none => exact ⟨rfl, rfl, rfl⟩
  | some i => exact ⟨rfl, rfl, rfl⟩

theorem kind?_eq_of_types (h : r'.types = r.types) : r'.kind? id = r.kind? id := by
  unfold kind? entry?
  rw [h]

theorem Indexed.of_types (hr : r.Indexed) (h : r'.types = r.types) (hids : r'.ids = r.ids) :
    r'.Indexed := by
  intro k id
  rw [kind?_eq_of_types h, find?, hids]
  exact hr k id

theorem Sound.of_types (hr : r.Sound) (h : r'.types = r.types) (hids : r'.ids = r.ids) :
    r'.Sound where
  natives k := (kind?_eq_of_types h).trans (hr.natives k)
  descends id k t hk := hr.descends id k t ((kind?_eq_of_types h).symm.trans hk)
  indexed := hr.indexed.of_types h hids

theorem Indexed.internClass (hr : r.Indexed) (c : ClassId) (n : String) :
    (r.internClass c n).2.Indexed :=
  (hr.intern (.ofClass c)).of_types (r.internClass_types c n).2.1 (r.internClass_types c n).2.2

theorem Sound.internClass (hr : r.Sound) (c : ClassId) (n : String) :
    (r.internClass c n).2.Sound := by
  have hnew : (r.intern (.ofClass c)).2.Sound := intern_sound hr fun t ht => by cases ht
  exact hnew.of_types (r.internClass_types c n).2.1 (r.internClass_types c n).2.2

/-- The type of a class is found under its number as soon as the class is named. -/
theorem find?_internClass (r : Registry) (c : ClassId) (n : String) :
    (r.internClass c n).2.find? (.ofClass c) = some (r.internClass c n).1 := by
  rw [find?, (r.internClass_types c n).2.2, (r.internClass_types c n).1]
  exact r.find?_intern _

theorem kind?_internClass (hr : r.Indexed) (c : ClassId) (n : String) :
    (r.internClass c n).2.kind? (r.internClass c n).1 = some (.ofClass c) :=
  (hr.internClass c n _ _).1 (r.find?_internClass c n)

/-- A member that can be added is added to a type that is there. -/
theorem addMember_eq_ok {m : MethodId} (h : r.addMember id n m = .ok r') :
    ∃ e, r.entry? id = some e ∧ r' = r.withMember id e n m := by
  unfold addMember at h
  cases he : r.entry? id with
  | none => rw [he] at h; cases h
  | some e => rw [he] at h; cases h; exact ⟨e, rfl, rfl⟩

/-- **What a request keeps**: each type that is there stays what it is. -/
def KeepsKinds (r r' : Registry) : Prop := ∀ id k, r.kind? id = some k → r'.kind? id = some k

theorem keepsKinds_intern (r : Registry) (k : TypeKind) : r.KeepsKinds (r.intern k).2 :=
  fun _ _ h => (r.intern_extends k).kind? h

theorem keepsKinds_internClass (r : Registry) (c : ClassId) (n : String) :
    r.KeepsKinds (r.internClass c n).2 := by
  intro id k hk
  rw [kind?_eq_of_types (r.internClass_types c n).2.1]
  exact r.keepsKinds_intern _ id k hk

theorem keepsKinds_addMember {m : MethodId} (h : r.addMember id n m = .ok r') :
    r.KeepsKinds r' := by
  obtain ⟨e, he, rfl⟩ := addMember_eq_ok h
  intro l k hk
  rwa [kind?_withMember he]

/-- In a sound registry every type leads to a native type or a class. -/
theorem Sound.shape_known (hr : r.Sound) (hi : r.Has id) : (r.shape id).Known := by
  obtain ⟨i⟩ := id
  -- a part has a smaller number than the whole
  induction i using Nat.strongRecOn with
  | ind i ih =>
    obtain ⟨k, hk⟩ := has_iff.1 hi
    have part : ∀ t, k.part? = some t → (r.shape t).Known := by
      intro t ht
      have hlt := hr.descends _ k t hk ht
      exact ih t.index hlt (Nat.lt_trans hlt hi)
    rw [shape_eq hr, hk]
    cases k with
    | native k => trivial
    | ofClass c => trivial
    | pointer t => exact part t rfl
    | array t => exact part t rfl

end Registry

/-! ## Sessions -/

/-- A registry in use, and the numbers it has given out. -/
structure Session where
  registry : Registry
  given : List TypeId

namespace Session

/-- A new registry. The numbers of the native types are known. -/
def start : Session := ⟨.initial, Native.all.map Native.id⟩

/-- **One request.** A pointer or array is made from a number that has been given out. -/
inductive Step : Session → Session → Prop where
  | type {S : Session} (k : TypeKind) (hpart : ∀ t, k.part? = some t → t ∈ S.given) :
    Step S ⟨(S.registry.intern k).2, (S.registry.intern k).1 :: S.given⟩
  | ofClass {S : Session} (c : ClassId) (n : String) :
    Step S ⟨(S.registry.internClass c n).2, (S.registry.internClass c n).1 :: S.given⟩
  | member {S : Session} {r : Registry} {id : TypeId} {n : String} {m : MethodId}
    (h : S.registry.addMember id n m = .ok r) : Step S ⟨r, S.given⟩

/-- Requests in turn. -/
inductive Reaches (S : Session) : Session → Prop where
  | refl : Reaches S S
  | step {T U : Session} : Reaches S T → T.Step U → Reaches S U

/-- A sound registry, and numbers that it has. -/
structure Sound (S : Session) : Prop where
  registry : S.registry.Sound
  given : ∀ id ∈ S.given, S.registry.Has id

variable {S T : Session}

theorem start_sound : start.Sound where
  registry := Registry.initial_sound
  given id hid := by
    obtain ⟨k, -, rfl⟩ := List.mem_map.1 hid
    exact Registry.initial_sound.has_native k

/-- **What a step does**: it keeps the registry sound and all that was given out. -/
theorem Sound.step (h : S.Sound) (hstep : S.Step T) :
    T.Sound ∧ S.registry.KeepsKinds T.registry ∧ S.given ⊆ T.given := by
  have grown : ∀ {r : Registry}, S.registry.KeepsKinds r → ∀ id ∈ S.given, r.Has id := by
    intro r hkeep id hid
    obtain ⟨k, hk⟩ := Registry.has_iff.1 (h.given id hid)
    exact Registry.has_of_kind? (hkeep id k hk)
  cases hstep with
  | type k hpart =>
    have hkeep := S.registry.keepsKinds_intern k
    refine ⟨⟨?_, ?_⟩, hkeep, List.subset_cons_self _ _⟩
    · exact Registry.intern_sound h.registry fun t ht => h.given t (hpart t ht)
    · intro id hid
      rcases List.mem_cons.1 hid with rfl | hid
      · exact Registry.has_of_kind? (Registry.kind?_intern h.registry.indexed k)
      · exact grown hkeep id hid
  | ofClass c n =>
    have hkeep := S.registry.keepsKinds_internClass c n
    refine ⟨⟨h.registry.internClass c n, ?_⟩, hkeep, List.subset_cons_self _ _⟩
    intro id hid
    rcases List.mem_cons.1 hid with rfl | hid
    · exact Registry.has_of_kind? (Registry.kind?_internClass h.registry.indexed c n)
    · exact grown hkeep id hid
  | member hadd =>
    have hkeep := Registry.keepsKinds_addMember hadd
    obtain ⟨e, he, rfl⟩ := Registry.addMember_eq_ok hadd
    exact ⟨⟨h.registry.withMember he _ _, grown hkeep⟩, hkeep, List.Subset.refl _⟩

/-- **What a run does**, by induction on its steps. -/
theorem Reaches.sound (hrun : S.Reaches T) (h : S.Sound) :
    T.Sound ∧ S.registry.KeepsKinds T.registry ∧ S.given ⊆ T.given := by
  induction hrun with
  | refl => exact ⟨h, fun _ _ hk => hk, List.Subset.refl _⟩
  | step _ hstep ih =>
    obtain ⟨hT, hkeep, hgiven⟩ := ih
    obtain ⟨hU, hkeep', hgiven'⟩ := hT.step hstep
    exact ⟨hU, fun id k hk => hkeep' id k (hkeep id k hk), List.Subset.trans hgiven hgiven'⟩

/-- **A number keeps what it stands for.** -/
theorem Reaches.kind?_eq (hrun : S.Reaches T) (h : S.Sound) {id : TypeId} (hid : id ∈ S.given) :
    T.registry.kind? id = S.registry.kind? id := by
  obtain ⟨k, hk⟩ := Registry.has_iff.1 (h.given id hid)
  rw [hk]
  exact (hrun.sound h).2.1 id k hk

/-- **Equal numbers, equal types.** -/
theorem Sound.eq_iff_shape_eq (h : S.Sound) {a b : TypeId} (ha : a ∈ S.given) (hb : b ∈ S.given) :
    a = b ↔ S.registry.shape a = S.registry.shape b := by
  constructor
  · rintro rfl
    rfl
  · exact Registry.shape_injective h.registry (h.given a ha) (h.given b hb)

/-- **All that holds of a registry in use**: the table of numbers and the entries are inverse, the
native types are in their places, a request enters one type at most and none that is there, and the
numbers given out are equal if and only if they stand for the same written-out type. -/
structure Consed (S : Session) : Prop where
  inverse : ∀ k id, S.registry.find? k = some id ↔ S.registry.kind? id = some k
  natives : ∀ k : Native, S.registry.kind? k.id = some (.native k)
  once : ∀ k id, S.registry.kind? id = some k → S.registry.intern k = (id, S.registry)
  growth : ∀ k, (S.registry.intern k).2.types.size ≤ S.registry.types.size + 1
  named : ∀ c n, (S.registry.internClass c n).1 = (S.registry.intern (.ofClass c)).1 ∧
    (S.registry.internClass c n).2.types = (S.registry.intern (.ofClass c)).2.types ∧
    (S.registry.internClass c n).2.ids = (S.registry.intern (.ofClass c)).2.ids
  members : ∀ id n m r, S.registry.addMember id n m = .ok r → r.types.size = S.registry.types.size
  known : ∀ id ∈ S.given, (S.registry.shape id).Known
  shapes : ∀ a ∈ S.given, ∀ b ∈ S.given, a = b ↔ S.registry.shape a = S.registry.shape b

theorem Sound.consed (h : S.Sound) : S.Consed where
  inverse := h.registry.indexed
  natives := h.registry.natives
  once _ _ hk := h.registry.intern_of_kind? hk
  growth := S.registry.size_intern_le
  named := S.registry.internClass_types
  members id n m r hadd := by
    obtain ⟨e, -, rfl⟩ := Registry.addMember_eq_ok hadd
    simp [Registry.withMember]
  known id hid := h.registry.shape_known (h.given id hid)
  shapes _ ha _ hb := h.eq_iff_shape_eq ha hb

end Session

end ClassLang
