import ClassLang.Proofs.Outcome

/-!
# Registries that are sound

A registry is sound if the native types have their places, a pointer or array is entered after
what it is made from, and the table of numbers is inverse to the entries, so that no type is entered
twice. Entering a type keeps it so.

* `Indexed.intern`, `kind?_intern`: a new entry and its number in the table stay inverse.
* `intern_sound`, `intern_extends`: entering a type.
* `shape_eq`: in a sound registry the shape of a type can be read off its kind, without a bound on
  the depth; so every walk down a type ends.
* `shape_injective`: types of one shape have one number.
-/

namespace ClassLang

/-- The type that a pointer or array type is made from. -/
def TypeKind.part? : TypeKind → Option TypeId
  | native _ => none
  | ofClass _ => none
  | pointer t => some t
  | array t => some t

/-! ## Numbers of kinds -/

theorem Native.index_injective {a b : Native} (h : a.index = b.index) : a = b := by
  cases a <;> cases b <;> first
    | rfl
    | exact absurd h (by decide)

/-- Different kinds are told apart by their numbers. -/
theorem TypeKind.code_injective {a b : TypeKind} (h : a.code = b.code) : a = b := by
  cases a <;> cases b <;> simp only [code] at h
  case native.native a b => rw [Native.index_injective (a := a) (b := b) (by omega)]
  case ofClass.ofClass a b =>
    have hindex : a.index = b.index := by omega
    cases a; cases b; cases hindex; rfl
  case pointer.pointer a b =>
    have hindex : a.index = b.index := by omega
    cases a; cases b; cases hindex; rfl
  case array.array a b =>
    have hindex : a.index = b.index := by omega
    cases a; cases b; cases hindex; rfl
  all_goals omega

instance : Std.LawfulEqCmp (compareOn TypeKind.code) where
  eq_of_compare h := TypeKind.code_injective (Std.LawfulEqCmp.eq_of_compare h)

namespace Registry

/-- There is a type of this number. -/
def Has (r : Registry) (id : TypeId) : Prop := id.index < r.types.size

/-- **The table of numbers and the entries are inverse**: a type is found under a number if and only
if the entry of that number is the type. -/
def Indexed (r : Registry) : Prop := ∀ k id, r.find? k = some id ↔ r.kind? id = some k

/-- Native types come first, parts before wholes, and each has its number in the table. -/
structure Sound (r : Registry) : Prop where
  natives : ∀ k : Native, r.kind? k.id = some (.native k)
  descends : ∀ id k t, r.kind? id = some k → k.part? = some t → t.index < id.index
  indexed : r.Indexed

/-- The second registry has all that the first has, under the same numbers. -/
structure Extends (r r' : Registry) : Prop where
  entry : ∀ id e, r.entry? id = some e → r'.entry? id = some e
  classNames : r'.classNames = r.classNames

variable {r r' r'' : Registry} {id : TypeId} {k : TypeKind}

theorem Extends.refl (r : Registry) : r.Extends r := ⟨fun _ _ h => h, rfl⟩

theorem Extends.trans (h : r.Extends r') (h' : r'.Extends r'') : r.Extends r'' :=
  ⟨fun id e he => h'.entry id e (h.entry id e he), h'.classNames.trans h.classNames⟩

theorem has_iff : r.Has id ↔ ∃ k, r.kind? id = some k := by
  unfold Has kind? entry?
  constructor
  · intro h
    exact ⟨r.types[id.index].kind, by rw [Array.getElem?_eq_getElem h]; rfl⟩
  · rintro ⟨k, hk⟩
    obtain ⟨e, he, -⟩ := Option.map_eq_some_iff.1 hk
    exact (Array.getElem?_eq_some_iff.1 he).1

theorem has_of_kind? (h : r.kind? id = some k) : r.Has id := has_iff.2 ⟨k, h⟩

theorem has_iff_entry : r.Has id ↔ ∃ e, r.entry? id = some e := by
  rw [has_iff]
  unfold kind?
  constructor
  · rintro ⟨k, hk⟩
    obtain ⟨e, he, -⟩ := Option.map_eq_some_iff.1 hk
    exact ⟨e, he⟩
  · rintro ⟨e, he⟩
    exact ⟨e.kind, by rw [he]; rfl⟩

theorem Extends.kind? (h : r.Extends r') (hk : r.kind? id = some k) : r'.kind? id = some k := by
  unfold Registry.kind? at *
  obtain ⟨e, he, rfl⟩ := Option.map_eq_some_iff.1 hk
  rw [h.entry id e he]; rfl

theorem Extends.has (h : r.Extends r') (hi : r.Has id) : r'.Has id := by
  obtain ⟨k, hk⟩ := has_iff.1 hi
  exact has_of_kind? (h.kind? hk)

theorem Extends.className? (h : r.Extends r') (c : ClassId) :
    r'.className? c = r.className? c := by
  unfold Registry.className?; rw [h.classNames]

/-- No type is entered twice. -/
theorem Indexed.unique (h : r.Indexed) {a b : TypeId} (ha : r.kind? a = some k)
    (hb : r.kind? b = some k) : a = b := by
  have hab : some a = some b := ((h k a).2 ha).symm.trans ((h k b).2 hb)
  exact Option.some.inj hab

theorem Sound.unique (hr : r.Sound) (a b : TypeId) (k : TypeKind) (ha : r.kind? a = some k)
    (hb : r.kind? b = some k) : a = b := hr.indexed.unique ha hb

theorem Sound.has_native (hr : r.Sound) (k : Native) : r.Has k.id := has_of_kind? (hr.natives k)

theorem Sound.native_injective (hr : r.Sound) {a b : Native} (h : a.id = b.id) : a = b := by
  have ha := hr.natives a
  rw [h, hr.natives b] at ha
  cases ha; rfl

/-! ## Entering a type -/

theorem kind?_push (e : TypeEntry) (ids : Std.TreeMap TypeKind TypeId (compareOn TypeKind.code))
    (names : Std.TreeMap Nat String) :
    (Registry.mk (r.types.push e) ids names).kind? id =
      if id.index = r.types.size then some e.kind else r.kind? id := by
  unfold kind? entry?
  rw [Array.getElem?_push]
  split <;> rfl

theorem find?_insert (types : Array TypeEntry) (new : TypeId) (names : Std.TreeMap Nat String)
    (k' : TypeKind) : (Registry.mk types (r.ids.insert k new) names).find? k' =
      if k = k' then some new else r.find? k' := by
  unfold find?
  rw [Std.TreeMap.getElem?_insert]
  simp only [Std.LawfulEqCmp.compare_eq_iff_eq]

/-- **A new type and its number are entered together**, so the table and the entries stay inverse. -/
theorem Indexed.push (h : r.Indexed) (hnew : r.find? k = none) (names : Std.TreeMap Nat String) :
    (Registry.mk (r.types.push ⟨k, []⟩) (r.ids.insert k ⟨r.types.size⟩) names).Indexed := by
  intro k' id
  rw [find?_insert, kind?_push]
  by_cases hid : id.index = r.types.size
  · -- the number is the new one, so no type had it before
    obtain rfl : id = ⟨r.types.size⟩ := by cases id; exact congrArg TypeId.mk hid
    rw [if_pos rfl, Option.some.injEq]
    constructor
    · intro hf
      split at hf
      · assumption
      · have hlt := has_of_kind? ((h k' _).1 hf)
        exact absurd hlt (Nat.lt_irrefl _)
    · rintro rfl
      rw [if_pos rfl]
  · rw [if_neg hid, ← h k' id]
    by_cases hk : k = k'
    · subst hk
      rw [if_pos rfl, hnew]
      exact iff_of_false (fun heq => hid (congrArg TypeId.index (Option.some.inj heq)).symm)
        (Option.some_ne_none id).symm
    · rw [if_neg hk]

/-- **Entering a type** keeps the table and the entries inverse. -/
theorem Indexed.intern (h : r.Indexed) (k : TypeKind) : (r.intern k).2.Indexed := by
  unfold Registry.intern
  cases hf : r.find? k with
  | some id => exact h
  | none => exact h.push hf _

theorem intern_extends (r : Registry) (k : TypeKind) : r.Extends (r.intern k).2 := by
  unfold intern
  split
  · exact Extends.refl r
  · refine ⟨fun id e he => ?_, rfl⟩
    unfold entry? at *
    have hlt := (Array.getElem?_eq_some_iff.1 he).1
    rw [Array.getElem?_push_lt hlt, ← Array.getElem?_eq_getElem hlt]
    exact he

/-- What has been entered is found under its number. -/
theorem find?_intern (r : Registry) (k : TypeKind) :
    (r.intern k).2.find? k = some (r.intern k).1 := by
  unfold intern
  cases hf : r.find? k with
  | some id => exact hf
  | none => exact (find?_insert ..).trans (if_pos rfl)

theorem kind?_intern (h : r.Indexed) (k : TypeKind) :
    (r.intern k).2.kind? (r.intern k).1 = some k :=
  (h.intern k k (r.intern k).1).1 (r.find?_intern k)

/-- Entering a type adds no other one, and a new one has the number behind all others. -/
theorem entry?_of_intern {e : TypeEntry} (h : Registry.entry? (r.intern k).2 id = some e) :
    r.entry? id = some e ∨ id.index = r.types.size ∧ e = ⟨k, []⟩ := by
  unfold intern at h
  split at h
  · exact .inl h
  · unfold entry? at *
    rw [Array.getElem?_push] at h
    split at h
    · rename_i hi
      cases h
      exact .inr ⟨hi, rfl⟩
    · exact .inl h

theorem kind?_of_intern {k' : TypeKind} (h : (r.intern k).2.kind? id = some k') :
    r.kind? id = some k' ∨ id.index = r.types.size ∧ k' = k := by
  unfold kind? at h
  obtain ⟨e, he, rfl⟩ := Option.map_eq_some_iff.1 h
  rcases entry?_of_intern he with h' | ⟨hid, rfl⟩
  · left; unfold kind?; rw [h']; rfl
  · exact .inr ⟨hid, rfl⟩

theorem intern_sound (hr : r.Sound) (hk : ∀ t, k.part? = some t → r.Has t) :
    (r.intern k).2.Sound := by
  have hx := r.intern_extends k
  refine ⟨fun n => hx.kind? (hr.natives n), fun id k' t h ht => ?_, hr.indexed.intern k⟩
  rcases kind?_of_intern h with h' | ⟨hid, rfl⟩
  · exact hr.descends id k' t h' ht
  · have hlt : t.index < r.types.size := hk t ht
    omega

/-! ## Shapes -/

theorem shapeWithin_stable (hr : r.Sound) : ∀ (n m : Nat) (id : TypeId), id.index < n →
    id.index < m → r.shapeWithin n id = r.shapeWithin m id := by
  intro n
  induction n with
  | zero => intro m id h; omega
  | succ n ih =>
    intro m id hn hm
    obtain ⟨m, rfl⟩ : ∃ j, m = j + 1 := ⟨m - 1, by omega⟩
    simp only [shapeWithin]
    cases hk : r.kind? id with
    | none => rfl
    | some k =>
      cases k with
      | native k => rfl
      | ofClass c => rfl
      | pointer t | array t =>
        have := hr.descends id _ t hk rfl
        simp only [ih m t (by omega) (by omega)]

/-- **The shape of a type follows its kind**, however deep it goes. -/
theorem shape_eq (hr : r.Sound) (id : TypeId) : r.shape id =
    match r.kind? id with
    | some (.native k) => .native k
    | some (.ofClass c) => .ofClass c
    | some (.pointer t) => .pointer (r.shape t)
    | some (.array t) => .array (r.shape t)
    | none => .unknown id := by
  conv => lhs; unfold shape
  simp only [shapeWithin]
  cases hk : r.kind? id with
  | none => rfl
  | some k =>
    cases k with
    | native k => rfl
    | ofClass c => rfl
    | pointer t | array t =>
      have h1 := hr.descends id _ t hk rfl
      have h2 : r.Has id := has_of_kind? hk
      unfold Has at h2
      simp only [shape, shapeWithin_stable hr r.types.size (r.types.size + 1) t (by omega) (by omega)]

/-- **Types of one shape are one type.** -/
theorem shape_injective (hr : r.Sound) {a b : TypeId} (ha : r.Has a) (hb : r.Has b)
    (hab : r.shape a = r.shape b) : a = b := by
  obtain ⟨n⟩ := a
  induction n using Nat.strongRecOn generalizing b with
  | ind n ih =>
    obtain ⟨ka, hka⟩ := has_iff.1 ha
    obtain ⟨kb, hkb⟩ := has_iff.1 hb
    rw [shape_eq hr, shape_eq hr b, hka, hkb] at hab
    have part : ∀ s t, ka.part? = some s → kb.part? = some t → r.shape s = r.shape t → s = t := by
      intro s t hs ht hst
      have h1 := hr.descends _ ka s hka hs
      have h2 := hr.descends b kb t hkb ht
      exact ih s.index h1 (b := t) (Nat.lt_trans h2 hb) (Nat.lt_trans h1 ha) hst
    -- equal shapes leave only equal kinds
    refine hr.unique _ b ka hka ?_
    rw [hkb]
    cases ka with
    | native k => cases kb <;> simp_all
    | ofClass c => cases kb <;> simp_all
    | pointer s =>
      cases kb with
      | pointer t => rw [part s t rfl rfl (by simpa using hab)]
      | _ => simp at hab
    | array s =>
      cases kb with
      | array t => rw [part s t rfl rfl (by simpa using hab)]
      | _ => simp at hab

end Registry

end ClassLang
