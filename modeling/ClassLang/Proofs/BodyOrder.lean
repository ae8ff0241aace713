import ClassLang.Proofs.DeclarationOrder

/-!
# The order in which bodies are taken

The bodies of a unit are gone through in turn, and what fails is the first that fails.

* `exceptMapM_eq_error_iff`, `exceptMapM_isOk_iff`: what comes of a list that is gone through in turn.
* `mem_byName`, `byName_pairwise`: the declarations of a unit, sorted by their names.
* `MethodKey.Before`: the order of methods, by class and name, with functions last.
* `CompilationUnit.inOrder_pairwise`: **the bodies are taken in that order**.
-/

namespace ClassLang

open Resolver Resolve

/-! ## Lists that are gone through in turn -/

section

variable {α β ε : Type} {l : List α} {f g : α → Except ε β}

/-- What fails is the first that fails. -/
theorem exceptMapM_eq_error_iff {e : ε} : l.mapM f = .error e ↔
    ∃ pre a post, l = pre ++ a :: post ∧ (∀ b ∈ pre, ∃ y, f b = .ok y) ∧ f a = .error e := by
  induction l with
  | nil =>
    constructor
    · intro h
      rw [List.mapM_nil] at h
      cases h
    · rintro ⟨pre, a, post, hl, -⟩
      simp at hl
  | cons a l ih =>
    rw [List.mapM_cons]
    cases ha : f a with
    | error e' =>
      constructor
      · intro h
        cases h
        -- the first member fails, and nothing stands before it
        exact ⟨[], a, l, rfl, nofun, ha⟩
      · rintro ⟨pre, b, post, hl, hpre, hb⟩
        cases pre with
        | nil =>
          cases hl
          rw [← ha, hb]; rfl
        | cons c pre =>
          cases hl
          obtain ⟨y, hy⟩ := hpre a List.mem_cons_self
          rw [ha] at hy
          cases hy
    | ok y =>
      constructor
      · intro h
        -- the first member succeeds, so the failure is one of the rest
        have hl : l.mapM f = .error e := by
          cases hl : l.mapM f with
          | error e' => rw [hl] at h; exact h
          | ok ys => rw [hl] at h; cases h
        obtain ⟨pre, b, post, rfl, hpre, hb⟩ := ih.1 hl
        refine ⟨a :: pre, b, post, rfl, ?_, hb⟩
        intro c hc
        rcases List.mem_cons.1 hc with rfl | hc
        · exact ⟨y, ha⟩
        · exact hpre c hc
      · rintro ⟨pre, b, post, hl, hpre, hb⟩
        cases pre with
        | nil =>
          cases hl
          rw [ha] at hb
          cases hb
        | cons c pre =>
          cases hl
          have hrest := ih.2 ⟨pre, b, post, rfl, fun c hc => hpre c (List.mem_cons_of_mem _ hc), hb⟩
          rw [hrest]; rfl

/-- Nothing fails where each has an answer. -/
theorem exceptMapM_isOk_iff : (∃ ys, l.mapM f = .ok ys) ↔ ∀ a ∈ l, ∃ y, f a = .ok y := by
  constructor
  · rintro ⟨ys, h⟩ a ha
    have hmem : f a ∈ ys.map .ok := exceptMapM_eq_ok_iff.1 h ▸ List.mem_map_of_mem ha
    obtain ⟨y, -, hy⟩ := List.mem_map.1 hmem
    exact ⟨y, hy.symm⟩
  · intro h
    cases hrun : l.mapM f with
    | ok ys => exact ⟨ys, rfl⟩
    | error e =>
      obtain ⟨pre, a, post, rfl, -, he⟩ := exceptMapM_eq_error_iff.1 hrun
      obtain ⟨y, hy⟩ := h a (by simp)
      rw [he] at hy
      cases hy

theorem mem_of_exceptMapM {ys : List β} {a : α} {y : β} (h : l.mapM f = .ok ys) (ha : a ∈ l)
    (hy : f a = .ok y) : y ∈ ys := by
  have hmem : f a ∈ ys.map .ok := exceptMapM_eq_ok_iff.1 h ▸ List.mem_map_of_mem ha
  obtain ⟨y', hy', heq⟩ := List.mem_map.1 hmem
  rw [hy] at heq
  exact Except.ok.inj heq ▸ hy'

/-- What can be seen of the things before can be seen of the answers. -/
theorem map_of_exceptMapM {κ : Type} {key : α → κ} {key' : β → κ} {ys : List β}
    (hkey : ∀ a y, f a = .ok y → key' y = key a) (h : l.mapM f = .ok ys) :
    ys.map key' = l.map key := by
  have hmap := exceptMapM_eq_ok_iff.1 h
  clear h
  induction l generalizing ys with
  | nil => cases ys with
    | nil => rfl
    | cons y ys => cases hmap
  | cons a l ih => cases ys with
    | nil => cases hmap
    | cons y ys =>
      rw [List.map_cons, List.map_cons, List.cons.injEq] at hmap
      rw [List.map_cons, List.map_cons, hkey a y hmap.1, ih hmap.2]

/-- Things in turn, when each of them has been replaced by one that does the same. -/
theorem inTurn_map {q : α → α} {f f' : List α → α → Except ε β}
    (h : ∀ before a, f (before.map q) (q a) = f' before a) (before l : List α) :
    inTurn f (before.map q) (l.map q) = inTurn f' before l := by
  induction l generalizing before with
  | nil => rfl
  | cons a l ih =>
    have hrest := ih (before ++ [a])
    rw [List.map_append, List.map_singleton] at hrest
    rw [List.map_cons, inTurn, inTurn, h, hrest]

end

section

variable {α : Type} {name : α → String} {l : List α}

theorem mem_byName (hl : (l.map name).Nodup) {a : α} : a ∈ byName name l ↔ a ∈ l := by
  unfold byName
  rw [mem_values]
  constructor
  · rintro ⟨n, hn⟩
    rw [getElem?_ofList_name hl, find?_name_iff hl] at hn
    exact hn.1
  · intro ha
    exact ⟨name a, by rw [getElem?_ofList_name hl, find?_name_iff hl]; exact ⟨ha, rfl⟩⟩

/-- Things by name are in the order of their names. -/
theorem byName_pairwise (hl : (l.map name).Nodup) :
    (byName name l).Pairwise fun a b => name a < name b := by
  have hname : ∀ q ∈ (Std.TreeMap.ofList (l.map fun a => (name a, a))).toList, name q.2 = q.1 := by
    intro q hq
    have hn := Std.TreeMap.mem_toList_iff_getElem?_eq_some.1 hq
    rw [getElem?_ofList_name hl, find?_name_iff hl] at hn
    exact hn.2
  unfold byName
  rw [values_eq_map_snd, List.pairwise_map]
  refine Std.TreeMap.ordered_keys_toList.imp_of_mem fun {a b} ha hb hlt => ?_
  rw [hname a ha, hname b hb]
  exact compareOfLessAndEq_eq_lt.1 hlt

theorem byName_perm_self (hl : (l.map name).Nodup) : (byName name l).Perm l := by
  have hnodup : (byName name l).Nodup := by
    refine (byName_pairwise hl).imp fun hlt heq => ?_
    rw [heq] at hlt
    exact String.lt_irrefl _ hlt
  have hnodup' : l.Nodup := (List.pairwise_map.1 hl).imp fun hne heq => hne (congrArg name heq)
  exact (List.perm_ext_iff_of_nodup hnodup hnodup').2 fun a => mem_byName hl

/-- Things that are replaced by others of the same name. -/
theorem byName_map {q : α → α} (hl : (l.map name).Nodup) (hq : ∀ a, name (q a) = name a) :
    byName name (l.map q) = (byName name l).map q := by
  have hl' : ((l.map q).map name).Nodup := by
    rw [List.map_map]
    exact (List.map_congr_left fun a _ => hq a) ▸ hl
  refine byName_eq_of_find? hl' fun n => ?_
  rw [getElem?_ofList_name hl, List.find?_map]
  exact congrArg (Option.map q) (congrArg (l.find? ·) (funext fun a => by simp [hq]))

end

/-! ## The order of the bodies -/

/-- What names a method in a unit: its class, if it has one, and its own name. -/
abbrev MethodKey := Option String × String

/-- **The order of methods**: by class and name, and functions after them by name. -/
def MethodKey.Before : MethodKey → MethodKey → Prop
  | (some c, m), (some c', m') => c < c' ∨ c = c' ∧ m < m'
  | (some _, _), (none, _) => True
  | (none, _), (some _, _) => False
  | (none, f), (none, f') => f < f'

theorem MethodKey.Before.ne {k k' : MethodKey} (h : k.Before k') : k ≠ k' := by
  rintro rfl
  obtain ⟨_ | c, m⟩ := k
  · exact String.lt_irrefl m h
  · rcases h with hlt | ⟨-, hlt⟩
    · exact String.lt_irrefl c hlt
    · exact String.lt_irrefl m hlt

/-- The key of a method that a unit declares. -/
def MethodDecl.key (owner : Option ClassDecl) (m : MethodDecl) : MethodKey :=
  (owner.map ClassDecl.name, m.name)

namespace CompilationUnit

variable {d : Dialect} {u : CompilationUnit}

/-- The order has the declared methods and nothing else. -/
theorem mem_inOrder (hu : u.WellDeclared d) {o : Option String} {m : MethodDecl} :
    (o, m) ∈ u.inOrder ↔ ∃ owner, u.Declares owner m ∧ owner.map ClassDecl.name = o := by
  unfold inOrder
  rw [List.mem_append, List.mem_flatMap]
  constructor
  · rintro (⟨c, hc, hm⟩ | hf)
    · rw [mem_byName hu.classNames] at hc
      obtain ⟨m', hm', heq⟩ := List.mem_map.1 hm
      cases heq
      exact ⟨some c, ⟨hc, (mem_byName (hu.classes c hc).methodNames).1 hm'⟩, rfl⟩
    · obtain ⟨f, hf, heq⟩ := List.mem_map.1 hf
      cases heq
      exact ⟨none, (mem_byName hu.functionNames).1 hf, rfl⟩
  · rintro ⟨owner, hm, rfl⟩
    cases owner with
    | some c =>
      refine .inl ⟨c, (mem_byName hu.classNames).2 hm.1, List.mem_map.2 ⟨m, ?_, rfl⟩⟩
      exact (mem_byName (hu.classes c hm.1).methodNames).2 hm.2
    | none => exact .inr (List.mem_map.2 ⟨m, (mem_byName hu.functionNames).2 hm, rfl⟩)

/-- **The bodies are taken in the order of methods.** -/
theorem inOrder_pairwise (hu : u.WellDeclared d) : u.inOrder.Pairwise fun a b =>
    MethodKey.Before (a.1, a.2.name) (b.1, b.2.name) := by
  unfold inOrder
  rw [List.pairwise_append, List.pairwise_flatMap, List.pairwise_map]
  refine ⟨⟨fun c hc => ?_, ?_⟩, byName_pairwise hu.functionNames, ?_⟩
  · rw [mem_byName hu.classNames] at hc
    rw [List.pairwise_map]
    exact (byName_pairwise (hu.classes c hc).methodNames).imp fun h => .inr ⟨rfl, h⟩
  · refine (byName_pairwise hu.classNames).imp fun {c c'} hlt a ha b hb => ?_
    obtain ⟨m, -, rfl⟩ := List.mem_map.1 ha
    obtain ⟨m', -, rfl⟩ := List.mem_map.1 hb
    exact .inl hlt
  · intro a ha b hb
    obtain ⟨c, -, hm⟩ := List.mem_flatMap.1 ha
    obtain ⟨m, -, rfl⟩ := List.mem_map.1 hm
    obtain ⟨f, -, rfl⟩ := List.mem_map.1 hb
    exact trivial

end CompilationUnit

end ClassLang
