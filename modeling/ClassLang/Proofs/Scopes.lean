import ClassLang.Proofs.Outcome

/-!
# Walking outward through scopes

In a tree where every scope stands inside one with a smaller number, the way outward from a scope
ends, and `chain_eq` says what it passes: the scope itself and then what its parent passes. So a
name means what the scope itself says, or else what it means to the parent (`find_eq`).
-/

namespace ClassLang.ScopeTree

variable {t : ScopeTree} {id : ScopeId} {sc : Scope} {β : Type}

/-- Every scope stands inside one with a smaller number. -/
def Rooted (t : ScopeTree) : Prop :=
  ∀ (id p : ScopeId) (sc : Scope), t.scopes[id.index]? = some sc → sc.parent = some p →
    p.index < id.index

/-- Once all scopes of smaller number may be passed, more steps outward change nothing. -/
theorem chainWithin_stable (ht : t.Rooted) : ∀ (n m : Nat) (id : ScopeId), id.index < n →
    id.index < m → t.chainWithin n id = t.chainWithin m id := by
  intro n
  induction n with
  | zero => intro m id h; omega
  | succ n ih =>
    intro m id hn hm
    obtain ⟨m, rfl⟩ : ∃ j, m = j + 1 := ⟨m - 1, by omega⟩
    simp only [chainWithin]
    cases hs : t.scopes[id.index]? with
    | none => rfl
    | some sc =>
      cases hp : sc.parent with
      | none => simp only [hp]
      | some p =>
        have := ht id p sc hs hp
        simp only [hp, ih m p (by omega) (by omega)]

/-- **The way outward**: a scope, and then the way from its parent. -/
theorem chain_eq (ht : t.Rooted) (hs : t.scopes[id.index]? = some sc) :
    t.chain id = sc :: (match sc.parent with
      | some p => t.chain p
      | none => []) := by
  have hlt : id.index < t.size := (Array.getElem?_eq_some_iff.1 hs).1
  unfold chain
  obtain ⟨n, hn⟩ : ∃ n, t.size = n + 1 := ⟨t.size - 1, by omega⟩
  rw [hn]
  conv => lhs; unfold chainWithin
  simp only [hs]
  cases hp : sc.parent with
  | none => rfl
  | some p =>
    have := ht id p sc hs hp
    simp only [chainWithin_stable ht n (n + 1) p (by omega) (by omega)]

/-- What is found on the way outward is found in the scope itself or from its parent on. -/
theorem find_eq (ht : t.Rooted) (hs : t.scopes[id.index]? = some sc) (f : Scope → Option β) :
    (t.chain id).findSome? f = (f sc).or (match sc.parent with
      | some p => (t.chain p).findSome? f
      | none => none) := by
  rw [chain_eq ht hs, List.findSome?_cons]
  cases f sc with
  | some b => rfl
  | none => cases sc.parent <;> rfl

end ClassLang.ScopeTree
