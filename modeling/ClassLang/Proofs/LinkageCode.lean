import ClassLang.Proofs.Named
import ClassLang.Proofs.Scanning

/-!
# Linkage names can be read back

A linkage name has no separators. It can be read back all the same: a name stands behind its length,
and since names do not start with a digit, the length ends where the name begins; the text of a
type is never the beginning of the text of another one, however deep both are; and the names
end where the types begin, since no type starts with a digit.

So each part is cancelled from the left (`sized_cancel`, `Ty.linkage_cancel`), and what is left is
compared in the same way, up to the end of the text.

* `MethodName.code_eq_iff`: two methods have the same linkage text if and only if their owners have
  the same name, they have the same name, and they take the same types, where taking nothing and
  taking a single `Void` are the same.
-/

namespace ClassLang

/-! ## Names -/

theorem IsWord.not_isDigit {n : String} (h : IsWord n) :
    ∃ c cs, n.toList = c :: cs ∧ c.isDigit = false := by
  obtain ⟨c, cs, hn, hc, -⟩ := h
  exact ⟨c, cs, hn, isDigit_of_isWordStart hc⟩

/-- Two beginnings of a text that take equally many bytes are the same. -/
theorem append_cancel_of_utf8ByteSize {n n' : String} {x x' : List Char}
    (hsize : n.utf8ByteSize = n'.utf8ByteSize) (h : n.toList ++ x = n'.toList ++ x') :
    n = n' ∧ x = x' := by
  -- One of them goes on behind the other, by no bytes.
  have hnil : ∀ {a b : String} {z : List Char}, a.utf8ByteSize = b.utf8ByteSize →
      a.toList = b.toList ++ z → z = [] := by
    intro a b z hab hz
    have hsplit : a = b ++ String.ofList z := by
      rw [← String.toList_inj, String.toList_append, String.toList_ofList, hz]
    have hbytes : a.utf8ByteSize = b.utf8ByteSize + (String.ofList z).utf8ByteSize := by
      rw [hsplit, String.utf8ByteSize_append]
    have hzero : (String.ofList z).utf8ByteSize = 0 := by omega
    have hempty := congrArg String.toList (String.utf8ByteSize_eq_zero_iff.1 hzero)
    rwa [String.toList_ofList] at hempty
  rcases List.append_eq_append_iff.1 h with ⟨z, hz, hx⟩ | ⟨z, hz, hx⟩
  · have hz₀ := hnil hsize.symm hz
    subst hz₀
    rw [List.append_nil, String.toList_inj] at hz
    exact ⟨hz.symm, hx⟩
  · have hz₀ := hnil hsize hz
    subst hz₀
    rw [List.append_nil, String.toList_inj] at hz
    exact ⟨hz, hx.symm⟩

/-- What is written as digits is read back from the digits. -/
theorem toDigits_inj {n n' : Nat} (h : Nat.toDigits 10 n = Nat.toDigits 10 n') : n = n' := by
  rw [← Nat.ofDigitChars_ten_toDigits (n := n), h, Nat.ofDigitChars_ten_toDigits]

theorem toList_sized (n : String) :
    (sized n).toList = Nat.toDigits 10 n.utf8ByteSize ++ n.toList := by
  rw [sized, String.toList_append, Nat.toList_repr]

/-- A name behind its length starts with a digit. -/
theorem sized_head (n : String) (x : List Char) :
    ∃ c cs, (sized n).toList ++ x = c :: cs ∧ c.isDigit = true := by
  rw [toList_sized]
  cases hdigits : Nat.toDigits 10 n.utf8ByteSize with
  | nil => exact absurd hdigits Nat.toDigits_ne_nil
  | cons c cs =>
    refine ⟨c, _, rfl, ?_⟩
    have hmem : c ∈ Nat.toDigits 10 n.utf8ByteSize := hdigits ▸ List.mem_cons_self
    exact Nat.isDigit_of_mem_toDigits (by decide) (by decide) hmem

/-- The digits end where the name begins. -/
theorem takeWhile_sized {n : String} (hn : IsWord n) (x : List Char) :
    ((sized n).toList ++ x).takeWhile Char.isDigit = Nat.toDigits 10 n.utf8ByteSize := by
  obtain ⟨c, cs, hcs, hc⟩ := hn.not_isDigit
  rw [toList_sized, List.append_assoc, List.takeWhile_append_of_pos, hcs, List.cons_append,
    List.takeWhile_cons_of_neg (by simp [hc]), List.append_nil]
  exact fun d hd => Nat.isDigit_of_mem_toDigits (by decide) (by decide) hd

/-- **A name is cancelled from the left.** -/
theorem sized_cancel {n n' : String} (hn : IsWord n) (hn' : IsWord n') {x x' : List Char}
    (h : (sized n).toList ++ x = (sized n').toList ++ x') : n = n' ∧ x = x' := by
  have hdigits : Nat.toDigits 10 n.utf8ByteSize = Nat.toDigits 10 n'.utf8ByteSize := by
    rw [← takeWhile_sized hn x, h, takeWhile_sized hn' x']
  rw [toList_sized, toList_sized, hdigits, List.append_assoc, List.append_assoc] at h
  exact append_cancel_of_utf8ByteSize (toDigits_inj hdigits) (List.append_cancel_left h)

/-! ## Types -/

/-- The classes of a type have words for names. -/
def Ty.Worded : Ty → Prop
  | native _ => True
  | ofClass n => IsWord n
  | pointer T => T.Worded
  | array T => T.Worded

namespace Ty

theorem toList_linkage : ∀ T : Ty, T.linkage.toList = match T with
    | native k => [k.letter]
    | ofClass n => 'C' :: (sized n).toList
    | pointer T => 'P' :: T.linkage.toList
    | array T => 'A' :: T.linkage.toList
  | native k => String.toList_singleton k.letter
  | ofClass _ => String.toList_append
  | pointer _ => String.toList_append
  | array _ => String.toList_append

/-- No type starts with a digit. -/
theorem linkage_head (T : Ty) (x : List Char) :
    ∃ c cs, T.linkage.toList ++ x = c :: cs ∧ c.isDigit = false := by
  rw [toList_linkage]
  cases T with
  | native k => exact ⟨k.letter, x, rfl, by cases k <;> rfl⟩
  | ofClass n => exact ⟨'C', _, rfl, rfl⟩
  | pointer T => exact ⟨'P', _, rfl, rfl⟩
  | array T => exact ⟨'A', _, rfl, rfl⟩

theorem letter_inj {k k' : Native} (h : k.letter = k'.letter) : k = k' := by
  revert h
  cases k <;> cases k' <;> decide

/-- The letter of a native type starts no other type. -/
theorem letter_ne (k : Native) : k.letter ≠ 'C' ∧ k.letter ≠ 'P' ∧ k.letter ≠ 'A' := by
  cases k <;> decide

/-- **A type is cancelled from the left.** The first letter tells which sort of type it is, and the
rest is a name or a type again. -/
theorem linkage_cancel {T T' : Ty} (hT : T.Worded) (hT' : T'.Worded) {x x' : List Char}
    (h : T.linkage.toList ++ x = T'.linkage.toList ++ x') : T = T' ∧ x = x' := by
  -- the first letter tells which kind of type is coded
  induction T generalizing T' x x' with
  | native k =>
    have hk := letter_ne k
    rw [toList_linkage, toList_linkage T'] at h
    cases T' with
    | native k' =>
      obtain ⟨hletter, hx⟩ := List.cons.inj h
      exact ⟨congrArg native (letter_inj hletter), hx⟩
    | ofClass n' => exact absurd (List.cons.inj h).1 hk.1
    | pointer U => exact absurd (List.cons.inj h).1 hk.2.1
    | array U => exact absurd (List.cons.inj h).1 hk.2.2
  | ofClass n =>
    rw [toList_linkage, toList_linkage T'] at h
    cases T' with
    | native k' => exact absurd (List.cons.inj h).1.symm (letter_ne k').1
    | ofClass n' =>
      obtain ⟨hn, hx⟩ := sized_cancel hT hT' (List.cons.inj h).2
      exact ⟨congrArg ofClass hn, hx⟩
    | pointer U | array U => exact absurd (List.cons.inj h).1 (by decide)
  | pointer T ih =>
    rw [toList_linkage, toList_linkage T'] at h
    cases T' with
    | native k' => exact absurd (List.cons.inj h).1.symm (letter_ne k').2.1
    | ofClass n' => exact absurd (List.cons.inj h).1 (by decide)
    | pointer U =>
      have hU : U.Worded := hT'
      obtain ⟨heq, hx⟩ := ih hT hU (List.cons.inj h).2
      exact ⟨congrArg pointer heq, hx⟩
    | array U => exact absurd (List.cons.inj h).1 (by decide)
  | array T ih =>
    rw [toList_linkage, toList_linkage T'] at h
    cases T' with
    | native k' => exact absurd (List.cons.inj h).1.symm (letter_ne k').2.2
    | ofClass n' | pointer U => exact absurd (List.cons.inj h).1 (by decide)
    | array U =>
      have hU : U.Worded := hT'
      obtain ⟨heq, hx⟩ := ih hT hU (List.cons.inj h).2
      exact ⟨congrArg array heq, hx⟩

/-- Types one after the other, up to the end of the text. -/
theorem flatMap_linkage_inj {ps ps' : List Ty} (hps : ∀ T ∈ ps, T.Worded)
    (hps' : ∀ T ∈ ps', T.Worded)
    (h : ps.flatMap (fun T => T.linkage.toList) = ps'.flatMap fun T => T.linkage.toList) :
    ps = ps' := by
  induction ps generalizing ps' with
  | nil =>
    cases ps' with
    | nil => rfl
    | cons T' ps' =>
      obtain ⟨c, cs, hcs, -⟩ := T'.linkage_head (ps'.flatMap fun T => T.linkage.toList)
      rw [List.flatMap_nil, List.flatMap_cons, hcs] at h
      cases h
  | cons T ps ih =>
    cases ps' with
    | nil =>
      obtain ⟨c, cs, hcs, -⟩ := T.linkage_head (ps.flatMap fun T => T.linkage.toList)
      rw [List.flatMap_nil, List.flatMap_cons, hcs] at h
      cases h
    | cons T' ps' =>
      rw [List.forall_mem_cons] at hps hps'
      rw [List.flatMap_cons, List.flatMap_cons] at h
      obtain ⟨hT, hrest⟩ := linkage_cancel hps.1 hps'.1 h
      rw [hT, ih hps.2 hps'.2 hrest]

/-- Types do not start as a name behind its length does. -/
theorem sized_ne_flatMap_linkage (n : String) (x : List Char) {ps : List Ty} (hps : ps ≠ []) :
    (sized n).toList ++ x ≠ ps.flatMap fun T => T.linkage.toList := by
  intro h
  obtain ⟨T, ps, rfl⟩ := List.exists_cons_of_ne_nil hps
  obtain ⟨c, cs, hcs, hc⟩ := sized_head n x
  obtain ⟨c', cs', hcs', hc'⟩ := T.linkage_head (ps.flatMap fun T => T.linkage.toList)
  rw [hcs, List.flatMap_cons, hcs'] at h
  rw [(List.cons.inj h).1, hc'] at hc
  cases hc

end Ty

/-! ## Methods -/

namespace MethodName

/-- The linkage text of a method that does not just keep its name. -/
def code (m : MethodName) : String :=
  "_M" ++ m.owner.elim "" sized ++ sized m.name ++
    (if m.parameters.isEmpty then "v" else String.join (m.parameters.map Ty.linkage))

/-- What a method takes, where taking nothing is taking a single `Void`. -/
def taken (m : MethodName) : List Ty :=
  if m.parameters.isEmpty then [.native .void] else m.parameters

/-- The owner of a method and the method itself are named by words, and so are the classes of what it
takes. -/
structure Worded (m : MethodName) : Prop where
  owner : ∀ o, m.owner = some o → IsWord o
  name : IsWord m.name
  parameters : ∀ T ∈ m.parameters, T.Worded

variable {m m' : MethodName}

theorem Worded.taken (h : m.Worded) : ∀ T ∈ m.taken, T.Worded := by
  unfold MethodName.taken
  split
  · intro T hT
    rw [List.mem_singleton.1 hT]
    trivial
  · exact h.parameters

theorem taken_ne_nil (m : MethodName) : m.taken ≠ [] := by
  unfold taken
  split
  · exact List.cons_ne_nil _ _
  · rename_i h
    exact fun hnil => h (List.isEmpty_iff.2 hnil)

theorem toList_code (m : MethodName) : m.code.toList =
    '_' :: 'M' :: (m.owner.elim [] (fun o => (sized o).toList) ++
      ((sized m.name).toList ++ m.taken.flatMap fun T => T.linkage.toList)) := by
  have htypes : (if m.parameters.isEmpty then "v" else String.join (m.parameters.map Ty.linkage)) =
      String.join (m.taken.map Ty.linkage) := by
    unfold taken
    split
    · rfl
    · rfl
  have howner : (m.owner.elim "" sized).toList = m.owner.elim [] fun o => (sized o).toList := by
    cases m.owner with
    | none => exact String.toList_empty
    | some o => rfl
  rw [code, htypes]
  simp only [String.toList_append, howner, String.toList_join, List.flatMap_map, List.append_assoc]
  rfl

/-- A method with an owner and one without are told apart: behind the first name stands a name in
one case, and a type in the other. -/
theorem code_ne_of_owner {o : String} (hm : m.Worded) (hm' : m'.Worded) (ho : m.owner = some o)
    (ho' : m'.owner = none) : m.code ≠ m'.code := by
  intro h
  have hchars := congrArg String.toList h
  rw [toList_code, toList_code, List.cons.injEq, List.cons.injEq, ho, ho'] at hchars
  obtain ⟨-, hrest⟩ := sized_cancel (hm.owner o ho) hm'.name hchars.2.2
  exact Ty.sized_ne_flatMap_linkage _ _ m'.taken_ne_nil hrest

/-- **Linkage names can be read back**, up to how it is written that nothing is taken. -/
theorem code_eq_iff (hm : m.Worded) (hm' : m'.Worded) : m.code = m'.code ↔
    m.owner = m'.owner ∧ m.name = m'.name ∧ m.taken = m'.taken := by
  constructor
  · intro h
    have hchars := congrArg String.toList h
    rw [toList_code, toList_code, List.cons.injEq, List.cons.injEq] at hchars
    -- What follows the owners is read in the same way, whether there are owners or not.
    have hbehind : (sized m.name).toList ++ m.taken.flatMap (fun T => T.linkage.toList) =
        (sized m'.name).toList ++ m'.taken.flatMap (fun T => T.linkage.toList) →
        m.name = m'.name ∧ m.taken = m'.taken := by
      intro hrest
      obtain ⟨hname, htaken⟩ := sized_cancel hm.name hm'.name hrest
      exact ⟨hname, Ty.flatMap_linkage_inj hm.taken hm'.taken htaken⟩
    cases ho : m.owner with
    | none =>
      cases ho' : m'.owner with
      | none =>
        rw [ho, ho'] at hchars
        exact ⟨rfl, hbehind hchars.2.2⟩
      | some o' => exact absurd h.symm (code_ne_of_owner hm' hm ho' ho)
    | some o =>
      cases ho' : m'.owner with
      | none => exact absurd h (code_ne_of_owner hm hm' ho ho')
      | some o' =>
        rw [ho, ho'] at hchars
        obtain ⟨howner, hrest⟩ := sized_cancel (hm.owner o ho) (hm'.owner o' ho') hchars.2.2
        exact ⟨congrArg some howner, hbehind hrest⟩
  · rintro ⟨howner, hname, htaken⟩
    rw [← String.toList_inj, toList_code, toList_code, howner, hname, htaken]

end MethodName

end ClassLang
