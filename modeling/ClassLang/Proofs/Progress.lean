import ClassLang.Decl.Parser
import ClassLang.Proofs.Outcome

/-!
# Reading makes progress

In front of an end of the text, every reader of types and expressions reads at least one token, does
not read the end, and either answers or refuses. So it never runs out of the steps that it is allowed,
and the number of steps does not matter.

* `Stretch`, `Cursor.At`: tokens with an end of the text among them, and a cursor that stands on one of
  the tokens up to that end.
* `Parse.Moves T i j`: from the token `i`, a reader gets to the token `j` or behind it. `Moves.seq`
  follows readers step by step, `many_moves` and `listed_moves` are the two loops.
* `TypeName.parse_moves`, `Expr.parseWithin_moves`: types, and expressions by induction on how deep they
  may be nested. Every expression inside another one starts at a later token.
* `Parse.Below`: a reader with fewer steps gives the same answer or runs out of steps. By `within_eq`, all
  numbers of steps that cover the tokens up to the end give the same.
-/

namespace ClassLang

/-- Whether reading stopped for a reason in the tokens. -/
def Halt.IsRefusal : Halt → Prop
  | refused _ => True
  | noToken => False
  | endless => False

/-! ## Tokens up to an end of the text -/

/-- An end of the text among some tokens, which need not be the first one or the last one. -/
structure Stretch (tokens : List Token) where
  /-- The number of the end of the text. -/
  stop : Nat
  ends : tokens[stop]?.map Token.kind = some .eof

/-- **The cursor stands on the token `i`**, which is not behind the end of the stretch. -/
structure Cursor.At {tokens : List Token} (c : Cursor) (T : Stretch tokens) (i : Nat) : Prop where
  fresh : c.past = false
  tokens : c.current :: c.ahead = tokens.drop i
  le : i ≤ T.stop

namespace Cursor.At

variable {tokens : List Token} {T : Stretch tokens} {c : Cursor} {i : Nat}

theorem current_eq (h : c.At T i) : tokens[i]? = some c.current := by
  rw [← List.head?_drop, ← h.tokens]
  rfl

/-- A token that is not the end of the text is in front of it. -/
theorem lt_stop (h : c.At T i) (hk : c.current.kind ≠ .eof) : i < T.stop := by
  refine Nat.lt_of_le_of_ne h.le ?_
  rintro rfl
  have hends := T.ends
  rw [h.current_eq] at hends
  exact hk (Option.some.inj hends)

theorem length_eq (h : c.At T i) : i + c.ahead.length + 1 = tokens.length := by
  obtain ⟨hi, -⟩ := List.getElem?_eq_some_iff.1 h.current_eq
  have hlength := congrArg List.length h.tokens
  rw [List.length_drop, List.length_cons] at hlength
  omega

theorem stop_lt (T : Stretch tokens) : T.stop < tokens.length := by
  obtain ⟨t, ht, -⟩ := Option.map_eq_some_iff.1 T.ends
  exact (List.getElem?_eq_some_iff.1 ht).1

/-- **Behind a token that is not the end of the text** stands the next one. -/
theorem next (h : c.At T i) (hk : c.current.kind ≠ .eof) : c.next.At T (i + 1) := by
  have hlt := h.lt_stop hk
  have hlength := h.length_eq
  have hstop := stop_lt T
  obtain ⟨t, ahead, past, lastEnd, size, fits⟩ := c
  cases ahead with
  | nil => simp only [List.length_nil] at hlength; omega
  | cons u ahead =>
    refine ⟨h.fresh, ?_, hlt⟩
    rw [← List.drop_drop, ← h.tokens]
    rfl

/-- The steps that a cursor allows are more than the tokens up to the end. -/
theorem stop_lt_allowance (h : c.At T i) : T.stop < i + c.allowance := by
  have hlength := h.length_eq
  have hfits := c.fits
  have hstop := stop_lt T
  unfold Cursor.allowance
  omega

end Cursor.At

/-! ## Step by step -/

namespace Parse

variable {α β : Type} {tokens : List Token} {T : Stretch tokens} {i j l : Nat}

/-- **From the token `i` the reader gets to `j` or behind it**, not behind the end of the stretch, or
it refuses. -/
def Moves (m : Parse α) (T : Stretch tokens) (i j : Nat) : Prop :=
  ∀ c : Cursor, c.At T i → Leads m c (fun _ c' => ∃ k, j ≤ k ∧ c'.At T k) Halt.IsRefusal

theorem Moves.seq {m : Parse α} {k : α → Parse β} (hm : m.Moves T i j)
    (hk : ∀ a j', j ≤ j' → (k a).Moves T j' l) : (m >>= k).Moves T i l := by
  intro c hc
  refine (hm c hc).seq ?_
  rintro a c' ⟨j', hj, hc'⟩
  exact hk a j' hj c' hc'

theorem Moves.map {m : Parse α} {f : α → β} (hm : m.Moves T i j) : (f <$> m).Moves T i j :=
  fun c hc => Leads.map (hm c hc)

theorem Moves.mono {m : Parse α} (hm : m.Moves T i j) (h : l ≤ j) : m.Moves T i l := by
  intro c hc
  refine (hm c hc).post ?_
  rintro a c' ⟨k, hk, hc'⟩
  exact ⟨k, Nat.le_trans h hk, hc'⟩

theorem pure_moves {a : α} (h : j ≤ i) : (pure a : Parse α).Moves T i j :=
  fun _ hc => Leads.pure ⟨i, h, hc⟩

theorem unexpected_moves {text : String} : (unexpected text : Parse α).Moves T i j :=
  fun _ _ => trivial

theorem refuse_moves {d : Diagnostic} : (refuse d : Parse α).Moves T i j := fun _ _ => trivial

theorem get_moves {k : Cursor → Parse β} (h : ∀ c : Cursor, c.At T i → (k c).Moves T i j) :
    (get >>= k).Moves T i j := fun c hc => Leads.get_seq (h c hc c hc)

theorem kind_moves {k : Token.Kind → Parse β}
    (h : ∀ t, tokens[i]? = some t → (k t.kind).Moves T i j) : (kind >>= k).Moves T i j :=
  get_moves fun c hc => h c.current hc.current_eq

/-- What has been read gets its span. -/
theorem spanned_moves {start : Position} {f : Span → α} (h : j ≤ i) :
    (spanFrom start >>= fun sp => pure (f sp)).Moves T i j := get_moves fun _ _ => pure_moves h

/-- A token that is not the end of the text is read. -/
theorem advance_moves {t : Token} (ht : tokens[i]? = some t) (hk : t.kind ≠ .eof) :
    advance.Moves T i (i + 1) := by
  intro c hc
  have hcurrent : t = c.current := Option.some.inj (ht.symm.trans hc.current_eq)
  exact ⟨i + 1, Nat.le_refl _, hc.next (hcurrent ▸ hk)⟩

theorem expect_moves (k : Token.Kind) (hk : k ≠ .eof) : (expect k).Moves T i (i + 1) := by
  unfold expect expectOr
  refine get_moves fun c hc => kind_moves fun t ht => ?_
  split
  · rename_i hkind
    exact advance_moves ht (hkind ▸ hk)
  · exact refuse_moves

/-- What succeeds with enough steps succeeds with those that the cursor allows. -/
theorem within_moves {reader : Nat → Parse α}
    (h : ∀ n, T.stop < i + n → (reader n).Moves T i j) : (within reader).Moves T i j :=
  fun c hc => h c.allowance hc.stop_lt_allowance c hc

/-! ## Loops -/

/-- Repetition: every item takes a token, so there are steps left as long as there are tokens. -/
theorem many_moves {goes : Parse Bool} {item : Parse α}
    (hgoes : ∀ j, i ≤ j → goes.Moves T j j)
    (hitem : ∀ j, i ≤ j → item.Moves T j (j + 1)) :
    (within (many goes item)).Moves T i i := by
  refine within_moves fun n hn => ?_
  induction n generalizing i with
  | zero => exact fun c hc => absurd hc.le (by omega)
  | succ n ih =>
    unfold many
    refine (hgoes i (Nat.le_refl i)).seq fun go j hj => ?_
    cases go with
    | false => exact pure_moves hj
    | true =>
      refine (hitem j hj).seq fun a l hl => ?_
      have hrest : (many goes item n).Moves T l l :=
        ih (fun l' h => hgoes l' (by omega)) (fun l' h => hitem l' (by omega)) (by omega)
      exact hrest.seq fun rest l' hl' => pure_moves (by omega)

/-- Items divided by commas. -/
theorem listed_moves {item : Parse α} (hitem : ∀ j, i ≤ j → item.Moves T j (j + 1)) :
    (within (listed item)).Moves T i i := by
  refine within_moves fun n hn => ?_
  induction n generalizing i with
  | zero => exact fun c hc => absurd hc.le (by omega)
  | succ n ih =>
    unfold listed
    refine kind_moves fun t _ => ?_
    split
    · exact pure_moves (Nat.le_refl i)
    refine (hitem i (Nat.le_refl i)).seq fun a j hj => kind_moves fun u hu => ?_
    split
    · rename_i hcomma
      refine (advance_moves hu (by rw [hcomma]; decide)).seq fun _ l hl => ?_
      have hrest : (listed item n).Moves T l l := ih (fun l' h => hitem l' (by omega)) (by omega)
      exact hrest.seq fun rest l' hl' => pure_moves (by omega)
    · exact pure_moves (by omega)

end Parse

open Parse

variable {tokens : List Token} {T : Stretch tokens} {i j : Nat}

/-! ## Types -/

namespace TypeName

theorem parseArray_moves (type : TypeName) : (parseArray type).Moves T i (i + 1) := by
  unfold parseArray
  refine (expect_moves _ (by decide)).seq fun _ j hj => ?_
  refine (expect_moves _ (by decide)).seq fun _ l hl => ?_
  exact spanned_moves (by omega)

theorem parsePointer_moves (type : TypeName) : (parsePointer type).Moves T i (i + 1) := by
  unfold parsePointer
  refine (expect_moves _ (by decide)).seq fun _ j hj => ?_
  exact spanned_moves (by omega)

theorem parseSuffixes_moves (power : Power) {n : Nat} (hn : T.stop < i + n) (type : TypeName) :
    (parseSuffixes .standard power n type).Moves T i i := by
  induction n generalizing i type with
  | zero => exact fun c hc => absurd hc.le (by omega)
  | succ n ih =>
    unfold parseSuffixes
    refine get_moves fun c _ => ?_
    split
    · exact pure_moves (Nat.le_refl i)
    · exact (parseArray_moves type).seq fun a j hj => (ih (by omega) a).mono (by omega)
    · exact (parsePointer_moves type).seq fun a j hj => (ih (by omega) a).mono (by omega)

/-- **Types.** -/
theorem parse_moves (power : Power) : (parse .standard power).Moves T i (i + 1) := by
  unfold parse
  refine kind_moves fun t _ => ?_
  split
  · have hnamed : parseNamed.Moves T i (i + 1) :=
      (expect_moves _ (by decide)).seq fun _ j hj => pure_moves hj
    refine hnamed.seq fun type j hj => within_moves fun n hn => ?_
    exact (parseSuffixes_moves power hn type).mono hj
  · exact unexpected_moves

end TypeName

/-! ## Expressions -/

theorem Grammar.operand_ne_eof {k : Token.Kind} {rule : OperandRule}
    (h : Grammar.standard.operand k = some rule) : k ≠ .eof := by
  rintro rfl
  cases h

namespace Expr

theorem operatorAt?_ne_eof {power p : Power} {k : Token.Kind} {rule : OperatorRule}
    (h : operatorAt? .standard power k = some (p, rule)) : k ≠ .eof := by
  rintro rfl
  cases h

section

variable {sub : Power → Parse Expr} (hsub : ∀ j, i < j → ∀ p, (sub p).Moves T j (j + 1))

include hsub

theorem parseCall_moves (hi : i ≤ j) (target : Option Expr) :
    (parseCall sub target).Moves T j (j + 1) := by
  unfold parseCall
  refine (expect_moves _ (by decide)).seq fun name j₁ h₁ => ?_
  refine (expect_moves _ (by decide)).seq fun _ j₂ h₂ => ?_
  refine (listed_moves fun j₃ h₃ => hsub j₃ (by omega) .lowest).seq fun args j₃ h₃ => ?_
  refine (expect_moves _ (by decide)).seq fun _ j₄ h₄ => ?_
  cases target with
  | some e | none => exact spanned_moves (by omega)

variable {t : Token} (ht : tokens[i]? = some t) (hk : t.kind ≠ .eof)

include ht hk

theorem parsePrimary_moves : (parsePrimary sub).Moves T i (i + 1) := by
  unfold parsePrimary
  refine kind_moves fun t _ => ?_
  split
  · refine (advance_moves ht hk).seq fun u j hj => ?_
    split
    · exact pure_moves hj
    · exact refuse_moves
  · refine get_moves fun c _ => ?_
    split
    · exact parseCall_moves hsub (Nat.le_refl i) none
    · exact (advance_moves ht hk).seq fun u j hj => pure_moves hj
  · exact (advance_moves ht hk).seq fun u j hj => pure_moves hj
  · exact (advance_moves ht hk).seq fun u j hj => pure_moves hj
  · exact (advance_moves ht hk).seq fun u j hj => pure_moves hj
  · exact unexpected_moves

/-- Operands: what is inside starts behind the first token. -/
theorem parseOperand_moves (rule : OperandRule) :
    (parseOperand .standard sub rule).Moves T i (i + 1) := by
  cases rule with
  | primary => exact parsePrimary_moves hsub ht hk
  | unary =>
    refine (advance_moves ht hk).seq fun t j hj => ?_
    exact (hsub j hj .unary).seq fun e l hl => pure_moves (by omega)
  | addressOf =>
    refine (advance_moves ht hk).seq fun t j hj => ?_
    exact (hsub j hj .unary).seq fun e l hl => spanned_moves (by omega)
  | grouping =>
    refine (advance_moves ht hk).seq fun _ j₁ h₁ => ?_
    refine (hsub j₁ h₁ .lowest).seq fun e j₂ h₂ => ?_
    exact (expect_moves _ (by decide)).seq fun _ j₃ h₃ => pure_moves (by omega)
  | arrayNew =>
    refine (advance_moves ht hk).seq fun t j₁ h₁ => ?_
    refine (TypeName.parse_moves .lowest).seq fun element j₂ h₂ => ?_
    refine (expect_moves _ (by decide)).seq fun _ j₃ h₃ => ?_
    refine (hsub j₃ (by omega) .lowest).seq fun size j₄ h₄ => ?_
    refine (expect_moves _ (by decide)).seq fun _ j₅ h₅ => ?_
    exact spanned_moves (by omega)

theorem parseOperator_moves (rule : OperatorRule) (power : Power) (left : Expr) :
    (parseOperator .standard sub rule power left).Moves T i (i + 1) := by
  cases rule with
  | binary =>
    unfold parseOperator parseBinary
    refine kind_moves fun t _ => ?_
    split
    · exact unexpected_moves
    · refine (advance_moves ht hk).seq fun _ j hj => ?_
      exact (hsub j hj power).seq fun right l hl => pure_moves (by omega)
  | cast =>
    refine (advance_moves ht hk).seq fun _ j hj => ?_
    refine (TypeName.parse_moves .lowest).seq fun target l hl => ?_
    exact spanned_moves (by omega)
  | member =>
    refine (advance_moves ht hk).seq fun _ j hj => get_moves fun c _ => ?_
    split
    · exact (parseCall_moves hsub (Nat.le_of_lt hj) (some left)).mono (by omega)
    · exact (expect_moves _ (by decide)).seq fun name l hl => pure_moves (by omega)
  | index =>
    refine (advance_moves ht hk).seq fun _ j₁ h₁ => ?_
    refine (hsub j₁ h₁ .lowest).seq fun position j₂ h₂ => ?_
    refine (expect_moves _ (by decide)).seq fun _ j₃ h₃ => ?_
    exact spanned_moves (by omega)

omit ht hk

/-- Operator after operator. -/
theorem parseOperators_moves (power : Power) {n : Nat} (hi : i ≤ j) (hn : T.stop < j + n)
    (left : Expr) : (parseOperators .standard sub power n left).Moves T j j := by
  induction n generalizing j left with
  | zero => exact fun c hc => absurd hc.le (by omega)
  | succ n ih =>
    unfold parseOperators
    refine kind_moves fun t ht => ?_
    split
    · exact pure_moves (Nat.le_refl j)
    · rename_i p rule hrule
      have hone := parseOperator_moves (fun l hl => hsub l (by omega)) ht
        (operatorAt?_ne_eof hrule) rule p left
      exact hone.seq fun e l hl => (ih (by omega) (by omega) e).mono (by omega)

end

/-- **Expressions**, if they may be nested as deep as there are tokens up to the end. -/
theorem parseWithin_moves {depth : Nat} (hdepth : T.stop < i + depth) (power : Power) :
    (parseWithin .standard depth power).Moves T i (i + 1) := by
  induction depth generalizing i power with
  | zero => exact fun c hc => absurd hc.le (by omega)
  | succ depth ih =>
    unfold parseWithin
    -- inside, one level and at least one token are gone
    have hsub : ∀ j, i < j → ∀ p, (parseWithin .standard depth p).Moves T j (j + 1) :=
      fun j hj p => ih (by omega) p
    refine kind_moves fun t ht => ?_
    split
    · exact unexpected_moves
    · rename_i rule hrule
      have hone := parseOperand_moves hsub ht (Grammar.operand_ne_eof hrule) rule
      refine hone.seq fun left j hj => within_moves fun n hn => ?_
      exact (parseOperators_moves hsub power (Nat.le_of_lt hj) hn left).mono hj

theorem parse_moves (power : Power) : (parse .standard power).Moves T i (i + 1) :=
  within_moves fun _ hn => parseWithin_moves hn power

end Expr

/-! ## More steps -/

namespace Parse

variable {α β : Type}

/-- **Fewer steps give the same or run out.** -/
def Below (m m' : Parse α) : Prop := ∀ c, (∃ c', m c = .error .endless c') ∨ m' c = m c

theorem Below.refl (m : Parse α) : m.Below m := fun _ => .inr rfl

theorem throw_below (m : Parse α) : (throw .endless : Parse α).Below m := fun c => .inl ⟨c, rfl⟩

theorem Below.seq {m m' : Parse α} {k k' : α → Parse β} (hm : m.Below m')
    (hk : ∀ a, (k a).Below (k' a)) : (m >>= k).Below (m' >>= k') := by
  intro c
  simp only [bind, EStateM.bind]
  rcases hm c with ⟨c', h⟩ | h
  · exact .inl ⟨c', by rw [h]⟩
  · rw [h]
    cases m c with
    | ok a c' => exact hk a c'
    | error f c' => exact .inr rfl

theorem Below.then {m : Parse α} {k k' : α → Parse β} (hk : ∀ a, (k a).Below (k' a)) :
    (m >>= k).Below (m >>= k') := (Below.refl m).seq hk

theorem Below.within {reader reader' : Nat → Parse α} (h : ∀ n, (reader n).Below (reader' n)) :
    (within reader).Below (within reader') := fun c => h c.allowance c

/-- A reader that moves on has not run out of steps. -/
theorem Below.eq {m m' : Parse α} (h : m.Below m') {c : Cursor} (hm : m.Moves T i j)
    (hc : c.At T i) : m' c = m c := by
  rcases h c with ⟨c', hend⟩ | heq
  · have hleads := hm c hc
    unfold Leads at hleads
    rw [hend] at hleads
    exact hleads.elim
  · exact heq

/-- **Any number of steps that covers the tokens up to the end of the text gives the same.** -/
theorem within_eq {reader : Nat → Parse α} {n : Nat} {c : Cursor} (hc : c.At T i)
    (hbelow : ∀ n n', n ≤ n' → (reader n).Below (reader n'))
    (hmoves : ∀ n, T.stop < i + n → (reader n).Moves T i j) (hn : T.stop < i + n) :
    within reader c = reader n c := by
  have hallowed := hmoves c.allowance hc.stop_lt_allowance
  show reader c.allowance c = _
  rcases Nat.le_total n c.allowance with hle | hle
  · exact (hbelow n _ hle).eq (hmoves n hn) hc
  · exact ((hbelow _ n hle).eq hallowed hc).symm

theorem many_below {goes : Parse Bool} {item item' : Parse α} (h : item.Below item') (n : Nat) :
    (many goes item n).Below (many goes item' n) := by
  induction n with
  | zero => exact Below.refl _
  | succ n ih =>
    refine Below.then fun go => ?_
    cases go with
    | false => exact Below.refl _
    | true => exact h.seq fun a => ih.seq fun _ => Below.refl _

theorem listed_below {item item' : Parse α} (h : item.Below item') (n : Nat) :
    (listed item n).Below (listed item' n) := by
  induction n with
  | zero => exact Below.refl _
  | succ n ih =>
    refine Below.then fun k => ?_
    split
    · exact Below.refl _
    · refine h.seq fun a => Below.then fun k' => ?_
      split
      · exact Below.then fun _ => ih.seq fun _ => Below.refl _
      · exact Below.refl _

end Parse

namespace Expr

section

variable {g : Grammar} {sub sub' : Power → Parse Expr} (hsub : ∀ p, (sub p).Below (sub' p))

include hsub

theorem parseCall_below (target : Option Expr) :
    (parseCall sub target).Below (parseCall sub' target) := by
  refine Below.then fun name => Below.then fun _ => ?_
  exact (Below.within (listed_below (hsub .lowest))).seq fun args => Below.refl _

theorem parsePrimary_below : (parsePrimary sub).Below (parsePrimary sub') := by
  refine Below.then fun k => ?_
  split
  · exact Below.refl _
  · refine Below.then fun c => ?_
    split
    · exact parseCall_below hsub none
    · exact Below.refl _
  · exact Below.refl _
  · exact Below.refl _
  · exact Below.refl _
  · exact Below.refl _

theorem parseOperand_below (rule : OperandRule) :
    (parseOperand g sub rule).Below (parseOperand g sub' rule) := by
  cases rule with
  | primary => exact parsePrimary_below hsub
  | unary | addressOf => exact Below.then fun t => (hsub .unary).seq fun _ => Below.refl _
  | grouping => exact Below.then fun _ => (hsub .lowest).seq fun _ => Below.refl _
  | arrayNew =>
    exact Below.then fun t => Below.then fun element => Below.then fun _ =>
      (hsub .lowest).seq fun _ => Below.refl _

theorem parseOperator_below (rule : OperatorRule) (power : Power) (left : Expr) :
    (parseOperator g sub rule power left).Below (parseOperator g sub' rule power left) := by
  cases rule with
  | binary =>
    refine Below.then fun k => ?_
    split
    · exact Below.refl _
    · exact Below.then fun _ => (hsub power).seq fun _ => Below.refl _
  | cast => exact Below.refl _
  | member =>
    refine Below.then fun _ => Below.then fun c => ?_
    split
    · exact parseCall_below hsub (some left)
    · exact Below.refl _
  | index => exact Below.then fun _ => (hsub .lowest).seq fun _ => Below.refl _

theorem parseOperators_below (power : Power) (n : Nat) (left : Expr) :
    (parseOperators g sub power n left).Below (parseOperators g sub' power n left) := by
  induction n generalizing left with
  | zero => exact Below.refl _
  | succ n ih =>
    refine Below.then fun k => ?_
    split
    · exact Below.refl _
    · exact (parseOperator_below hsub _ _ left).seq fun e => ih e

end

/-- Expressions that may be nested deeper. -/
theorem parseWithin_below {g : Grammar} {depth depth' : Nat} (h : depth ≤ depth') (power : Power) :
    (parseWithin g depth power).Below (parseWithin g depth' power) := by
  induction depth generalizing depth' power with
  | zero => exact throw_below _
  | succ depth ih =>
    cases depth' with
    | zero => exact absurd h (Nat.not_succ_le_zero depth)
    | succ depth' =>
      have hsub := fun p => ih (Nat.le_of_succ_le_succ h) p
      refine Below.then fun k => ?_
      split
      · exact Below.refl _
      · refine (parseOperand_below hsub _).seq fun left => ?_
        exact Below.within fun n => parseOperators_below hsub power n left

theorem parse_eq_parseWithin {depth : Nat} (power : Power) {c : Cursor} (hc : c.At T i)
    (hdepth : T.stop < i + depth) : parse .standard power c = parseWithin .standard depth power c :=
  within_eq hc (fun _ _ h => parseWithin_below h power) (fun _ h => parseWithin_moves h power) hdepth

end Expr

end ClassLang
