import ClassLang.Proofs.Reading

/-!
# Spines of expressions

An expression is read as an operand and then, in a loop, operator after operator. `Spine w e q` says
what this does to the words `w` of an expression `e` that holds together with power `q`: read with
any power below `q`, the loop gets to stand right behind `w` with `e` on its left, provided that what
follows does not bind more tightly than `q`.

* `Follows`: what may stand behind an expression without being read as a part of it.
* `Spine.of_operand`, `Spine.extend`: a spine starts with an operand, and grows by an operator.
* `Spine.enclosed`: an expression in parentheses is an atom.
-/

namespace ClassLang

variable {p q : Power} {k : Token.Kind}

/-! ## What may follow an expression -/

/-- The tokens that end an expression which stands for itself. -/
def Token.Kind.closes : Token.Kind → Bool
  | closeParen | comma | closeBracket | semicolon | assignment | kwThen | kwDo => true
  | _ => false

/-- The next token ends an expression. -/
abbrev Closed (w : List Word) : Prop := Next (fun k => k.closes = true) w

/-- The same expression up to spans. -/
abbrev Expr.Like (e e' : Expr) : Prop := e'.eraseSpans = e.eraseSpans

/-- **What may follow** an expression that holds together with power `p`: a token that ends it, or an
operator that does not bind more tightly. -/
def Follows (p : Power) (k : Token.Kind) : Prop :=
  k.closes = true ∨ ∃ q rule, Grammar.operatorTable k = some (q, rule) ∧ p.below q = false

theorem Power.below_iff : p.below q = true ↔ p.rank < q.rank := decide_eq_true_iff

theorem Power.below_eq_false_iff : p.below q = false ↔ q.rank ≤ p.rank := by
  unfold below
  rw [decide_eq_false_iff_not, Nat.not_lt]

theorem Token.Kind.operatorTable_of_closes (h : k.closes = true) :
    Grammar.operatorTable k = none := by
  cases k <;> first | rfl | cases h

theorem Token.Kind.operandTable_of_closes (h : k.closes = true) :
    Grammar.operandTable k = none := by
  cases k <;> first | rfl | cases h

theorem Token.Kind.ne_of_closes {l : Token.Kind} (h : k.closes = true) (hl : l.closes = false) :
    k ≠ l := by
  rintro rfl
  rw [h] at hl
  cases hl

/-- All operators bind more tightly than nothing and less tightly than an atom. -/
theorem operatorTable_rank {rule : OperatorRule} (h : Grammar.operatorTable k = some (q, rule)) :
    Power.lowest.rank < q.rank ∧ q.rank < Power.primary.rank := by
  cases k <;> cases h <;> decide

theorem Follows.mono (h : Follows p k) (hpq : p.rank ≤ q.rank) : Follows q k := by
  rcases h with h | ⟨q', rule, h, hq'⟩
  · exact .inl h
  · refine .inr ⟨q', rule, h, ?_⟩
    rw [Power.below_eq_false_iff] at *
    omega

theorem Follows.ne_openParen (h : Follows p k) : k ≠ .openParen := by
  rintro rfl
  rcases h with h | ⟨q, rule, h, -⟩
  · cases h
  · cases h

/-- Only what ends an expression may follow a loose one. -/
theorem Follows.closes (h : Follows .lowest k) : k.closes = true := by
  rcases h with h | ⟨q, rule, h, hq⟩
  · exact h
  · have hpos := (operatorTable_rank h).1
    rw [Power.below_eq_false_iff] at hq
    omega

namespace Expr

open Parse

variable {q : Power} {e : Expr} {w : List Word}

theorem operatorAt?_eq_none (h : Follows p k) : operatorAt? .standard p k = none := by
  unfold operatorAt?
  show (Grammar.operatorTable k).filter _ = none
  rcases h with h | ⟨q, rule, h, hq⟩
  · rw [Token.Kind.operatorTable_of_closes h]
    rfl
  · rw [h, Option.filter_some, hq]
    rfl

theorem operatorAt?_eq_some {rule : OperatorRule} (h : Grammar.operatorTable k = some (q, rule))
    (hp : p.rank < q.rank) : operatorAt? .standard p k = some (q, rule) := by
  unfold operatorAt?
  show (Grammar.operatorTable k).filter _ = _
  rw [h, Option.filter_some, Power.below_iff.2 hp]
  rfl

/-! ## Spines -/

/-- **The words `w` are read as `e`**, which holds together with power `q`: the loop over the
operators gets right behind them. Within a nesting of `d`, as many words can be read. -/
def Spine (w : List Word) (e : Expr) (q : Power) : Prop :=
  ∀ d p c rest, w.length ≤ d + 1 → p.rank < q.rank ∨ p = .lowest → c.Shows (w ++ rest) →
    Next (Follows q) rest →
    ∃ e' c' n, parseWithin .standard (d + 1) p c =
        parseOperators .standard (parseWithin .standard d) p n e' c' ∧
      e'.eraseSpans = e.eraseSpans ∧ c'.Shows rest ∧ rest.length < n

theorem parseWithin_succ (d : Nat) (p : Power) (c : Cursor) :
    parseWithin .standard (d + 1) p c =
      (match Grammar.operandTable c.current.kind with
        | none => unexpected "expected an expression"
        | some rule => parseOperand .standard (parseWithin .standard d) rule >>= fun left =>
          within fun steps => parseOperators .standard (parseWithin .standard d) p steps left :
        Parse Expr) c := rfl

theorem parseOperators_succ (sub : Power → Parse Expr) (p : Power) (n : Nat) (left : Expr)
    (c : Cursor) : parseOperators .standard sub p (n + 1) left c =
      (match operatorAt? .standard p c.current.kind with
        | none => pure left
        | some (q, rule) =>
          parseOperator .standard sub rule q left >>= parseOperators .standard sub p n :
        Parse Expr) c := rfl

/-- **A spine starts with an operand.** -/
theorem Spine.of_operand {x : Word} {tail : List Word} (rule : OperandRule)
    (hx : Grammar.operandTable x.1 = some rule)
    (h : ∀ d, tail.length ≤ d → (parseOperand .standard (parseWithin .standard d) rule).Reads
      (x :: tail) (Next (Follows q)) e.Like) : Spine (x :: tail) e q := by
  intro d p c rest hd _ hc hrest
  obtain ⟨e', c', heq, hc', he'⟩ := h d (Nat.le_of_succ_le_succ hd) c rest hc hrest
  refine ⟨e', c', c'.allowance, ?_, he', hc', hc'.length_lt⟩
  rw [parseWithin_succ, hc.kind, hx]
  exact bind_eq heq

/-- **A spine grows by an operator** that does not bind more tightly. -/
theorem Spine.extend {tail : List Word} {e₂ : Expr} {q₂ qk : Power} {x : Word} {rule : OperatorRule}
    (hw : Spine w e q) (hx : Grammar.operatorTable x.1 = some (qk, rule)) (hq : qk.rank ≤ q.rank)
    (hq₂ : q₂.rank ≤ qk.rank) (h : ∀ d e', tail.length ≤ d → e.Like e' →
      (parseOperator .standard (parseWithin .standard d) rule qk e').Reads (x :: tail)
        (Next (Follows q₂)) e₂.Like) : Spine (w ++ x :: tail) e₂ q₂ := by
  intro d p c rest hd hp hc hrest
  rw [List.length_append, List.length_cons] at hd
  rw [List.append_assoc] at hc
  have hpk : p.rank < qk.rank := by
    rcases hp with hp | rfl
    · omega
    · exact (operatorTable_rank hx).1
  -- the left operand
  obtain ⟨e', c₁, n, heq, he', hc₁, hn⟩ := hw d p c _ (by omega) (.inl (by omega)) hc
    (Next.cons (.inr ⟨qk, rule, hx, Power.below_eq_false_iff.2 hq⟩))
  obtain ⟨n, rfl⟩ : ∃ m, n = m + 1 := ⟨n - 1, by omega⟩
  -- one round of the loop
  obtain ⟨e'', c₂, heq₂, hc₂, he''⟩ := h d e' (by omega) he' c₁ rest hc₁ hrest
  refine ⟨e'', c₂, n, ?_, he'', hc₂, ?_⟩
  · rw [heq, parseOperators_succ, show c₁.current.kind = x.1 from hc₁.kind,
      operatorAt?_eq_some hx hpk]
    exact bind_eq heq₂
  · rw [List.cons_append, List.length_cons, List.length_append] at hn
    omega

/-- **A spine is read to its end** if no operator follows that would go on with it. -/
theorem Spine.reads {d : Nat} (h : Spine w e q) (hw : w ≠ []) (hd : w.length ≤ d)
    (hp : p.rank < q.rank ∨ p = .lowest) :
    (parseWithin .standard d p).Reads w (Next fun k => Follows q k ∧ Follows p k) e.Like := by
  intro c rest hc hrest
  have hpos := List.length_pos_iff.2 hw
  obtain ⟨d, rfl⟩ : ∃ m, d = m + 1 := ⟨d - 1, by omega⟩
  obtain ⟨e', c', n, heq, he', hc', hn⟩ := h d p c rest hd hp hc (hrest.imp fun _ h => h.1)
  obtain ⟨n, rfl⟩ : ∃ m, n = m + 1 := ⟨n - 1, by omega⟩
  refine ⟨e', c', ?_, hc', he'⟩
  rw [heq, parseOperators_succ, operatorAt?_eq_none (hc'.next_kind hrest).2]
  rfl

/-- A spine that stands for itself is read up to the token that ends it. -/
theorem Spine.reads_closed {d : Nat} (h : Spine w e q) (hw : w ≠ []) (hd : w.length ≤ d) :
    (parseWithin .standard d .lowest).Reads w Closed e.Like := by
  intro c rest hc hrest
  exact h.reads hw hd (.inr rfl) c rest hc (hrest.imp fun _ hk => ⟨.inl hk, .inl hk⟩)

/-! ## Operands -/

theorem digitsValue?_toDigits (n : Nat) : digitsValue? (Nat.toDigits 10 n) = some n := by
  have hne : (Nat.toDigits 10 n).isEmpty = false := by
    have hpos : 0 < (Nat.toDigits 10 n).length := Nat.length_toDigits_pos
    rw [List.isEmpty_eq_false_iff]
    exact List.length_pos_iff.1 hpos
  have hall : (Nat.toDigits 10 n).all Char.isDigit = true :=
    List.all_eq_true.2 fun c hc => Nat.isDigit_of_mem_toDigits (by decide) (by decide) hc
  have hvalue := Nat.ofDigitChars_ten_toDigits (n := n)
  unfold digitsValue?
  rw [hne, hall]
  exact congrArg some hvalue

/-- **Decimal digits are read back.** -/
theorem numberValue?_repr {n : Nat} (hn : n ≤ greatestNumber) : numberValue? n.repr = some n := by
  have htext : n.repr.toList = Nat.toDigits 10 n := by
    rw [Nat.repr_eq_ofList_toDigits, String.toList_ofList]
  -- the digits do not start with a sign
  have hsign : ∀ ds, Nat.toDigits 10 n ≠ '+' :: ds := by
    intro ds hds
    have hdigit : ('+').isDigit = true :=
      Nat.isDigit_of_mem_toDigits (b := 10) (n := n) (by decide) (by decide)
        (by rw [hds]; exact List.mem_cons_self)
    cases hdigit
  have hfilter : ∀ v, v = some n → Option.filter (fun m => decide (m ≤ greatestNumber)) v = some n := by
    rintro _ rfl
    rw [Option.filter_some, if_pos (decide_eq_true hn)]
  unfold numberValue?
  refine hfilter _ ?_
  rw [htext]
  split
  · rename_i ds hds
    exact absurd hds (hsign ds)
  · exact digitsValue?_toDigits n

theorem parseNumber_reads {n : Nat} (hn : n ≤ greatestNumber) (sp : Span) :
    parseNumber.Reads [numberWord n] (· ≠ []) (Expr.number n sp).Like := by
  intro c rest hc hrest
  unfold parseNumber
  refine advance_seq hc hrest fun t c₁ ht hc₁ => ?_
  rw [show t.value = n.repr from congrArg Prod.snd ht, numberValue?_repr hn]
  exact Takes.pure hc₁ rfl

theorem wordsAll_eq_map (es : List Expr) : wordsAll es = es.map words := by
  induction es with
  | nil => rw [wordsAll]; rfl
  | cons e es ih => rw [wordsAll, ih, List.map_cons]

theorem eraseAll_eq_map (es : List Expr) : eraseAll es = es.map eraseSpans := by
  induction es with
  | nil => rw [eraseAll]; rfl
  | cons e es ih => rw [eraseAll, ih, List.map_cons]

/-- The words of a call behind its target. -/
def callWords (name : String) (args : List Expr) : List Word :=
  nameWord name :: mark .openParen :: (commaSeparated (wordsAll args) ++ [mark .closeParen])

/-- A call on a target, if there is one. -/
def ofCall (target : Option Expr) (name : String) (args : List Expr) (sp : Span) : Expr :=
  match target with
  | some e => .send e name args sp
  | none => .call name args sp

/-- **A call is read back** if its arguments are. -/
theorem parseCall_reads {sub : Power → Parse Expr} {args : List Expr} (name : String)
    (target : Option Expr) (hargs : ∀ a ∈ args, (sub .lowest).Reads a.words Closed a.Like)
    (hstart : ∀ a ∈ args, Next (· ≠ .closeParen) a.words) :
    (parseCall sub target).Reads (callWords name args) (· ≠ []) fun a =>
      ∃ args' sp, a = ofCall target name args' sp ∧ eraseAll args' = eraseAll args := by
  intro c rest hc hrest
  unfold callWords at hc
  rw [List.cons_append, List.cons_append, List.append_assoc] at hc
  unfold parseCall
  refine expect_seq hc rfl (List.cons_ne_nil _ _) fun t c₁ ht hc₁ => ?_
  have hname : t.value = name := congrArg Prod.snd ht
  have hclose : Next (· = .closeParen) ([mark .closeParen] ++ rest) := Next.cons rfl
  refine expect_seq hc₁ rfl (fun h => hclose.ne_nil (List.append_eq_nil_iff.1 h).2)
    fun _ c₂ _ hc₂ => ?_
  rw [wordsAll_eq_map] at hc₂
  have hlisted := within_reads fun n hn => listed_reads words eraseSpans n args hn
    (fun a ha c' rest' hc' hrest' => hargs a ha c' rest' hc' (hrest'.imp fun k hk => by
      rcases hk with rfl | rfl <;> rfl)) hstart
  refine (hlisted c₂ _ hc₂ hclose).seq fun args' c₃ hc₃ hargs' => ?_
  refine expect_seq hc₃ rfl hrest fun _ c₄ _ hc₄ => ?_
  have hall : eraseAll args' = eraseAll args := by rw [eraseAll_eq_map, eraseAll_eq_map, hargs']
  rw [hname]
  cases target with
  | none | some e => exact spanFrom_seq fun sp => Takes.pure hc₄ ⟨args', sp, rfl, hall⟩

/-! ## The first word -/

theorem enclosed_next (h : Next (fun k => (Grammar.operandTable k).isSome = true) w) (bare : Bool) :
    Next (fun k => (Grammar.operandTable k).isSome = true) (enclosed bare w) := by
  cases bare with
  | true => exact h
  | false => exact Next.cons rfl

/-- **The words of an expression start with an operand.** -/
theorem words_next : ∀ e : Expr, Next (fun k => (Grammar.operandTable k).isSome = true) e.words
  | .number _ _ => by rw [words]; exact Next.cons rfl
  | .boolean true _ => by rw [words]; exact Next.cons rfl
  | .boolean false _ => by rw [words]; exact Next.cons rfl
  | .symbol _ _ => by rw [words]; exact Next.cons rfl
  | .this _ => by rw [words]; exact Next.cons rfl
  | .call _ _ _ => by rw [words]; exact Next.cons rfl
  | .send e _ _ _ => by rw [words]; exact (enclosed_next (words_next e) _).append _
  | .member e _ _ => by rw [words]; exact (enclosed_next (words_next e) _).append _
  | .binary _ a _ _ => by rw [words]; exact (enclosed_next (words_next a) _).append _
  | .unary .negate _ _ => by rw [words]; exact Next.cons rfl
  | .unary .not _ _ => by rw [words]; exact Next.cons rfl
  | .addressOf _ _ => by rw [words]; exact Next.cons rfl
  | .arrayNew _ _ _ => by rw [words]; exact Next.cons rfl
  | .cast e _ _ => by rw [words]; exact (enclosed_next (words_next e) _).append _
  | .index a _ _ => by rw [words]; exact (enclosed_next (words_next a) _).append _

theorem words_ne_nil (e : Expr) : e.words ≠ [] := (words_next e).ne_nil

/-- No expression starts with a token at which an operand cannot start. -/
theorem words_next_ne (e : Expr) (hk : Grammar.operandTable k = none) : Next (· ≠ k) e.words :=
  (words_next e).imp fun l hl heq => by
    rw [heq, hk] at hl
    cases hl

/-! ## Parentheses -/

/-- **An expression in parentheses is an atom.** -/
theorem Spine.enclosed (h : Spine e.words e q) (bare : Bool) :
    Spine (enclosed bare e.words) e (if bare then q else .primary) := by
  cases bare with
  | true => exact h
  | false =>
    refine Spine.of_operand .grouping rfl fun d hd c rest hc hrest => ?_
    rw [List.length_append, List.length_singleton] at hd
    rw [List.cons_append, List.append_assoc] at hc
    show (parseGrouping _).Takes c rest _
    unfold parseGrouping
    have hne : e.words ++ ([mark .closeParen] ++ rest) ≠ [] :=
      fun hnil => e.words_ne_nil (List.append_eq_nil_iff.1 hnil).1
    refine advance_seq hc hne fun _ c₁ _ hc₁ => ?_
    refine (h.reads_closed e.words_ne_nil (by omega) c₁ _ hc₁ (Next.cons rfl)).seq
      fun e' c₂ hc₂ he' => ?_
    exact expect_seq hc₂ rfl hrest.ne_nil fun _ c₃ _ hc₃ => Takes.pure hc₃ he'

/-- Where an operand is wanted, everything holds together like an atom. -/
theorem Spine.operand (h : Spine e.words e e.power) :
    Spine (ClassLang.enclosed e.isAtom e.words) e .primary := by
  have hbare := h.enclosed e.isAtom
  by_cases hatom : e.power = .primary
  · have heq : (if e.isAtom = true then e.power else .primary) = .primary := by
      rw [hatom, ite_self]
    rw [heq] at hbare
    exact hbare
  · rw [if_neg (by unfold isAtom; exact fun h => hatom (of_decide_eq_true h))] at hbare
    exact hbare

theorem enclosed_ne_nil (e : Expr) (bare : Bool) : ClassLang.enclosed bare e.words ≠ [] :=
  (enclosed_next e.words_next bare).ne_nil

/-- An operand behind a prefix is read with the power of prefixes. -/
theorem Spine.reads_operand (h : Spine e.words e e.power) {d : Nat}
    (hd : (ClassLang.enclosed e.isAtom e.words).length ≤ d) :
    (parseWithin .standard d .unary).Reads (ClassLang.enclosed e.isAtom e.words) Closed e.Like := by
  intro c rest hc hrest
  refine h.operand.reads (e.enclosed_ne_nil _) hd (.inl (by decide)) c rest hc ?_
  exact hrest.imp fun _ hk => ⟨.inl hk, .inl hk⟩

end Expr

end ClassLang
