import Mathlib.Data.List.Forall2
import ClassLang.Proofs.Literals
import ClassLang.Proofs.Provenance
import ClassLang.Proofs.SourceTokens

/-!
# Numbers are read as they are written

The numbers among the tokens of a body are the literals of the body, in order and each with the value of
its digits. Whether a literal is negated is seen in the tree, in which parentheses leave no trace.

* `Expr.Derives.numbers`, `Stmt.Derives.numbers`: the number tokens of what is derived.
* `Expr.derives_number_iff`, `Expr.derives_negative_iff`: what is written for a number and for a negated
  number, up to parentheses.
* `Expr.parsePrimary_number`: reading a number token.
* `literals_exact`: **from the text to the tree**, no number is lost, added, changed or moved.
-/

namespace ClassLang

variable {ts : List Token}

/-! ## Number tokens -/

/-- The numbers among some tokens. -/
def numberTokens (ts : List Token) : List Token := ts.filter fun t => t.kind = .number

/-- **The numbers among the tokens** are those of the literals, one by one and whatever their signs. -/
def Spelled (ts : List Token) (ls : List Literal) : Prop :=
  List.Forall₂ (fun t n => Expr.Numeral t.value n) (numberTokens ts) (ls.map Literal.magnitude)

section

variable {ts us : List Token} {ls ls' : List Literal} {t : Token}

theorem numberTokens_append (ts us : List Token) :
    numberTokens (ts ++ us) = numberTokens ts ++ numberTokens us := List.filter_append ..

theorem Spelled.nil : Spelled [] [] := List.Forall₂.nil

theorem Spelled.append (h : Spelled ts ls) (h' : Spelled us ls') :
    Spelled (ts ++ us) (ls ++ ls') := by
  unfold Spelled
  rw [numberTokens_append, List.map_append]
  exact List.rel_append h h'

/-- A token that is no number may stand in front. -/
theorem Spelled.cons {k : Token.Kind} (ht : t.kind = k) (hk : k ≠ .number) (h : Spelled ts ls) :
    Spelled (t :: ts) ls := by
  unfold Spelled numberTokens
  rwa [List.filter_cons_of_neg (by rw [ht]; simpa using hk)]

/-- A token that is no number may stand behind. -/
theorem Spelled.concat {k : Token.Kind} (h : Spelled ts ls) (ht : t.kind = k) (hk : k ≠ .number) :
    Spelled (ts ++ [t]) ls := by
  have hboth := h.append (Spelled.nil.cons ht hk)
  rwa [List.append_nil] at hboth

end

theorem TypeName.Derives.numbers {type : TypeName} (h : Derives ts type) : Spelled ts [] := by
  induction h with
  | named ht => exact Spelled.nil.cons ht (by decide)
  | pointer _ ht ih => exact ih.concat ht (by decide)
  | array _ ht ht' ih =>
    exact ih.append ((Spelled.nil.cons ht' (by decide)).cons ht (by decide))

theorem BinaryOp.kind_ne_number (op : BinaryOp) : op.kind ≠ .number := by cases op <;> decide

theorem UnaryOp.kind_ne_number (op : UnaryOp) : op.kind ≠ .number := by cases op <;> decide

namespace Expr

/-- The sign in front of a number is no part of the number. -/
theorem spelled_unary {op : UnaryOp} {e : Expr} {span : Span} (h : Spelled ts e.literals) :
    Spelled ts (Expr.unary op e span).literals := by
  by_cases hfolds : op.Folds e
  · cases op with
    | not => exact hfolds.elim
    | negate =>
      cases e with
      | number n sp =>
        rw [literals] at h
        rw [literals]
        exact h
      | _ => exact hfolds.elim
  · rwa [literals_unary hfolds]

/-- **The numbers in an expression** are its literals. Suffixes add literals behind those that are
there. -/
theorem Derives.numbers {p : Power} {e : Expr} (h : Derives p ts e) : Spelled ts e.literals := by
  -- a suffix (third relation) adds literals of its own behind those of what it stands on
  refine @Derives.rec (fun _ ts e _ => Spelled ts e.literals) (fun ts e _ => Spelled ts e.literals)
    (fun e ts e' _ => ∃ ls, e'.literals = e.literals ++ ls ∧ Spelled ts ls)
    (fun ts es _ => Spelled ts (literalsAll es)) ?tighter ?binary ?cast ?unary ?addressOf ?suffixed
    ?number ?true ?false ?this ?symbol ?call ?grouping ?arrayNew ?nil ?member ?send ?index ?none ?last
    ?more _ _ _ h
  case tighter =>
    intro _ _ _ _ _ _ ih
    exact ih
  case binary =>
    intro _ _ _ _ op _ _ _ _ ht _ _ iha ihb
    rw [literals]
    exact iha.append (ihb.cons ht op.kind_ne_number)
  case cast =>
    rintro _ _ _ _ _ _ _ _ _ ht htype _ ihe ⟨ls, heq, hls⟩
    rw [heq, literals]
    exact ihe.append ((htype.numbers.append hls).cons ht (by decide))
  case unary =>
    intro _ _ op _ _ ht _ ih
    exact spelled_unary (ih.cons ht op.kind_ne_number)
  case addressOf =>
    intro _ _ _ _ ht _ ih
    rw [literals]
    exact ih.cons ht (by decide)
  case suffixed =>
    rintro _ _ _ _ _ _ ih ⟨ls, heq, hls⟩
    rw [heq]
    exact ih.append hls
  case number =>
    intro _ _ _ ht hn
    rw [literals]
    unfold Spelled numberTokens
    rw [List.filter_cons_of_pos (by simpa using ht)]
    exact .cons hn .nil
  case true => intro _ _ ht; rw [literals]; exact Spelled.nil.cons ht (by decide)
  case false => intro _ _ ht; rw [literals]; exact Spelled.nil.cons ht (by decide)
  case this => intro _ _ ht; rw [literals]; exact Spelled.nil.cons ht (by decide)
  case symbol => intro _ _ ht; rw [literals]; exact Spelled.nil.cons ht (by decide)
  case call =>
    intro _ _ _ _ _ _ ht hl _ hr ih
    rw [literals]
    exact ((ih.concat hr (by decide)).cons hl (by decide)).cons ht (by decide)
  case grouping =>
    intro _ _ _ _ hl _ hr ih
    exact (ih.concat hr (by decide)).cons hl (by decide)
  case arrayNew =>
    intro _ _ _ _ _ _ _ _ ht htype hl _ hr ih
    rw [literals]
    exact (htype.numbers.append ((ih.concat hr (by decide)).cons hl (by decide))).cons ht (by decide)
  case nil => exact fun {_} => ⟨[], (List.append_nil _).symm, Spelled.nil⟩
  case member =>
    rintro _ _ _ _ _ _ _ ht hn ⟨ls, heq, hls⟩
    refine ⟨ls, by rw [literals, heq], ?_⟩
    have hend := hls.append ((Spelled.nil.cons hn (by decide)).cons ht (by decide))
    rwa [List.append_nil] at hend
  case send =>
    rintro _ _ _ _ _ _ _ _ _ _ _ ht hn hl _ hr ⟨ls, heq, hls⟩ ihargs
    refine ⟨ls ++ _, by rw [literals, heq, List.append_assoc], hls.append ?_⟩
    have hcall := (ihargs.concat hr (by decide)).cons hl (by decide)
    exact (hcall.cons hn (by decide)).cons ht (by decide)
  case index =>
    rintro _ _ _ _ _ _ _ _ _ hl _ hr ⟨ls, heq, hls⟩ ihposition
    refine ⟨ls ++ _, by rw [literals, heq, List.append_assoc], hls.append ?_⟩
    exact (ihposition.concat hr (by decide)).cons hl (by decide)
  case none => rw [literalsAll]; exact Spelled.nil
  case last =>
    intro _ _ _ ih
    rw [literalsAll, literalsAll, List.append_nil]
    exact ih
  case more =>
    intro _ _ _ _ _ _ ht _ ih ihrest
    rw [literalsAll]
    exact ih.append (ihrest.cons ht (by decide))

end Expr

/-! ## Statements -/

namespace Stmt

variable {ts : List Token}

theorem numbers_of_perhaps {value : Option Expr} (h : Perhaps (Expr.Derives .lowest) ts value) :
    Spelled ts (Expr.literalsOptional value) := by
  cases h with
  | none => exact Spelled.nil
  | some he => exact he.numbers

theorem numbers_of_initial {value : Option Expr}
    (h : Perhaps (After .assignment (Expr.Derives .lowest)) ts value) :
    Spelled ts (Expr.literalsOptional value) := by
  cases h with
  | none => exact Spelled.nil
  | some h =>
    cases h with
    | mk ht he => exact he.numbers.cons ht (by decide)

/-- **The numbers in a statement** are its literals. -/
theorem Derives.numbers {st : Stmt} (h : Derives ts st) : Spelled ts st.literals := by
  refine @Derives.rec (fun ts st _ => Spelled ts st.literals)
    (fun ts sts _ => Spelled ts (literalsAll sts)) ?varDecl ?ifThen ?ifElse ?whileDo ?nested ?ret
    ?assignment ?expression ?nil ?cons _ _ h
  case varDecl =>
    intro _ _ _ _ _ _ _ _ _ hw hn hc htype hvalue hs
    rw [literals]
    have hend := htype.numbers.append ((numbers_of_initial hvalue).concat hs (by decide))
    exact ((hend.cons hc (by decide)).cons hn (by decide)).cons hw (by decide)
  case ifThen =>
    intro _ _ _ _ _ _ _ _ _ hw he ht _ hx ih
    rw [literals, Block.literals]
    have hend := (ih.concat hx (by decide)).cons ht (by decide)
    exact (he.numbers.append hend).cons hw (by decide)
  case ifElse =>
    intro _ _ _ _ _ _ _ _ _ _ _ _ _ hw he ht _ ho _ hx ihyes ihno
    rw [literals, Block.literals, Block.literals, List.append_assoc]
    have hend := (ihno.concat hx (by decide)).cons ho (by decide)
    exact (he.numbers.append ((ihyes.append hend).cons ht (by decide))).cons hw (by decide)
  case whileDo =>
    intro _ _ _ _ _ _ _ _ _ hw he hd _ hx ih
    rw [literals, Block.literals]
    have hend := (ih.concat hx (by decide)).cons hd (by decide)
    exact (he.numbers.append hend).cons hw (by decide)
  case nested =>
    intro _ _ _ _ _ hd _ hx ih
    rw [literals, Block.literals]
    exact (ih.concat hx (by decide)).cons hd (by decide)
  case ret =>
    intro _ _ _ _ _ hw hvalue hs
    rw [literals]
    exact ((numbers_of_perhaps hvalue).concat hs (by decide)).cons hw (by decide)
  case assignment =>
    intro _ _ _ _ _ _ _ htarget ha hvalue hs
    rw [literals]
    exact htarget.numbers.append ((hvalue.numbers.concat hs (by decide)).cons ha (by decide))
  case expression =>
    intro _ _ _ _ he hs
    rw [literals]
    exact he.numbers.concat hs (by decide)
  case nil => rw [literalsAll]; exact Spelled.nil
  case cons =>
    intro _ _ _ _ _ _ ih ihrest
    rw [literalsAll]
    exact ih.append ihrest

theorem numbers_of_repeated {sts : List Stmt} (h : Repeated Derives ts sts) :
    Spelled ts (literalsAll sts) := by
  induction h with
  | nil => rw [literalsAll]; exact Spelled.nil
  | cons h _ ih =>
    rw [literalsAll]
    exact h.numbers.append ih

end Stmt

/-! ## Parentheses -/

/-- Something in any number of parentheses. -/
inductive Grouped (R : List Token → Prop) : List Token → Prop
  | plain {ts : List Token} : R ts → Grouped R ts
  | parens {l r : Token} {ts : List Token} : l.kind = .openParen → Grouped R ts →
      r.kind = .closeParen → Grouped R (l :: (ts ++ [r]))

theorem Power.rank_le (p : Power) : p.rank ≤ 9 := by cases p <;> decide

namespace Expr

variable {p : Power} {ts : List Token} {n : Nat} {sp : Span}

/-- A token for this number. -/
def IsNumber (n : Nat) (ts : List Token) : Prop :=
  ∃ t, ts = [t] ∧ t.kind = .number ∧ Numeral t.value n

/-- A minus sign, and then a number that may be in parentheses. -/
def IsNegative (n : Nat) (ts : List Token) : Prop :=
  ∃ t us, ts = t :: us ∧ t.kind = .dash ∧ Grouped (IsNumber n) us

/-- Tiers get tighter, up to the tightest. -/
theorem Derives.tighten {C : Prop} {e : Expr} (h : Derives p ts e)
    (step : ∀ q, Derives q ts e → (∀ q', q.rank < q'.rank → Derives q' ts e → C) → C) : C := by
  induction hm : 9 - p.rank using Nat.strongRecOn generalizing p with
  | _ m ih =>
    refine step p h fun q hlt hq => ih (9 - q.rank) ?_ hq rfl
    have hrank := q.rank_le
    omega

/-- What is written for a number without parentheses is a primary expression. -/
theorem Derives.primary_of_number (h : Derives p ts (.number n sp)) :
    Primary ts (.number n sp) := by
  refine h.tighten fun q h ih => ?_
  cases h with
  | tighter hlt h => exact ih _ hlt h
  | cast _ _ _ hs => cases hs
  | suffixed h hs =>
    cases hs
    rwa [List.append_nil]

/-- A sign is written first, or all is in parentheses. -/
theorem Derives.unary_cases {op : UnaryOp} {e : Expr} (h : Derives p ts (.unary op e sp)) :
    (∃ t us, ts = t :: us ∧ t.kind = op.kind ∧ Derives .unary us e) ∨
      Primary ts (.unary op e sp) := by
  refine h.tighten fun q h ih => ?_
  cases h with
  | tighter hlt h => exact ih _ hlt h
  | cast _ _ _ hs => cases hs
  | unary ht h => exact .inl ⟨_, _, rfl, ht, h⟩
  | suffixed h hs =>
    cases hs
    rw [List.append_nil]
    exact .inr h

theorem grouped_of_derives_number (h : Derives p ts (.number n sp)) : Grouped (IsNumber n) ts := by
  induction hm : ts.length using Nat.strongRecOn generalizing p ts with
  | _ m ih =>
    cases h.primary_of_number with
    | number ht hn => exact .plain ⟨_, rfl, ht, hn⟩
    | @grouping l r ts _ hl h hr =>
      refine .parens hl (ih ts.length ?_ h rfl) hr
      rw [← hm, List.length_cons, List.length_append]
      omega

theorem grouped_of_derives_negative {sp' : Span}
    (h : Derives p ts (.unary .negate (.number n sp) sp')) : Grouped (IsNegative n) ts := by
  induction hm : ts.length using Nat.strongRecOn generalizing p ts with
  | _ m ih =>
    rcases h.unary_cases with ⟨t, us, rfl, ht, h⟩ | h
    · exact .plain ⟨t, us, rfl, ht, grouped_of_derives_number h⟩
    · cases h with
      | @grouping l r ts _ hl h hr =>
        refine .parens hl (ih ts.length ?_ h rfl) hr
        rw [← hm, List.length_cons, List.length_append]
        omega

/-- Parentheses may be set around everything. -/
theorem derives_of_grouped {R : List Token → Prop} {e : Expr}
    (hplain : ∀ ts, R ts → Derives .unary ts e) (h : Grouped R ts) : Derives .unary ts e := by
  induction h with
  | plain h => exact hplain _ h
  | parens hl _ hr ih =>
    have hprimary := Primary.grouping hl (.tighter (by decide : Power.lowest.rank < _) ih) hr
    have hderives := Derives.suffixed hprimary .nil
    rwa [List.append_nil] at hderives

theorem derives_number (sp : Span) (h : Grouped (IsNumber n) ts) :
    Derives .unary ts (.number n sp) := by
  refine derives_of_grouped ?_ h
  rintro _ ⟨t, rfl, ht, hn⟩
  exact .suffixed (.number ht hn) .nil

theorem derives_negative (sp sp' : Span) (h : Grouped (IsNegative n) ts) :
    Derives .unary ts (.unary .negate (.number n sp) sp') := by
  refine derives_of_grouped ?_ h
  rintro _ ⟨t, us, rfl, ht, hus⟩
  exact .unary ht (derives_number sp hus)

/-- **A number is written as its digits**, up to parentheses. -/
theorem derives_number_iff :
    Derives .lowest ts (.number n sp) ↔ Grouped (IsNumber n) ts :=
  ⟨grouped_of_derives_number, fun h => .tighter (by decide) (derives_number sp h)⟩

/-- **A negated number is written as a minus sign directly before it**, up to parentheses. -/
theorem derives_negative_iff {sp' : Span} :
    Derives .lowest ts (.unary .negate (.number n sp) sp') ↔ Grouped (IsNegative n) ts :=
  ⟨grouped_of_derives_negative, fun h => .tighter (by decide) (derives_negative sp sp' h)⟩

end Expr

/-! ## Digits -/

/-- The value of the digits of a token. -/
def Token.decimal (t : Token) : Nat := Nat.ofDigitChars 10 t.value.toList 0

/-- Digits have one value. -/
theorem Expr.Numeral.eq_decimal {t : Token} {n : Nat} (h : Expr.Numeral t.value n)
    (hdigits : ∀ c ∈ t.value.toList, c.isDigit = true) : t.decimal = n := by
  obtain ⟨digits, htext | hsign, -, -, hn, -⟩ := h
  · rw [Token.decimal, htext, hn]
  · have hplus := hdigits '+' (by rw [hsign]; exact List.mem_cons_self)
    cases hplus

/-- The values of the numbers in a text are those of its literals. -/
theorem Spelled.decimals {ls : List Literal} (h : Spelled ts ls)
    (hts : ∀ t ∈ ts, t.kind.Spells t.value.toList) :
    (numberTokens ts).map Token.decimal = ls.map Literal.magnitude := by
  have hdigits : ∀ t ∈ numberTokens ts, ∀ c ∈ t.value.toList, c.isDigit = true := by
    intro t ht
    obtain ⟨hmem, hkind⟩ := List.mem_filter.1 ht
    have hspells := hts t hmem
    rw [of_decide_eq_true hkind] at hspells
    exact hspells.digits.2
  unfold Spelled at h
  generalize numberTokens ts = tokens, ls.map Literal.magnitude = ns at h hdigits ⊢
  induction h with
  | nil => rfl
  | cons hn _ ih =>
    obtain ⟨hfirst, hrest⟩ := List.forall_mem_cons.1 hdigits
    rw [List.map_cons, hn.eq_decimal hfirst, ih hrest]

/-- Digits have the value they write. -/
theorem Expr.numberValue?_of_digits {text : String} (hne : text.toList ≠ [])
    (hdigits : ∀ c ∈ text.toList, c.isDigit = true) : numberValue? text =
      if 2 ^ 63 < Nat.ofDigitChars 10 text.toList 0 then none
      else some (Nat.ofDigitChars 10 text.toList 0) := by
  have hvalue : digitsValue? text.toList = some (Nat.ofDigitChars 10 text.toList 0) := by
    unfold digitsValue?
    rw [List.all_eq_true.2 hdigits, List.isEmpty_eq_false_iff.2 hne]
    rfl
  unfold numberValue?
  split
  · rename_i digits hsign
    have hplus := hdigits '+' (by rw [hsign]; exact List.mem_cons_self)
    cases hplus
  · rw [hvalue, Option.filter_some]
    by_cases hle : 2 ^ 63 < Nat.ofDigitChars 10 text.toList 0
    · rw [if_pos hle, if_neg]
      rw [decide_eq_true_eq]
      exact Nat.not_le.2 hle
    · rw [if_neg hle, if_pos]
      rw [decide_eq_true_eq]
      exact Nat.not_lt.1 hle

theorem Parse.kind_bind_apply {β : Type} {k : Token.Kind → Parse β} {c : Cursor} :
    (Parse.kind >>= k) c = k c.current.kind c := rfl

theorem Parse.advance_bind_apply {β : Type} {k : Token → Parse β} {c : Cursor} :
    (Parse.advance >>= k) c = k c.current c.next := rfl

/-- **Reading a number token** gives the value of its digits, or refuses it. -/
theorem Expr.parsePrimary_number (sub : Power → Parse Expr) {c : Cursor}
    (hkind : c.current.kind = .number) (hne : c.current.value.toList ≠ [])
    (hdigits : ∀ x ∈ c.current.value.toList, x.isDigit = true) :
    Expr.parsePrimary sub c = if 2 ^ 63 < c.current.decimal
      then .error (.refused ⟨.invalidNumber c.current.value, c.current.span⟩) c.next
      else .ok (.number c.current.decimal c.current.span) c.next := by
  rw [Expr.parsePrimary, Parse.kind_bind_apply, hkind]
  show Expr.parseNumber c = _
  rw [Expr.parseNumber, Parse.advance_bind_apply, Expr.numberValue?_of_digits hne hdigits]
  unfold Token.decimal
  split <;> rfl

/-! ## Bodies of a text -/

theorem Repeated.infix_of_mem {α : Type} {R : List Token → α → Prop} {as : List α} {a : α}
    (h : Repeated R ts as) (ha : a ∈ as) : ∃ us, us <:+: ts ∧ R us a := by
  induction h with
  | nil => cases ha
  | @cons ts us b bs hb _ ih =>
    rcases List.mem_cons.1 ha with rfl | ha
    · exact ⟨ts, (List.prefix_append ts us).isInfix, hb⟩
    · obtain ⟨vs, hvs, hR⟩ := ih ha
      exact ⟨vs, hvs.trans (List.suffix_append ts us).isInfix, hR⟩

namespace CompilationUnit

/-- **What a unit declares is written in its tokens.** -/
theorem Derives.of_declares {u : CompilationUnit} {owner : Option ClassDecl} {m : MethodDecl}
    (h : Derives ts u) (hm : u.Declares owner m) : ∃ us, us <:+: ts ∧ MethodDecl.Derives us m := by
  cases owner with
  | none =>
    obtain ⟨us, hus, hd⟩ := Repeated.infix_of_mem h (mem_functions.1 hm)
    cases hd with
    | ofFunction hf => exact ⟨us, hus, hf⟩
  | some c =>
    obtain ⟨us, hus, hd⟩ := Repeated.infix_of_mem h (mem_classes.1 hm.1)
    cases hd with
    | ofClass hc =>
      cases hc with
      | @mk w n x ts features sp _ _ hfeatures _ =>
        obtain ⟨vs, hvs, hf⟩ := hfeatures.infix_of_mem (ClassDecl.mem_methods.1 hm.2)
        cases hf with
        | method hm =>
          have hin : ts <:+: w :: n :: (ts ++ [x]) := ⟨[w, n], [x], rfl⟩
          exact ⟨vs, (hvs.trans hin).trans hus, hm⟩

end CompilationUnit

/-- The method is the declared one: it has its name, in its class. -/
def Method.DeclaredAs (g : Method) (p : Program) (owner : Option ClassDecl) (m : MethodDecl) : Prop :=
  g.name = m.name ∧ (g.owner.bind p.classAt?).map ClassInfo.name = owner.map ClassDecl.name

/-- **A block is written in the tokens, and became `b`**: between `do` and `end` stand its statements,
the numbers there are the literals of the block, and these are the integers of `b`. -/
def Block.WrittenIn (block : Block) (ts : List Token) (b : TypedBlock) : Prop :=
  ∃ d us x, d.kind = .kwDo ∧ x.kind = .kwEnd ∧ d :: (us ++ [x]) <:+: ts ∧
    Repeated Stmt.Derives us block.body ∧
    (numberTokens us).map Token.decimal = block.literals.map Literal.magnitude ∧
    b.integers = block.literals.map Literal.value

theorem MethodDecl.Derives.writtenIn {us : List Token} {m : MethodDecl} {block : Block}
    {b : TypedBlock} (h : MethodDecl.Derives us m) (hus : us <:+: ts) (hbody : m.body = some block)
    (hts : ∀ t ∈ ts, t.kind.Spells t.value.toList)
    (hb : b.integers = block.literals.map Literal.value) : block.WrittenIn ts b := by
  cases h with
  | @mk n l r args result body arguments type _ sp _ _ _ _ _ hblock =>
    cases hbody
    cases hblock with
    | @some d x inner stmts span hd hstmts hx =>
      have hin : d :: (inner ++ [x]) <:+: ts :=
        (List.suffix_append (n :: l :: (args ++ r :: result)) _).isInfix.trans
          (by simpa using hus)
      refine ⟨d, inner, x, hd, hx, hin, hstmts, ?_, hb⟩
      have hinner : inner <:+: ts := List.IsInfix.trans ⟨[d], [x], rfl⟩ hin
      rw [Block.literals]
      exact (Stmt.numbers_of_repeated hstmts).decimals fun t ht => hts t (hinner.subset ht)

/-- **Integer literals are exact from the text to the tree.** A number token is read as the value of its
digits if that is at most `2 ^ 63`. On its own, a number becomes the integer of its value if that is below
`2 ^ 63`; directly behind a minus sign it becomes the negated integer. Parentheses make no difference: a
negated number is written as a minus sign before a number, each with any parentheses around it. So in a
text that is resolved, the integers of every body are the numbers between its `do` and `end`, in order,
and negated if and only if they are the operand of a minus sign. -/
theorem literals_exact :
    (∀ (sub : Power → Parse Expr) (c : Cursor), c.current.kind = .number →
      c.current.value.toList ≠ [] → (∀ x ∈ c.current.value.toList, x.isDigit = true) →
      Expr.parsePrimary sub c = if 2 ^ 63 < c.current.decimal
        then .error (.refused ⟨.invalidNumber c.current.value, c.current.span⟩) c.next
        else .ok (.number c.current.decimal c.current.span) c.next) ∧
    (∀ (d : Dialect) (scope : ScopeId) (s : Resolver) (n : Nat) (span span' : Span),
      ((Expr.number n span).resolve d scope s = if n < 2 ^ 63
        then .ok (.int n Native.integer.id span) s
        else .error ⟨.invalidNumber n.repr, span⟩ s) ∧
      (Expr.unary .negate (.number n span') span).resolve d scope s = if n ≤ 2 ^ 63
        then .ok (.int (-(n : Int)) Native.integer.id span) s
        else .error ⟨.invalidNumber n.repr, span'⟩ s) ∧
    (∀ (ts : List Token) (n : Nat) (span span' : Span),
      (Expr.Derives .lowest ts (.number n span) ↔ Grouped (Expr.IsNumber n) ts) ∧
      (Expr.Derives .lowest ts (.unary .negate (.number n span') span) ↔
        Grouped (Expr.IsNegative n) ts)) ∧
    ∀ (file source : String) (ts : List Token) (u : CompilationUnit) (d : Dialect) (r : Registry)
      (p : Program), Token.ofText file source = .ok ts → CompilationUnit.ofTokens file ts = .ok u →
      u.resolve d = .ok (r, p) →
      (∀ l g b, p.methodAt? l = some g → g.body = some b →
        ∃ owner m block, u.Declares owner m ∧ g.DeclaredAs p owner m ∧ m.body = some block ∧
          block.WrittenIn ts b) ∧
      ∀ owner m block, u.Declares owner m → m.body = some block →
        ∃ l g b, p.methodAt? l = some g ∧ g.DeclaredAs p owner m ∧ g.body = some b ∧
          block.WrittenIn ts b := by
  refine ⟨fun sub c => Expr.parsePrimary_number sub, fun d scope s n span span' =>
    ⟨Expr.resolve_number d scope s n span, Expr.resolve_negative d scope s n span span'⟩,
    fun ts n span span' => ⟨Expr.derives_number_iff, Expr.derives_negative_iff⟩, ?_⟩
  intro file source ts u d r p hts hu hresolve
  obtain ⟨body, last, rfl, hspells, hderives⟩ := CompilationUnit.derives_of_text hts hu
  have hfaithful : ∃ ds, p.Faithful r d u ds :=
    CompilationUnit.yields_of_leads (P := fun r p => ∃ ds, p.Faithful r d u ds)
      (fun _ h₀ => CompilationUnit.resolveUnit_faithful d u h₀) hresolve
  obtain ⟨ds, hds⟩ := hfaithful
  -- what a body becomes, from where it is written
  have carried : ∀ {owner m block l b}, u.Declares owner m → m.body = some block →
      p.Carries r d u owner m l b (ds l) → block.WrittenIn (body ++ [last]) b := by
    intro owner m block l b hm hblock hcarries
    obtain ⟨g, block', -, -, hblock', -, -, hbecomes⟩ := hcarries
    obtain rfl : block = block' := Option.some.inj (hblock.symm.trans hblock')
    obtain ⟨us, hus, hmethod⟩ := hderives.of_declares hm
    obtain ⟨d', us', x, hd, hx, hin, hrest⟩ :=
      hmethod.writtenIn hus hblock hspells hbecomes.integersIn_nodes
    exact ⟨d', us', x, hd, hx, hin.trans (List.prefix_append body [last]).isInfix, hrest⟩
  constructor
  · intro l g b hg hb
    obtain ⟨-, owner, m, hm, hcarries⟩ := hds.bodies l g b hg hb
    have hwritten : ∀ block, m.body = some block → block.WrittenIn (body ++ [last]) b :=
      fun _ hblock => carried hm hblock hcarries
    obtain ⟨g', block, hg', -, hblock, hname, howner, -⟩ := hcarries
    obtain rfl : g = g' := Option.some.inj (hg.symm.trans hg')
    exact ⟨owner, m, block, hm, ⟨hname, howner⟩, hblock, hwritten block hblock⟩
  · intro owner m block hm hblock
    obtain ⟨l, -, b, hcarries⟩ := hds.written owner m hm (by rw [hblock]; rfl)
    have hwritten := carried hm hblock hcarries
    obtain ⟨g, -, hg, hb, -, hname, howner, -⟩ := hcarries
    exact ⟨l, g, b, hg, ⟨hname, howner⟩, hb, hwritten⟩

/-! ## A text with the least integer -/

/-- The least integer, in parentheses, and numbers with zeros in front of them. -/
def Least.source : String :=
  "least(n: Int8): Integer do\n  least(-128);\n  return -((9223372036854775808)) - 007;\nend\n"

/-- The integers in all bodies. -/
def Program.integers (p : Program) : List Int :=
  p.methods.toList.flatMap fun g => g.body.toList.flatMap TypedBlock.integers

set_option maxRecDepth 100000 in
theorem Least.compile_integers : ((compile "a.cls" Least.source).map fun x => x.2.integers).toOption =
    some [-128, -9223372036854775808, 7] := by
  decide +kernel

/-- The first minus sign and the second belong to their numbers, and the third does not. -/
theorem Least.integers_exact : ∃ ts u r p, Token.ofText "a.cls" Least.source = .ok ts ∧
    CompilationUnit.ofTokens "a.cls" ts = .ok u ∧ u.resolve .standard = .ok (r, p) ∧
    p.integers = [-128, -9223372036854775808, 7] ∧
    ∀ l g b, p.methodAt? l = some g → g.body = some b →
      ∃ owner m block, u.Declares owner m ∧ g.DeclaredAs p owner m ∧ m.body = some block ∧
        block.WrittenIn ts b := by
  have hintegers := Least.compile_integers
  cases hcompile : compile "a.cls" Least.source with
  | error fault => rw [hcompile] at hintegers; cases hintegers
  | ok x =>
    rw [hcompile] at hintegers
    obtain ⟨ts, u, hts, hu, hresolve⟩ := compile_eq_ok hcompile
    obtain ⟨r, p⟩ := x
    exact ⟨ts, u, r, p, hts, hu, hresolve, Option.some.inj hintegers,
      (literals_exact.2.2.2 "a.cls" Least.source ts u .standard r p hts hu hresolve).1⟩

end ClassLang
