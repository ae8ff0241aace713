import ClassLang.Proofs.Accepted
import ClassLang.Proofs.ReadingExpr

/-!
# Expressions that are read are derived

An expression is read as an operand and then, in a loop, operator after operator. `Expr.Stage` is
**the invariant of the loop**: it says to which tier the expression on the left belongs, and how tight
the operators can be that still follow it.

* `Stage.derives_at`: at every stage, the expression may stand on the left of the next operator.
* `Stage.suffix`: a suffix follows only an operand or a cast.
* `parseOperator_leads`, `parseOperators_leads`: one operator, and all of them.
* `Expr.parse_accepts`: expressions.
-/

namespace ClassLang

open Parse

namespace Expr

variable {k : Token.Kind}

/-- An expression that is read with power `p` may belong to tier `q`: the operators of `q` bind
tighter, or it is an operand that is wanted behind a prefix. -/
def Admits (p q : Power) : Prop := p.rank < q.rank ∨ p = .unary ∧ q = .unary

/-- The operator at a token, if there is one, does not bind tighter than `q`. -/
def Loose (q : Power) (k : Token.Kind) : Prop :=
  ∀ r rule, Grammar.operatorTable k = some (r, rule) → r.rank ≤ q.rank

theorem operatorTable_of_operatorAt? {p r : Power} {rule : OperatorRule}
    (h : operatorAt? .standard p k = some (r, rule)) :
    Grammar.operatorTable k = some (r, rule) ∧ p.rank < r.rank := by
  obtain ⟨htable, hp⟩ := Option.filter_eq_some_iff.1 h
  exact ⟨htable, Power.below_iff.1 hp⟩

theorem loose_of_operatorAt? {p : Power} (h : operatorAt? .standard p k = none) : Loose p k := by
  intro r rule hk
  refine Nat.le_of_not_lt fun hr => ?_
  rw [operatorAt?_eq_some hk hr] at h
  cases h

theorem kind_ne_eof (op : BinaryOp) : op.kind ≠ .eof := by cases op <;> decide

theorem rank_power_le (op : BinaryOp) : op.power.rank ≤ Power.multiplicative.rank := by
  cases op <;> decide

/-- Every operator between two operands has its own kind of token and its own power. -/
theorem binary_of_operatorTable {r : Power} (h : Grammar.operatorTable k = some (r, .binary)) :
    ∃ op : BinaryOp, binaryOp? k = some op ∧ k = op.kind ∧ r = op.power := by
  cases k <;> cases h <;> exact ⟨_, rfl, rfl, rfl⟩

theorem cast_of_operatorTable {r : Power} (h : Grammar.operatorTable k = some (r, .cast)) :
    k = .kwAs ∧ r = .cast := by
  cases k <;> cases h
  exact ⟨rfl, rfl⟩

theorem member_of_operatorTable {r : Power} (h : Grammar.operatorTable k = some (r, .member)) :
    k = .dot ∧ r = .member := by
  cases k <;> cases h
  exact ⟨rfl, rfl⟩

theorem index_of_operatorTable {r : Power} (h : Grammar.operatorTable k = some (r, .index)) :
    k = .openBracket ∧ r = .member := by
  cases k <;> cases h
  exact ⟨rfl, rfl⟩

/-- A reader for the expressions inside: what it reads with power `p` is derived in a tier that `p`
admits, and no tighter operator follows. -/
def Reader (sub : Power → Parse Expr) : Prop :=
  ∀ p c, p.rank ≤ Power.unary.rank → c.Live →
    Gives (sub p) c (fun e c' => ∃ ts, c.Read c' ts ∧ (∃ q, Admits p q ∧ Derives q ts e) ∧
      Loose p c'.current.kind)

/-- **The expression on the left of the next operator**, when it has been read from `ts` with power
`p` and `k` is the kind of the token behind it. Behind an operand or a cast there may be any operator.
Behind a prefix or an operator between two operands there is none that binds tighter. -/
inductive Stage (p : Power) (ts : List Token) (e : Expr) (k : Token.Kind) : Prop
  | operand {us vs : List Token} {e₀ : Expr} : Primary us e₀ → Suffixes e₀ vs e → ts = us ++ vs →
      Stage p ts e k
  | cast {us vs ws : List Token} {t : Token} {e₀ : Expr} {type : TypeName} {sp : Span} :
      p.rank < Power.cast.rank → Derives .cast us e₀ → t.kind = .kwAs → TypeName.Derives vs type →
      Suffixes (.cast e₀ type sp) ws e → ts = us ++ t :: (vs ++ ws) → Stage p ts e k
  | settled {q : Power} : Admits p q → q.rank ≤ Power.unary.rank → Derives q ts e → Loose q k →
      Stage p ts e k

namespace Stage

variable {p : Power} {ts : List Token} {e : Expr} {k : Token.Kind}

theorem admits_unary (hp : p.rank ≤ Power.unary.rank) : Admits p .unary := by
  rcases Nat.lt_or_eq_of_le hp with h | h
  · exact .inl h
  · refine .inr ⟨?_, rfl⟩
    cases p <;> first | rfl | cases h

/-- At every stage the expression is derived in a tier that is admitted. -/
theorem derives (h : Stage p ts e k) (hp : p.rank ≤ Power.unary.rank) :
    ∃ q, Admits p q ∧ Derives q ts e := by
  cases h with
  | operand hprimary hsuffixes hts =>
    subst hts
    exact ⟨.unary, admits_unary hp, .suffixed hprimary hsuffixes⟩
  | cast hcast he₀ ht htype hsuffixes hts =>
    subst hts
    exact ⟨.cast, .inl hcast, .cast he₀ ht htype hsuffixes⟩
  | settled hadmits _ hder _ => exact ⟨_, hadmits, hder⟩

/-- At every stage the expression may stand on the left of an operator that follows, unless this is a
suffix. -/
theorem derives_at (h : Stage p ts e k) {r : Power} {rule : OperatorRule}
    (hk : Grammar.operatorTable k = some (r, rule)) (hr : r.rank ≤ Power.cast.rank) :
    Derives r ts e := by
  have hlift : ∀ q : Power, r.rank ≤ q.rank → Derives q ts e → Derives r ts e := by
    intro q hrq hder
    rcases Nat.lt_or_eq_of_le hrq with hlt | heq
    · exact .tighter hlt hder
    · have : r = q := by cases r <;> cases q <;> first | rfl | cases heq
      exact this ▸ hder
  cases h with
  | operand hprimary hsuffixes hts =>
    subst hts
    exact hlift .unary (Nat.le_trans hr (by decide)) (.suffixed hprimary hsuffixes)
  | cast _ he₀ ht htype hsuffixes hts =>
    subst hts
    exact hlift .cast hr (.cast he₀ ht htype hsuffixes)
  | settled _ _ hder hloose => exact hlift _ (hloose r rule hk) hder

/-- A suffix follows only an operand or a cast, and leaves one. -/
theorem suffix (h : Stage p ts e k) {rule : OperatorRule}
    (hk : Grammar.operatorTable k = some (.member, rule)) {us : List Token} {e' : Expr}
    (hsuffix : ∀ e₀ vs, Suffixes e₀ vs e → Suffixes e₀ (vs ++ us) e') (k' : Token.Kind) :
    Stage p (ts ++ us) e' k' := by
  cases h with
  | operand hprimary hsuffixes hts =>
    exact .operand hprimary (hsuffix _ _ hsuffixes) (by rw [hts, List.append_assoc])
  | cast hcast he₀ ht htype hsuffixes hts =>
    refine .cast hcast he₀ ht htype (hsuffix _ _ hsuffixes) ?_
    rw [hts]
    simp only [List.append_assoc, List.cons_append]
  | settled _ hq _ hloose =>
    have hle := Nat.le_trans (hloose _ rule hk) hq
    exact absurd hle (by decide)

end Stage

/-! ### Operands -/

theorem numeral_of_digitsValue? {digits : List Char} {n : Nat} (h : digitsValue? digits = some n) :
    digits ≠ [] ∧ (∀ c ∈ digits, c.isDigit = true) ∧ Nat.ofDigitChars 10 digits 0 = n := by
  unfold digitsValue? at h
  split at h
  · rename_i hdigits
    obtain ⟨hne, hall⟩ := Bool.and_eq_true_iff.1 hdigits
    refine ⟨?_, List.all_eq_true.1 hall, Option.some.inj h⟩
    rintro rfl
    cases hne
  · cases h

theorem numeral_of_numberValue? {text : String} {n : Nat} (h : numberValue? text = some n) :
    Numeral text n := by
  obtain ⟨hvalue, hle⟩ := Option.filter_eq_some_iff.1 h
  replace hle : n ≤ 2 ^ 63 := of_decide_eq_true hle
  split at hvalue
  · rename_i digits hsign
    obtain ⟨hne, hall, hn⟩ := numeral_of_digitsValue? hvalue
    exact ⟨digits, .inr hsign, hne, hall, hn, hle⟩
  · obtain ⟨hne, hall, hn⟩ := numeral_of_digitsValue? hvalue
    exact ⟨_, .inl rfl, hne, hall, hn, hle⟩

variable {sub : Power → Parse Expr} {c₀ c : Cursor} {ts : List Token}

theorem Reader.lowest (hsub : Reader sub) : (sub .lowest).Accepts (Derives .lowest) := by
  intro c hc
  refine (hsub .lowest c (by decide) hc).post ?_
  rintro e c' ⟨ts, hread, ⟨q, hq, hder⟩, -⟩
  rcases hq with hq | ⟨hq, -⟩
  · exact ⟨ts, hread, .tighter hq hder⟩
  · cases hq

/-- The operand of a prefix. No suffix follows it, since it would belong to the operand. -/
theorem Reader.unary (hsub : Reader sub) {k : Expr → Parse Expr} {Q : Expr → Cursor → Prop}
    (h : c₀.Read c ts)
    (hk : ∀ e c' us, Derives .unary us e → Loose .unary c'.current.kind → c₀.Read c' (ts ++ us) →
      Gives (k e) c' Q) : Gives (sub .unary >>= k) c Q := by
  refine (hsub .unary c (Nat.le_refl _) h.live).seq ?_
  rintro e c' ⟨us, hread, ⟨q, hq, hder⟩, hloose⟩
  refine hk e c' us ?_ hloose (h.trans hread)
  rcases hq with hq | ⟨-, rfl⟩
  · exact .tighter hq hder
  · exact hder

/-- The name and arguments of a call. -/
theorem parseCall_leads (hsub : Reader sub) (target : Option Expr) (h : c₀.Read c ts) :
    Gives (parseCall sub target) c (fun e c' => ∃ n l r us args sp,
      n.kind = Token.Kind.identifier ∧ l.kind = Token.Kind.openParen ∧
      Listed (Derives .lowest) us args ∧ r.kind = Token.Kind.closeParen ∧
      c₀.Read c' (ts ++ n :: l :: (us ++ [r])) ∧
      e = target.elim (Expr.call n.value args sp) fun e₀ => .send e₀ n.value args sp) := by
  unfold parseCall
  refine expect_leads h nofun fun n c₁ hn h₁ => ?_
  refine expect_leads h₁ nofun fun l c₂ hl h₂ => ?_
  refine (within_accepts (listed_accepts hsub.lowest)).seq h₂ fun args c₃ us hargs h₃ => ?_
  refine expect_leads h₃ nofun fun r c₄ hr h₄ => ?_
  simp only [List.append_assoc, List.cons_append, List.nil_append] at h₄
  cases target with
  | none => exact spanFrom_leads fun sp => Leads.pure ⟨n, l, r, us, args, sp, hn, hl, hargs, hr, h₄, rfl⟩
  | some e₀ =>
    exact spanFrom_leads fun sp => Leads.pure ⟨n, l, r, us, args, sp, hn, hl, hargs, hr, h₄, rfl⟩

/-- **A primary expression** is told by its first token. -/
theorem parsePrimary_accepts (hsub : Reader sub) : (parsePrimary sub).Accepts Primary := by
  intro c hc
  unfold parsePrimary
  refine kind_leads ?_
  -- one case for each kind of token that is an operand by itself
  split
  · rename_i hk
    unfold parseNumber
    refine advance_leads hc.read_nil (by rw [hk]; nofun) fun c₁ h₁ => ?_
    split
    · rename_i n hn
      exact Leads.pure ⟨_, h₁, .number hk (numeral_of_numberValue? hn)⟩
    · trivial
  · rename_i hk
    refine Leads.get_seq ?_
    split
    · refine (parseCall_leads hsub none hc.read_nil).post ?_
      rintro e c' ⟨n, l, r, us, args, sp, hn, hl, hargs, hr, hread, rfl⟩
      exact ⟨_, hread, .call hn hl hargs hr⟩
    · refine advance_leads hc.read_nil (by rw [hk]; nofun) fun c₁ h₁ => ?_
      exact Leads.pure ⟨_, h₁, .symbol hk⟩
  · rename_i hk
    refine advance_leads hc.read_nil (by rw [hk]; nofun) fun c₁ h₁ => ?_
    exact Leads.pure ⟨_, h₁, .true hk⟩
  · rename_i hk
    refine advance_leads hc.read_nil (by rw [hk]; nofun) fun c₁ h₁ => ?_
    exact Leads.pure ⟨_, h₁, .false hk⟩
  · rename_i hk
    refine advance_leads hc.read_nil (by rw [hk]; nofun) fun c₁ h₁ => ?_
    exact Leads.pure ⟨_, h₁, .this hk⟩
  · exact unexpected_leads

theorem parseGrouping_leads (hsub : Reader sub) (hc : c.Live) (hk : c.current.kind = .openParen) :
    Gives (parseGrouping sub) c (fun e c' => ∃ ts, c.Read c' ts ∧ Primary ts e) := by
  unfold parseGrouping
  refine advance_leads hc.read_nil (by rw [hk]; nofun) fun c₁ h₁ => ?_
  refine hsub.lowest.seq h₁ fun e c₂ us he h₂ => ?_
  refine expect_leads h₂ nofun fun r c₃ hr h₃ => Leads.pure ⟨_, h₃, ?_⟩
  simp only [List.cons_append, List.nil_append]
  exact .grouping hk he hr

theorem parseArrayNew_leads (hsub : Reader sub) (hc : c.Live) (hk : c.current.kind = .kwNew) :
    Gives (parseArrayNew .standard sub) c (fun e c' => ∃ ts, c.Read c' ts ∧ Primary ts e) := by
  unfold parseArrayNew
  refine advance_leads hc.read_nil (by rw [hk]; nofun) fun c₁ h₁ => ?_
  refine TypeName.parse_accepts.seq h₁ fun type c₂ us htype h₂ => ?_
  refine expect_leads h₂ nofun fun l c₃ hl h₃ => ?_
  refine hsub.lowest.seq h₃ fun size c₄ vs hsize h₄ => ?_
  refine expect_leads h₄ nofun fun r c₅ hr h₅ => ?_
  refine spanFrom_leads fun sp => Leads.pure ⟨_, h₅, ?_⟩
  simp only [List.append_assoc, List.cons_append, List.nil_append]
  exact .arrayNew hk htype hl hsize hr

/-- **An operand**, by the rule of its first token. -/
theorem parseOperand_leads (hsub : Reader sub) {p : Power} (hp : p.rank ≤ Power.unary.rank)
    (hc : c.Live) {rule : OperandRule} (hrule : Grammar.operandTable c.current.kind = some rule) :
    Gives (parseOperand .standard sub rule) c
      (fun e c' => ∃ ts, c.Read c' ts ∧ Stage p ts e c'.current.kind) := by
  -- a primary expression may stand at every power
  have hstage : ∀ (e : Expr) (c' : Cursor), (∃ ts, c.Read c' ts ∧ Primary ts e) →
      ∃ ts, c.Read c' ts ∧ Stage p ts e c'.current.kind := by
    rintro e c' ⟨ts, hread, he⟩
    exact ⟨ts, hread, .operand he .nil (List.append_nil ts).symm⟩
  cases rule with
  | primary => exact (parsePrimary_accepts hsub c hc).post hstage
  | unary =>
    have hk : c.current.kind = .dash ∨ c.current.kind = .kwNot := by
      generalize c.current.kind = k at hrule
      cases k <;> first | exact .inl rfl | exact .inr rfl | cases hrule
    show Leads (parseUnary sub) c _ _
    unfold parseUnary
    refine advance_leads hc.read_nil (by rcases hk with hk | hk <;> rw [hk] <;> nofun) fun c₁ h₁ => ?_
    refine hsub.unary h₁ fun e c₂ us he hloose h₂ => Leads.pure ⟨_, h₂, ?_⟩
    refine .settled (Stage.admits_unary hp) (Nat.le_refl _) (.unary ?_ he) hloose
    rcases hk with hk | hk <;> rw [hk] <;> rfl
  | addressOf =>
    have hk : c.current.kind = .ampersand := by
      generalize c.current.kind = k at hrule
      cases k <;> first | rfl | cases hrule
    show Leads (parseAddressOf sub) c _ _
    unfold parseAddressOf
    refine advance_leads hc.read_nil (by rw [hk]; nofun) fun c₁ h₁ => ?_
    refine hsub.unary h₁ fun e c₂ us he hloose h₂ => ?_
    refine spanFrom_leads fun sp => Leads.pure ⟨_, h₂, ?_⟩
    exact .settled (Stage.admits_unary hp) (Nat.le_refl _) (.addressOf hk he) hloose
  | grouping =>
    have hk : c.current.kind = .openParen := by
      generalize c.current.kind = k at hrule
      cases k <;> first | rfl | cases hrule
    exact (parseGrouping_leads hsub hc hk).post hstage
  | arrayNew =>
    have hk : c.current.kind = .kwNew := by
      generalize c.current.kind = k at hrule
      cases k <;> first | rfl | cases hrule
    exact (parseArrayNew_leads hsub hc hk).post hstage

/-! ### Operators -/

variable {p r : Power} {left : Expr}

/-- An operator of a tighter tier takes what was read as its left operand. -/
theorem parseBinary_leads (hsub : Reader sub) (h : c₀.Read c ts)
    (hstage : Stage p ts left c.current.kind)
    (hk : Grammar.operatorTable c.current.kind = some (r, .binary)) (hp : p.rank < r.rank) :
    Gives (parseBinary sub r left) c
      (fun e c' => ∃ us, c₀.Read c' us ∧ Stage p us e c'.current.kind) := by
  obtain ⟨op, hop, hkind, rfl⟩ := binary_of_operatorTable hk
  have hrank := rank_power_le op
  have hleft := hstage.derives_at hk (Nat.le_trans hrank (by decide))
  unfold parseBinary
  refine kind_leads ?_
  rw [hop]
  refine advance_leads h (hkind ▸ kind_ne_eof op) fun c₁ h₁ => ?_
  refine (hsub op.power c₁ (Nat.le_trans hrank (by decide)) h₁.live).seq ?_
  rintro right c₂ ⟨us, hread, ⟨q, hq, hder⟩, hloose⟩
  have hlt : op.power.rank < q.rank := by
    rcases hq with hq | ⟨hq, -⟩
    · exact hq
    · rw [hq] at hrank
      exact absurd hrank (by decide)
  refine Leads.pure ⟨_, h₁.trans hread, ?_⟩
  simp only [List.append_assoc, List.cons_append, List.nil_append]
  exact .settled (.inl hp) (Nat.le_trans hrank (by decide)) (.binary hleft hkind hlt hder) hloose

theorem parseCast_leads (h : c₀.Read c ts) (hstage : Stage p ts left c.current.kind)
    (hk : Grammar.operatorTable c.current.kind = some (r, .cast)) (hp : p.rank < r.rank) :
    Gives (parseCast .standard left) c
      (fun e c' => ∃ us, c₀.Read c' us ∧ Stage p us e c'.current.kind) := by
  obtain ⟨hkind, rfl⟩ := cast_of_operatorTable hk
  have hleft := hstage.derives_at hk (Nat.le_refl _)
  unfold parseCast
  refine advance_leads h (by rw [hkind]; nofun) fun c₁ h₁ => ?_
  refine TypeName.parse_accepts.seq h₁ fun type c₂ us htype h₂ => ?_
  refine spanFrom_leads fun sp => Leads.pure ⟨_, h₂, ?_⟩
  refine .cast hp hleft hkind htype .nil ?_
  simp only [List.append_assoc, List.cons_append, List.nil_append, List.append_nil]

theorem parseMember_leads (hsub : Reader sub) (h : c₀.Read c ts)
    (hstage : Stage p ts left c.current.kind)
    (hk : Grammar.operatorTable c.current.kind = some (r, .member)) :
    Gives (parseMember sub left) c
      (fun e c' => ∃ us, c₀.Read c' us ∧ Stage p us e c'.current.kind) := by
  obtain ⟨hkind, rfl⟩ := member_of_operatorTable hk
  unfold parseMember
  refine advance_leads h (by rw [hkind]; nofun) fun c₁ h₁ => ?_
  refine Leads.get_seq ?_
  split
  · refine (parseCall_leads hsub (some left) h₁).post ?_
    rintro e c' ⟨n, l, r, us, args, sp, hn, hl, hargs, hr, hread, rfl⟩
    refine ⟨_, hread, ?_⟩
    rw [List.append_assoc]
    exact hstage.suffix hk (fun e₀ vs hvs => .send hvs hkind hn hl hargs hr) _
  · refine expect_leads h₁ nofun fun n c₂ hn h₂ => Leads.pure ⟨_, h₂, ?_⟩
    rw [List.append_assoc]
    exact hstage.suffix hk (fun e₀ vs hvs => .member hvs hkind hn) _

theorem parseIndex_leads (hsub : Reader sub) (h : c₀.Read c ts)
    (hstage : Stage p ts left c.current.kind)
    (hk : Grammar.operatorTable c.current.kind = some (r, .index)) :
    Gives (parseIndex sub left) c
      (fun e c' => ∃ us, c₀.Read c' us ∧ Stage p us e c'.current.kind) := by
  obtain ⟨hkind, rfl⟩ := index_of_operatorTable hk
  unfold parseIndex
  refine advance_leads h (by rw [hkind]; nofun) fun c₁ h₁ => ?_
  refine hsub.lowest.seq h₁ fun position c₂ us hposition h₂ => ?_
  refine expect_leads h₂ nofun fun t c₃ ht h₃ => ?_
  refine spanFrom_leads fun sp => Leads.pure ⟨_, h₃, ?_⟩
  simp only [List.append_assoc, List.cons_append, List.nil_append]
  exact hstage.suffix hk (fun e₀ vs hvs => .index hvs hkind hposition ht) _

/-- **One operator**, and the stage after it. -/
theorem parseOperator_leads (hsub : Reader sub) (h : c₀.Read c ts)
    (hstage : Stage p ts left c.current.kind) {rule : OperatorRule}
    (hk : Grammar.operatorTable c.current.kind = some (r, rule)) (hp : p.rank < r.rank) :
    Gives (parseOperator .standard sub rule r left) c
      (fun e c' => ∃ us, c₀.Read c' us ∧ Stage p us e c'.current.kind) := by
  cases rule with
  | binary => exact parseBinary_leads hsub h hstage hk hp
  | cast => exact parseCast_leads h hstage hk hp
  | member => exact parseMember_leads hsub h hstage hk
  | index => exact parseIndex_leads hsub h hstage hk

/-- **Operator after operator**, up to one that is not tight enough. -/
theorem parseOperators_leads (hsub : Reader sub) (n : Nat) (h : c₀.Read c ts)
    (hstage : Stage p ts left c.current.kind) :
    Gives (parseOperators .standard sub p n left) c (fun e c' => ∃ us, c₀.Read c' us ∧
      Stage p us e c'.current.kind ∧ Loose p c'.current.kind) := by
  induction n generalizing c ts left with
  | zero => trivial
  | succ n ih =>
    unfold parseOperators
    refine kind_leads ?_
    cases hat : operatorAt? .standard p c.current.kind with
    | none => exact Leads.pure ⟨ts, h, hstage, loose_of_operatorAt? hat⟩
    | some entry =>
      obtain ⟨r, rule⟩ := entry
      obtain ⟨hk, hp⟩ := operatorTable_of_operatorAt? hat
      refine (parseOperator_leads hsub h hstage hk hp).seq ?_
      rintro e c' ⟨us, hread, hstage'⟩
      exact ih hread hstage'

/-- **Expressions**, by the depth to which they are nested. -/
theorem parseWithin_reader (d : Nat) : Reader (parseWithin .standard d) := by
  induction d with
  | zero => intro p c _ _; trivial
  | succ d ih =>
    intro p c hp hc
    unfold parseWithin
    refine kind_leads ?_
    cases hrule : Grammar.standard.operand c.current.kind with
    | none => exact unexpected_leads
    | some rule =>
      refine (parseOperand_leads ih hp hc hrule).seq ?_
      rintro left c₁ ⟨ts, hread, hstage⟩
      refine within_leads ((parseOperators_leads ih c₁.allowance hread hstage).post ?_)
      rintro e c₂ ⟨us, hread', hstage', hloose⟩
      exact ⟨us, hread', hstage'.derives hp, hloose⟩

theorem parse_accepts : (parse .standard .lowest).Accepts (Derives .lowest) :=
  within_accepts fun d => (parseWithin_reader d).lowest

end Expr

end ClassLang
