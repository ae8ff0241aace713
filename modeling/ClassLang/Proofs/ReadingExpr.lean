import ClassLang.Proofs.ReadingSpine

/-!
# Reading expressions back

The words of every expression are a spine, so they are read back as that expression.

* `parseBinary_reads`, `parseUnary_reads` and the like: what follows an operand or starts one.
* `Spine.binary`, `Spine.send` and the like: one lemma for each kind of node.
* `Expr.spine`: the words of every expression are a spine, by recursion on the expression.
* `Expr.parse_reads`: so every expression is read back.
-/

namespace ClassLang

namespace Expr

open Parse

variable {sub : Power → Parse Expr} {a e : Expr} {name : String} {args : List Expr} {w : List Word}

/-! ## Operators -/

theorem operatorTable_kind (op : BinaryOp) :
    Grammar.operatorTable op.kind = some (op.power, .binary) := by
  cases op <;> rfl

theorem binaryOp?_kind (op : BinaryOp) : binaryOp? op.kind = some op := by
  cases op <;> rfl

theorem parseBinary_reads {op : BinaryOp} {tail : List Word} {b left : Expr} (sp : Span)
    (hleft : a.Like left) (htail : tail ≠ [])
    (hsub : (sub op.power).Reads tail (Next (Follows op.power)) b.Like) :
    (parseBinary sub op.power left).Reads (mark op.kind :: tail) (Next (Follows op.power))
      (Expr.binary op a b sp).Like := by
  intro c rest hc hrest
  unfold parseBinary
  refine kind_seq ?_
  rw [show c.current.kind = op.kind from hc.kind, binaryOp?_kind]
  refine advance_seq hc (fun h => htail (List.append_eq_nil_iff.1 h).1) fun _ c₁ _ hc₁ => ?_
  refine (hsub c₁ rest hc₁ hrest).seq fun right c₂ hc₂ hright => Takes.pure hc₂ ?_
  show Expr.binary op left.eraseSpans right.eraseSpans .nowhere =
    .binary op a.eraseSpans b.eraseSpans .nowhere
  rw [hleft, hright]

/-- **An operator between two operands.** -/
theorem Spine.binary {op : BinaryOp} {b : Expr} (sp : Span) (ha : Spine a.words a a.power)
    (hb : Spine b.words b b.power) :
    Spine (Expr.binary op a b sp).words (.binary op a b sp) op.power := by
  rw [words_binary]
  have hprimary := (operatorTable_rank (operatorTable_kind op)).2
  have hleft : op.power.rank ≤
      (if a.bareLeft op then a.power else Power.primary).rank := by
    split
    · rename_i hbare
      unfold bareLeft at hbare
      rw [Bool.not_eq_true'] at hbare
      exact Power.below_eq_false_iff.1 hbare
    · omega
  have hright : op.power.rank <
      (if b.bareRight op then b.power else Power.primary).rank := by
    split
    · rename_i hbare
      exact Power.below_iff.1 hbare
    · exact hprimary
  refine (ha.enclosed (a.bareLeft op)).extend (operatorTable_kind op) hleft (Nat.le_refl _) ?_
  intro d left hd hleft'
  refine parseBinary_reads sp hleft' (b.enclosed_ne_nil _) fun c rest hc hrest => ?_
  refine (hb.enclosed (b.bareRight op)).reads (b.enclosed_ne_nil _) hd (.inl hright) c rest hc ?_
  exact hrest.imp fun k hk => ⟨hk.mono (Nat.le_of_lt hright), hk⟩

/-- **An operator behind an operand**, which leaves a loose expression. -/
theorem Spine.behind {e₂ : Expr} {qk : Power} {x : Word} {tail : List Word} {rule : OperatorRule}
    (h : Spine e.words e e.power) (hx : Grammar.operatorTable x.1 = some (qk, rule))
    (step : ∀ d e', tail.length ≤ d → e.Like e' →
      (parseOperator .standard (parseWithin .standard d) rule qk e').Reads (x :: tail)
        Closed e₂.Like) : Spine (ClassLang.enclosed e.isAtom e.words ++ x :: tail) e₂ .lowest := by
  have hrank := operatorTable_rank hx
  refine h.operand.extend hx (Nat.le_of_lt hrank.2) (Nat.le_of_lt hrank.1) ?_
  intro d e' hd he' c rest hc hrest
  exact step d e' hd he' c rest hc (hrest.imp fun _ hk => hk.closes)

theorem parseMember_reads {e' : Expr} (sp : Span) (he : e.Like e') :
    (parseMember sub e').Reads [mark .dot, nameWord name] Closed (Expr.member e name sp).Like := by
  intro c rest hc hrest
  unfold parseMember
  refine advance_seq hc (List.cons_ne_nil _ _) fun _ c₁ _ hc₁ => ?_
  refine get_seq ?_
  have hnext : Next (· ≠ .openParen) rest := hrest.imp fun _ hk => Token.Kind.ne_of_closes hk rfl
  rw [if_neg (hc₁.peek_next hnext)]
  refine expect_seq hc₁ rfl hrest.ne_nil fun t c₂ ht hc₂ => Takes.pure hc₂ ?_
  show Expr.member e'.eraseSpans t.value .nowhere = .member e.eraseSpans name .nowhere
  rw [he, show t.value = name from congrArg Prod.snd ht]

theorem parseSend_reads {e' : Expr} (sp : Span) (he : e.Like e')
    (hargs : ∀ a ∈ args, (sub .lowest).Reads a.words Closed a.Like) :
    (parseMember sub e').Reads (mark .dot :: callWords name args) (· ≠ [])
      (Expr.send e name args sp).Like := by
  intro c rest hc hrest
  unfold parseMember
  refine advance_seq hc (List.cons_ne_nil _ _) fun _ c₁ _ hc₁ => ?_
  refine get_seq ?_
  rw [if_pos (show c₁.peek = .openParen from hc₁.peek)]
  have hcall := parseCall_reads name (some e') hargs fun a _ => a.words_next_ne rfl
  refine (hcall c₁ rest hc₁ hrest).imp ?_
  rintro a ⟨args', sp', rfl, hargs'⟩
  show Expr.send e'.eraseSpans name (eraseAll args') .nowhere =
    .send e.eraseSpans name (eraseAll args) .nowhere
  rw [he, hargs']

theorem parseIndex_reads {a' i : Expr} (sp : Span) (ha : a.Like a')
    (hi : (sub .lowest).Reads i.words Closed i.Like) :
    (parseIndex sub a').Reads (mark .openBracket :: (i.words ++ [mark .closeBracket])) (· ≠ [])
      (Expr.index a i sp).Like := by
  intro c rest hc hrest
  rw [List.cons_append, List.append_assoc] at hc
  unfold parseIndex
  refine advance_seq hc (fun h => i.words_ne_nil (List.append_eq_nil_iff.1 h).1)
    fun _ c₁ _ hc₁ => ?_
  refine (hi c₁ _ hc₁ (Next.cons rfl)).seq fun i' c₂ hc₂ hi' => ?_
  refine expect_seq hc₂ rfl hrest fun _ c₃ _ hc₃ => ?_
  refine spanFrom_seq fun sp' => Takes.pure hc₃ ?_
  show Expr.index a'.eraseSpans i'.eraseSpans .nowhere = .index a.eraseSpans i.eraseSpans .nowhere
  rw [ha, hi']

/-- A type ends where an expression ends. -/
theorem stops_of_closes {rest : List Word} (h : Closed rest) : TypeName.Stops rest := by
  obtain ⟨x, xs, rfl, hx⟩ := h
  exact ⟨x, xs, rfl, Token.Kind.operandTable_of_closes hx, Token.Kind.ne_of_closes hx rfl,
    fun heq => absurd heq (Token.Kind.ne_of_closes hx rfl)⟩

theorem parseCast_reads {e' : Expr} {type : TypeName} (sp : Span) (he : e.Like e') :
    (parseCast .standard e').Reads (mark .kwAs :: type.words) Closed
      (Expr.cast e type sp).Like := by
  intro c rest hc hrest
  unfold parseCast
  refine advance_seq hc (fun h => hrest.ne_nil (List.append_eq_nil_iff.1 h).2) fun _ c₁ _ hc₁ => ?_
  refine (type.parse_reads c₁ rest hc₁ (stops_of_closes hrest)).seq fun type' c₂ hc₂ htype => ?_
  refine spanFrom_seq fun sp' => Takes.pure hc₂ ?_
  show Expr.cast e'.eraseSpans type'.eraseSpans .nowhere =
    .cast e.eraseSpans type.eraseSpans .nowhere
  rw [he, htype]

/-! ## Prefixes and atoms -/

theorem parseUnary_reads {op : UnaryOp} (sp : Span) (hw : w ≠ [])
    (he : (sub .unary).Reads w Closed e.Like) :
    (parseUnary sub).Reads (mark op.kind :: w) Closed (Expr.unary op e sp).Like := by
  intro c rest hc hrest
  unfold parseUnary
  refine advance_seq hc (fun h => hw (List.append_eq_nil_iff.1 h).1) fun t c₁ ht hc₁ => ?_
  refine (he c₁ rest hc₁ hrest).seq fun e' c₂ hc₂ he' => Takes.pure hc₂ ?_
  have hop : (if t.kind = .kwNot then UnaryOp.not else UnaryOp.negate) = op := by
    rw [show t.kind = op.kind from congrArg Prod.fst ht]
    cases op <;> rfl
  show Expr.unary _ e'.eraseSpans .nowhere = .unary op e.eraseSpans .nowhere
  rw [hop, he']

theorem parseAddressOf_reads (sp : Span) (hw : w ≠ []) (he : (sub .unary).Reads w Closed e.Like) :
    (parseAddressOf sub).Reads (mark .ampersand :: w) Closed (Expr.addressOf e sp).Like := by
  intro c rest hc hrest
  unfold parseAddressOf
  refine advance_seq hc (fun h => hw (List.append_eq_nil_iff.1 h).1) fun t c₁ ht hc₁ => ?_
  refine (he c₁ rest hc₁ hrest).seq fun e' c₂ hc₂ he' => ?_
  refine spanFrom_seq fun sp' => Takes.pure hc₂ ?_
  show Expr.addressOf e'.eraseSpans .nowhere = .addressOf e.eraseSpans .nowhere
  rw [he']

theorem parseArrayNew_reads {type : TypeName} (sp : Span)
    (he : (sub .lowest).Reads e.words Closed e.Like) :
    (parseArrayNew .standard sub).Reads (Expr.arrayNew type e sp).words (· ≠ [])
      (Expr.arrayNew type e sp).Like := by
  intro c rest hc hrest
  rw [words, List.cons_append, List.append_assoc, List.cons_append, List.append_assoc] at hc
  unfold parseArrayNew
  refine advance_seq hc (fun h => List.cons_ne_nil _ _ (List.append_eq_nil_iff.1 h).2)
    fun t c₁ ht hc₁ => ?_
  -- the bracket behind the type is not closed at once
  have hsize : Next (· ≠ .closeBracket) (e.words ++ ([mark .closeBracket] ++ rest)) :=
    (e.words_next_ne rfl).append _
  refine (type.parse_reads c₁ _ hc₁ ⟨_, _, rfl, rfl, by decide, fun _ => hsize⟩).seq
    fun type' c₂ hc₂ htype => ?_
  refine expect_seq hc₂ rfl hsize.ne_nil fun _ c₃ _ hc₃ => ?_
  refine (he c₃ _ hc₃ (Next.cons rfl)).seq fun e' c₄ hc₄ he' => ?_
  refine expect_seq hc₄ rfl hrest fun _ c₅ _ hc₅ => ?_
  refine spanFrom_seq fun sp' => Takes.pure hc₅ ?_
  show Expr.arrayNew type'.eraseSpans e'.eraseSpans .nowhere =
    .arrayNew type.eraseSpans e.eraseSpans .nowhere
  rw [htype, he']

/-- An atom of one word. -/
theorem Spine.of_primary {x : Word} (hx : Grammar.operandTable x.1 = some .primary)
    (h : ∀ sub c rest, c.Shows (x :: rest) → Next (Follows .primary) rest →
      (parsePrimary sub).Takes c rest e.Like) : Spine [x] e .primary :=
  Spine.of_operand .primary hx fun _ _ c rest hc hrest => h _ c rest hc hrest

theorem parseSymbol_takes {c : Cursor} {rest : List Word} (sp : Span)
    (hc : c.Shows (nameWord name :: rest)) (hrest : Next (Follows .primary) rest) :
    (parsePrimary sub).Takes c rest (Expr.symbol name sp).Like := by
  unfold parsePrimary
  refine kind_seq ?_
  rw [show c.current.kind = .identifier from hc.kind]
  refine get_seq ?_
  rw [if_neg (hc.peek_next (hrest.imp fun _ hk => hk.ne_openParen))]
  refine advance_seq hc hrest.ne_nil fun t c₁ ht hc₁ => Takes.pure hc₁ ?_
  show Expr.symbol t.value .nowhere = .symbol name .nowhere
  rw [show t.value = name from congrArg Prod.snd ht]

theorem parseCallOperand_reads (sp : Span)
    (hargs : ∀ a ∈ args, (sub .lowest).Reads a.words Closed a.Like) :
    (parsePrimary sub).Reads (callWords name args) (· ≠ []) (Expr.call name args sp).Like := by
  intro c rest hc hrest
  unfold parsePrimary
  refine kind_seq ?_
  rw [show c.current.kind = .identifier from hc.kind]
  refine get_seq ?_
  rw [if_pos (show c.peek = .openParen from hc.peek)]
  have hcall := parseCall_reads name none hargs fun a _ => a.words_next_ne rfl
  refine (hcall c rest hc hrest).imp ?_
  rintro a ⟨args', sp', rfl, hargs'⟩
  show Expr.call name (eraseAll args') .nowhere = .call name (eraseAll args) .nowhere
  rw [hargs']

/-! ## Words of the parts -/

/-- All numbers among the words are small enough to be read. -/
def Writable (w : List Word) : Prop := ∀ n, numberWord n ∈ w → n ≤ greatestNumber

theorem Writable.mono {v : List Word} (h : Writable w) (hsub : v ⊆ w) : Writable v :=
  fun n hn => h n (hsub hn)

theorem subset_enclosed (bare : Bool) (w : List Word) : w ⊆ ClassLang.enclosed bare w := by
  cases bare with
  | true => exact fun x hx => hx
  | false => exact fun x hx => List.mem_cons_of_mem _ (List.mem_append_left _ hx)

theorem subset_commaSeparated {ws : List (List Word)} (h : w ∈ ws) : w ⊆ commaSeparated ws := by
  induction ws with
  | nil => cases h
  | cons v vs ih =>
    rw [commaSeparated_cons]
    rcases List.mem_cons.1 h with rfl | h
    · exact List.subset_append_left _ _
    · cases vs with
      | nil => cases h
      | cons v' vs => exact fun x hx => List.mem_append_right _ (List.mem_cons_of_mem _ (ih h hx))

theorem length_le_commaSeparated {ws : List (List Word)} (h : w ∈ ws) :
    w.length ≤ (commaSeparated ws).length := by
  induction ws with
  | nil => cases h
  | cons v vs ih =>
    rw [commaSeparated_cons, List.length_append]
    rcases List.mem_cons.1 h with rfl | h
    · exact Nat.le_add_right _ _
    · cases vs with
      | nil => cases h
      | cons v' vs =>
        have hle := ih h
        rw [List.length_cons]
        omega

/-- The words of an argument are among those of the call, and fewer. -/
theorem words_arg (name : String) (ha : a ∈ args) :
    a.words ⊆ callWords name args ∧ a.words.length + 2 ≤ (callWords name args).length := by
  have hmem : a.words ∈ wordsAll args := by
    rw [wordsAll_eq_map]
    exact List.mem_map_of_mem ha
  have hle := length_le_commaSeparated hmem
  unfold callWords
  refine ⟨fun x hx => ?_, ?_⟩
  · refine List.mem_cons_of_mem _ (List.mem_cons_of_mem _ (List.mem_append_left _ ?_))
    exact subset_commaSeparated hmem hx
  · rw [List.length_cons, List.length_cons, List.length_append]
    omega

/-- The arguments of a call, if each of them is a spine. -/
theorem reads_args (name : String) (h : ∀ a ∈ args, Spine a.words a a.power) {d : Nat}
    (hd : (callWords name args).length ≤ d + 1) :
    ∀ a ∈ args, (parseWithin .standard d .lowest).Reads a.words Closed a.Like := by
  intro a ha
  have hlen := (words_arg name ha).2
  exact (h a ha).reads_closed a.words_ne_nil (by omega)

/-! ## Node by node -/

section

variable {e a i : Expr} {args : List Expr} {name : String} {type : TypeName} {sp : Span}

theorem Spine.number {n : Nat} (hn : n ≤ greatestNumber) :
    Spine (Expr.number n sp).words (.number n sp) .primary := by
  rw [words]
  refine Spine.of_primary rfl fun sub c rest hc hrest => ?_
  unfold parsePrimary
  refine kind_seq ?_
  rw [show c.current.kind = .number from hc.kind]
  exact parseNumber_reads hn sp c rest hc hrest.ne_nil

theorem Spine.boolean (b : Bool) : Spine (Expr.boolean b sp).words (.boolean b sp) .primary := by
  rw [words]
  refine Spine.of_primary (by cases b <;> rfl) fun sub c rest hc hrest => ?_
  unfold parsePrimary
  refine kind_seq ?_
  rw [hc.kind]
  cases b with
  | true | false => exact advance_seq hc hrest.ne_nil fun t c₁ _ hc₁ => Takes.pure hc₁ rfl

theorem Spine.symbol : Spine (Expr.symbol name sp).words (.symbol name sp) .primary := by
  rw [words]
  exact Spine.of_primary rfl fun sub c rest hc hrest => parseSymbol_takes sp hc hrest

theorem Spine.receiver : Spine (Expr.this sp).words (.this sp) .primary := by
  rw [words]
  refine Spine.of_primary rfl fun sub c rest hc hrest => ?_
  unfold parsePrimary
  refine kind_seq ?_
  rw [hc.kind]
  exact advance_seq hc hrest.ne_nil fun t c₁ _ hc₁ => Takes.pure hc₁ rfl

theorem Spine.call (hargs : ∀ a ∈ args, Spine a.words a a.power) :
    Spine (Expr.call name args sp).words (.call name args sp) .primary := by
  rw [words]
  refine Spine.of_operand .primary rfl fun d hd c rest hc hrest => ?_
  exact parseCallOperand_reads sp (reads_args name hargs (Nat.succ_le_succ hd)) c rest hc
    hrest.ne_nil

theorem Spine.send (he : Spine e.words e e.power) (hargs : ∀ a ∈ args, Spine a.words a a.power) :
    Spine (Expr.send e name args sp).words (.send e name args sp) .lowest := by
  rw [words]
  refine he.behind rfl fun d e' hd he' c rest hc hrest => ?_
  exact parseSend_reads sp he' (reads_args name hargs (Nat.le_succ_of_le hd)) c rest hc hrest.ne_nil

theorem Spine.member (he : Spine e.words e e.power) :
    Spine (Expr.member e name sp).words (.member e name sp) .lowest := by
  rw [words]
  exact he.behind rfl fun d e' _ he' => parseMember_reads sp he'

/-- A prefix reaches over its operand only, so the whole is followed by what ends an expression. -/
theorem Spine.unary {op : UnaryOp} (he : Spine e.words e e.power) :
    Spine (Expr.unary op e sp).words (.unary op e sp) .lowest := by
  rw [words]
  refine Spine.of_operand .unary (by cases op <;> rfl) fun d hd c rest hc hrest => ?_
  exact parseUnary_reads sp (e.enclosed_ne_nil _) (he.reads_operand hd) c rest hc
    (hrest.imp fun _ hk => hk.closes)

theorem Spine.addressOf (he : Spine e.words e e.power) :
    Spine (Expr.addressOf e sp).words (.addressOf e sp) .lowest := by
  rw [words]
  refine Spine.of_operand .addressOf rfl fun d hd c rest hc hrest => ?_
  exact parseAddressOf_reads sp (e.enclosed_ne_nil _) (he.reads_operand hd) c rest hc
    (hrest.imp fun _ hk => hk.closes)

theorem Spine.arrayNew (he : Spine e.words e e.power) :
    Spine (Expr.arrayNew type e sp).words (.arrayNew type e sp) .lowest := by
  have hread : ∀ d, (Expr.arrayNew type e sp).words.length ≤ d + 1 →
      (parseArrayNew .standard (parseWithin .standard d)).Reads (Expr.arrayNew type e sp).words
        (Next (Follows .lowest)) (Expr.arrayNew type e sp).Like := by
    intro d hd c rest hc hrest
    rw [words, List.length_cons, List.length_append, List.length_cons, List.length_append] at hd
    exact parseArrayNew_reads sp (he.reads_closed e.words_ne_nil (by omega)) c rest hc hrest.ne_nil
  rw [words] at *
  exact Spine.of_operand .arrayNew rfl fun d hd => hread d (Nat.succ_le_succ hd)

theorem Spine.cast (he : Spine e.words e e.power) :
    Spine (Expr.cast e type sp).words (.cast e type sp) .lowest := by
  rw [words]
  exact he.behind rfl fun d e' _ he' => parseCast_reads sp he'

theorem Spine.index (ha : Spine a.words a a.power) (hi : Spine i.words i i.power) :
    Spine (Expr.index a i sp).words (.index a i sp) .lowest := by
  rw [words]
  refine ha.behind rfl fun d a' hd ha' c rest hc hrest => ?_
  rw [List.length_append] at hd
  exact parseIndex_reads sp ha' (hi.reads_closed i.words_ne_nil (by omega)) c rest hc hrest.ne_nil

end

/-! ## All expressions -/

mutual

/-- **The words of every expression are a spine**, if the numbers among them can be read: those in a
part of an expression are among those in the whole. -/
theorem spine : (e : Expr) → Writable e.words → Spine e.words e e.power
  | .number n _, hn => .number (by rw [words] at hn; exact hn n List.mem_cons_self)
  | .boolean b _, _ => .boolean b
  | .symbol _ _, _ => .symbol
  | .this _, _ => .receiver
  | .call name args _, hn => by
    rw [words] at hn
    exact .call (spineAll args fun a ha => hn.mono (words_arg name ha).1)
  | .send e name args _, hn => by
    rw [words] at hn
    have he := spine e (hn.mono fun x hx => List.mem_append_left _ (subset_enclosed _ _ hx))
    have hargs := spineAll args fun a ha => hn.mono fun x hx =>
      List.mem_append_right _ (List.mem_cons_of_mem _ ((words_arg name ha).1 hx))
    exact he.send hargs
  | .member e _ _, hn => by
    rw [words] at hn
    exact (spine e (hn.mono fun x hx => List.mem_append_left _ (subset_enclosed _ _ hx))).member
  | .binary _ a b sp, hn => by
    rw [words] at hn
    have ha := spine a (hn.mono fun x hx => List.mem_append_left _ (subset_enclosed _ _ hx))
    have hb := spine b (hn.mono fun x hx =>
      List.mem_append_right _ (List.mem_cons_of_mem _ (subset_enclosed _ _ hx)))
    exact ha.binary sp hb
  | .unary _ e _, hn => by
    rw [words] at hn
    exact (spine e (hn.mono fun x hx => List.mem_cons_of_mem _ (subset_enclosed _ _ hx))).unary
  | .addressOf e _, hn => by
    rw [words] at hn
    exact (spine e (hn.mono fun x hx => List.mem_cons_of_mem _ (subset_enclosed _ _ hx))).addressOf
  | .arrayNew _ size _, hn => by
    rw [words] at hn
    exact (spine size (hn.mono fun x hx => List.mem_cons_of_mem _
      (List.mem_append_right _ (List.mem_cons_of_mem _ (List.mem_append_left _ hx))))).arrayNew
  | .cast e _ _, hn => by
    rw [words] at hn
    exact (spine e (hn.mono fun x hx => List.mem_append_left _ (subset_enclosed _ _ hx))).cast
  | .index a i _, hn => by
    rw [words] at hn
    have ha := spine a (hn.mono fun x hx => List.mem_append_left _ (subset_enclosed _ _ hx))
    have hi := spine i (hn.mono fun x hx =>
      List.mem_append_right _ (List.mem_cons_of_mem _ (List.mem_append_left _ hx)))
    exact ha.index hi

/-- So are the words of some expressions. -/
theorem spineAll : (es : List Expr) → (∀ a ∈ es, Writable a.words) →
    ∀ a ∈ es, Spine a.words a a.power
  | [], _ => nofun
  | e :: es, hn => by
    intro a ha
    rcases List.mem_cons.1 ha with heq | ha
    · rw [heq]
      exact spine e (hn e List.mem_cons_self)
    · exact spineAll es (fun b hb => hn b (List.mem_cons_of_mem _ hb)) a ha

end

/-- **Expressions are read back.** -/
theorem parse_reads (hn : Writable e.words) :
    (parse .standard .lowest).Reads e.words Closed e.Like :=
  within_reads fun _ hd => (spine e hn).reads_closed e.words_ne_nil (Nat.le_of_lt hd)

end Expr

end ClassLang
