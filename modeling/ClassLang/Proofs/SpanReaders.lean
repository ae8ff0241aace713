import ClassLang.Proofs.SpanRows

/-!
# Readers draw their spans in rows

Some spans run from a token to the one read last, some from one operand to another, and those of
blocks end where the next token starts; an expression in parentheses has a span without them. In all
of these cases the parts of a node have been read one after the other, so they stand in a row from the
start of the node to its end.

* `TypeName.parse_lays`, `Expr.parse_lays`: types and expressions, whose suffixes and operators are
  drawn around what was read before them.
* `Stmt.parse_lays`: statements, level by level of the blocks they are in.
* `MethodDecl.parse_lays`, `ClassDecl.parse_lays`, `Decl.parse_lays`: declarations.
-/

namespace ClassLang

open Parse

variable {g : Grammar}

/-! ## Types -/

namespace TypeName

variable {type : TypeName} {c : Cursor} {p : Position}

theorem parseArray_row (h : c.RightBehind p [type.outline]) :
    Gives (parseArray type) c (fun t c' => c'.RightBehind p [t.outline]) := by
  obtain ⟨hp, h₀⟩ := h.head
  rw [span_outline] at hp h₀
  unfold parseArray
  refine expect_row h₀.behind fun c₁ _ h₁ => expect_row h₁.behind fun c₂ _ h₂ => ?_
  exact spanFrom_row (Leads.pure (h₂.enclose.since hp))

theorem parsePointer_row (h : c.RightBehind p [type.outline]) :
    Gives (parsePointer type) c (fun t c' => c'.RightBehind p [t.outline]) := by
  obtain ⟨hp, h₀⟩ := h.head
  rw [span_outline] at hp h₀
  unfold parsePointer
  refine expect_row h₀.behind fun c₁ _ h₁ => ?_
  exact spanFrom_row (Leads.pure (h₁.enclose.since hp))

/-- Suffix after suffix, the type read so far starts where it started. -/
theorem parseSuffixes_row {power : Power} (n : Nat) (h : c.RightBehind p [type.outline]) :
    Gives (parseSuffixes g power n type) c (fun t c' => c'.RightBehind p [t.outline]) := by
  induction n generalizing type c with
  | zero => trivial
  | succ n ih =>
    unfold parseSuffixes
    refine Leads.get_seq ?_
    split
    · exact Leads.pure h
    · exact (parseArray_row h).seq fun t c' h' => ih h'
    · exact (parsePointer_row h).seq fun t c' h' => ih h'

/-- **Types.** -/
theorem parse_lays {power : Power} : (parse g power).Lays fun t => [t.outline] := by
  intro c hc
  unfold parse
  refine kind_leads ?_
  split
  · have hnamed : Gives parseNamed c (fun t c' => c'.RightBehind c.position [t.outline]) := by
      unfold parseNamed
      exact expect_row hc.start fun c₁ hend h₁ => Leads.pure (h₁.token hend)
    refine hnamed.seq fun t c₁ h₁ => ?_
    exact within_leads (parseSuffixes_row _ h₁)
  · exact unexpected_leads

end TypeName

/-! ## Expressions -/

namespace Expr

section

variable {sub : Power → Parse Expr} (hsub : ∀ power, (sub power).Lays fun e => [e.outline])

theorem parseNumber_lays : parseNumber.Lays fun e => [e.outline] := by
  intro c hc
  unfold parseNumber
  refine advance_row hc.start fun c₁ hend h₁ => ?_
  split
  · exact Leads.pure (h₁.token hend)
  · trivial

include hsub

/-- The arguments of a call stand behind its name, and behind its target if there is one. -/
theorem parseCall_row {target : Option Expr} {c : Cursor}
    (h : c.Behind ((target.map Expr.span).elim c.position Span.start)
      (target.toList.map Expr.outline)) :
    Gives (parseCall sub target) c (fun e c' =>
      c'.RightBehind ((target.map Expr.span).elim c.position Span.start) [e.outline]) := by
  unfold parseCall
  refine expect_row h fun c₁ _ h₁ => expect_row h₁.behind fun c₂ _ h₂ => ?_
  refine (within_fills (listed_fills (hsub .lowest))).seq h₂.behind fun args c₃ h₃ => ?_
  rw [← outlines_eq args] at h₃
  refine expect_row h₃ fun c₄ _ h₄ => ?_
  cases target with
  | none | some e => exact spanFrom_row (Leads.pure h₄.enclose)

theorem parsePrimary_lays : (parsePrimary sub).Lays fun e => [e.outline] := by
  intro c hc
  unfold parsePrimary
  refine kind_leads ?_
  split
  · exact parseNumber_lays c hc
  · refine Leads.get_seq ?_
    split
    · exact parseCall_row hsub hc.start
    · exact advance_row hc.start fun c₁ hend h₁ => Leads.pure (h₁.token hend)
  · exact advance_row hc.start fun c₁ hend h₁ => Leads.pure (h₁.token hend)
  · exact advance_row hc.start fun c₁ hend h₁ => Leads.pure (h₁.token hend)
  · exact advance_row hc.start fun c₁ hend h₁ => Leads.pure (h₁.token hend)
  · exact unexpected_leads

/-- **An operand**, by its rule. Parentheses are read, but the span of what is in them stays. -/
theorem parseOperand_lays (rule : OperandRule) :
    (parseOperand g sub rule).Lays fun e => [e.outline] := by
  intro c hc
  cases rule with
  | primary => exact parsePrimary_lays hsub c hc
  | unary =>
    show Leads (parseUnary sub) c _ _
    unfold parseUnary
    refine advance_row hc.start fun c₁ _ h₁ => ?_
    refine (hsub .unary).seq h₁.behind fun e c₂ h₂ => Leads.pure ?_
    have hnode := h₂.encloseLast
    rw [span_outline] at hnode
    exact hnode
  | addressOf =>
    show Leads (parseAddressOf sub) c _ _
    unfold parseAddressOf
    refine advance_row hc.start fun c₁ _ h₁ => ?_
    refine (hsub .unary).seq h₁.behind fun e c₂ h₂ => ?_
    exact spanFrom_row (Leads.pure h₂.enclose)
  | grouping =>
    show Leads (parseGrouping sub) c _ _
    unfold parseGrouping
    refine advance_row hc.start fun c₁ _ h₁ => ?_
    refine (hsub .lowest).seq h₁.behind fun e c₂ h₂ => ?_
    exact expect_row h₂.behind fun c₃ _ h₃ => Leads.pure h₃
  | arrayNew =>
    show Leads (parseArrayNew g sub) c _ _
    unfold parseArrayNew
    refine advance_row hc.start fun c₁ _ h₁ => ?_
    refine TypeName.parse_lays.seq h₁.behind fun element c₂ h₂ => ?_
    refine expect_row h₂.behind fun c₃ _ h₃ => ?_
    refine (hsub .lowest).seq h₃.behind fun size c₄ h₄ => ?_
    refine expect_row h₄.behind fun c₅ _ h₅ => ?_
    exact spanFrom_row (Leads.pure h₅.enclose)

/-- **What follows an expression**, by its rule. The node starts where the expression does, which
may be behind a parenthesis. -/
theorem parseOperator_row (rule : OperatorRule) (power : Power) {e : Expr} {c : Cursor}
    {p : Position} (h : c.RightBehind p [e.outline]) :
    Gives (parseOperator g sub rule power e) c (fun e' c' => c'.RightBehind p [e'.outline]) := by
  -- what comes next stands right behind the left operand, whose start is `p`
  obtain ⟨hp, h₀⟩ := h.head
  rw [span_outline] at hp h₀
  cases rule with
  | binary =>
    show Leads (parseBinary sub power e) c _ _
    unfold parseBinary
    refine kind_leads ?_
    split
    · exact unexpected_leads
    · refine advance_row h₀.behind fun c₁ _ h₁ => ?_
      refine (hsub power).seq h₁.behind fun right c₂ h₂ => Leads.pure ?_
      have hnode := h₂.encloseLast
      rw [span_outline] at hnode
      exact hnode.since hp
  | cast =>
    show Leads (parseCast g e) c _ _
    unfold parseCast
    refine advance_row h₀.behind fun c₁ _ h₁ => ?_
    refine TypeName.parse_lays.seq h₁.behind fun type c₂ h₂ => ?_
    exact spanFrom_row (Leads.pure (h₂.enclose.since hp))
  | member =>
    show Leads (parseMember sub e) c _ _
    unfold parseMember
    refine advance_row h₀.behind fun c₁ _ h₁ => Leads.get_seq ?_
    split
    · have hcall : Leads (parseCall sub (some e)) c₁ _ _ := parseCall_row hsub h₁.behind
      exact hcall.imp (fun e' c' h' => h'.since hp) fun _ h' => h'
    · refine expect_row h₁.behind fun c₂ hend h₂ => Leads.pure ?_
      have hspan : e.span.through c₁.current.span = c₂.spanFrom e.span.start := by
        rw [Span.through, Cursor.spanFrom, hend]
      show c₂.RightBehind p [.node (e.span.through c₁.current.span) [e.outline]]
      rw [hspan]
      exact h₂.enclose.since hp
  | index =>
    show Leads (parseIndex sub e) c _ _
    unfold parseIndex
    refine advance_row h₀.behind fun c₁ _ h₁ => ?_
    refine (hsub .lowest).seq h₁.behind fun position c₂ h₂ => ?_
    refine expect_row h₂.behind fun c₃ _ h₃ => ?_
    exact spanFrom_row (Leads.pure (h₃.enclose.since hp))

/-- Operator after operator, what was read so far is one outline. -/
theorem parseOperators_row {power : Power} (n : Nat) {e : Expr} {c : Cursor} {p : Position}
    (h : c.RightBehind p [e.outline]) :
    Gives (parseOperators g sub power n e) c (fun e' c' => c'.RightBehind p [e'.outline]) := by
  induction n generalizing e c with
  | zero => trivial
  | succ n ih =>
    unfold parseOperators
    refine kind_leads ?_
    split
    · exact Leads.pure h
    · exact (parseOperator_row hsub _ _ h).seq fun e' c' h' => ih h'

end

/-- **Expressions**, by the depth to which they are nested. -/
theorem parseWithin_lays (depth : Nat) :
    ∀ power, (parseWithin g depth power).Lays fun e => [e.outline] := by
  induction depth with
  | zero => intro power c _; trivial
  | succ depth ih =>
    intro power c hc
    unfold parseWithin
    refine kind_leads ?_
    split
    · exact unexpected_leads
    · refine (parseOperand_lays ih _ c hc).seq fun e c₁ h₁ => ?_
      exact within_leads (parseOperators_row ih _ h₁)

theorem parse_lays {power : Power} : (parse g power).Lays fun e => [e.outline] :=
  within_lays fun depth => parseWithin_lays depth power

end Expr

/-! ## Statements -/

namespace Block

variable {stmt : Parse Stmt}

/-- A block fills the place from its first token to the token that ends it, and may be empty. -/
theorem parseUntil_fills (hstmt : stmt.Lays fun s => [s.outline]) (ends : List Token.Kind) :
    (parseUntil stmt ends).Fills fun b => [b.outline] := by
  intro c hc
  unfold parseUntil
  refine Leads.get_seq ?_
  have hbody := within_fills (many_fills (goesOn_leads ends) hstmt)
  refine hbody.seq hc.start fun body c₁ h₁ => Leads.get_seq (Leads.pure ?_)
  rw [← Stmt.outlines_eq] at h₁
  exact ⟨h₁.ordered, h₁.row.enclose⟩

theorem parseDo_lays (hstmt : stmt.Lays fun s => [s.outline]) :
    (parseDo stmt).Lays fun b => [b.outline] := by
  intro c hc
  unfold parseDo
  refine expect_row hc.start fun c₁ _ h₁ => ?_
  refine (parseUntil_fills hstmt _).seq h₁.behind fun b c₂ h₂ => ?_
  exact expect_row h₂ fun c₃ _ h₃ => Leads.pure h₃

end Block

namespace Stmt

theorem parseName_row {c : Cursor} {p : Position} {os : List Outline} (h : c.Behind p os) :
    Gives parseName c (fun _ c' => c'.RightBehind p os) := by
  unfold parseName
  refine kind_leads ?_
  split
  · exact h.next
  · exact unexpected_leads

theorem parseInitial_fills : (parseInitial g).Fills fun e => e.toList.map Expr.outline := by
  intro c hc
  unfold parseInitial
  refine kind_leads ?_
  split
  · refine advance_row hc.start fun c₁ _ h₁ => ?_
    have hvalue : (some <$> Expr.parse g .lowest).Lays fun e => e.toList.map Expr.outline :=
      Lays.map Expr.parse_lays
    exact hvalue.after h₁
  · exact Leads.pure hc.start

theorem parseVarDecl_lays : (parseVarDecl g).Lays fun s => [s.outline] := by
  intro c hc
  unfold parseVarDecl
  refine advance_row hc.start fun c₁ _ h₁ => ?_
  refine (parseName_row h₁.behind).seq fun name c₂ h₂ => ?_
  refine expect_row h₂.behind fun c₃ _ h₃ => ?_
  refine TypeName.parse_lays.seq h₃.behind fun type c₄ h₄ => ?_
  refine parseInitial_fills.seq h₄.behind fun value c₅ h₅ => ?_
  refine expect_row h₅ fun c₆ _ h₆ => ?_
  exact spanFrom_row (Leads.pure h₆.enclose)

theorem parseValue_fills : (parseValue g).Fills fun e => e.toList.map Expr.outline := by
  intro c hc
  unfold parseValue
  refine kind_leads ?_
  split
  · exact Leads.pure hc.start
  · exact (Lays.map Expr.parse_lays).fills c hc

theorem parseReturn_lays : (parseReturn g).Lays fun s => [s.outline] := by
  intro c hc
  unfold parseReturn
  refine advance_row hc.start fun c₁ _ h₁ => ?_
  refine parseValue_fills.seq h₁.behind fun value c₂ h₂ => ?_
  refine expect_row h₂ fun c₃ _ h₃ => ?_
  exact spanFrom_row (Leads.pure h₃.enclose)

/-- An expression or an assignment starts where its first expression does. -/
theorem parseSimple_lays : (parseSimple g).Lays fun s => [s.outline] := by
  intro c hc
  unfold parseSimple
  refine Expr.parse_lays.seq hc.start fun e c₁ h₁ => kind_leads ?_
  obtain ⟨hp, h₀⟩ := h₁.head
  rw [Expr.span_outline] at hp h₀
  split
  · refine advance_row h₀.behind fun c₂ _ h₂ => ?_
    refine Expr.parse_lays.seq h₂.behind fun value c₃ h₃ => ?_
    refine expect_row h₃.behind fun c₄ _ h₄ => ?_
    exact spanFrom_row (Leads.pure (h₄.enclose.since hp))
  · refine expect_row h₀.behind fun c₂ _ h₂ => ?_
    exact spanFrom_row (Leads.pure (h₂.enclose.since hp))

section

variable {stmt : Parse Stmt} (hstmt : stmt.Lays fun s => [s.outline])

include hstmt

theorem parseIf_lays : (parseIf g stmt).Lays fun s => [s.outline] := by
  intro c hc
  unfold parseIf
  refine advance_row hc.start fun c₁ _ h₁ => ?_
  refine Expr.parse_lays.seq h₁.behind fun condition c₂ h₂ => ?_
  refine expect_row h₂.behind fun c₃ _ h₃ => ?_
  refine (Block.parseUntil_fills hstmt _).seq h₃.behind fun yes c₄ h₄ => kind_leads ?_
  split
  · refine advance_row h₄ fun c₅ _ h₅ => ?_
    refine (Block.parseUntil_fills hstmt _).seq h₅.behind fun no c₆ h₆ => ?_
    refine expect_row h₆ fun c₇ _ h₇ => ?_
    exact spanFrom_row (Leads.pure h₇.enclose)
  · refine expect_row h₄ fun c₅ _ h₅ => ?_
    exact spanFrom_row (Leads.pure h₅.enclose)

theorem parseWhile_lays : (parseWhile g stmt).Lays fun s => [s.outline] := by
  intro c hc
  unfold parseWhile
  refine advance_row hc.start fun c₁ _ h₁ => ?_
  refine Expr.parse_lays.seq h₁.behind fun condition c₂ h₂ => ?_
  refine (Block.parseDo_lays hstmt).seq h₂.behind fun body c₃ h₃ => ?_
  exact spanFrom_row (Leads.pure h₃.enclose)

/-- A block that stands as a statement gets a span that holds both words. -/
theorem parseNested_lays : (parseNested stmt).Lays fun s => [s.outline] := by
  intro c hc
  unfold parseNested
  refine Leads.get_seq ?_
  refine (Block.parseDo_lays hstmt).seq hc.start fun block c₁ h₁ => spanFrom_row (Leads.pure ?_)
  obtain ⟨body, span⟩ := block
  have hbody : c₁.RightBehind c.position (outlines body) := ⟨h₁.ordered, h₁.row.disclose⟩
  exact hbody.enclose

end

/-- **Statements**, by the depth to which they are nested. -/
theorem parseWithin_lays (depth : Nat) : (parseWithin g depth).Lays fun s => [s.outline] := by
  induction depth with
  | zero => intro c _; trivial
  | succ depth ih =>
    intro c hc
    unfold parseWithin
    refine kind_leads ?_
    cases g.stmt c.current.kind with
    | none => exact parseSimple_lays c hc
    | some rule =>
      cases rule with
      | varDecl => exact parseVarDecl_lays c hc
      | ifThen => exact parseIf_lays ih c hc
      | whileDo => exact parseWhile_lays ih c hc
      | nested => exact parseNested_lays ih c hc
      | ret => exact parseReturn_lays c hc
      | any => exact ih c hc

theorem parse_lays : (parse g).Lays fun s => [s.outline] := within_lays parseWithin_lays

end Stmt

/-! ## Declarations -/

theorem ArgumentDecl.parse_lays : (parse g).Lays fun a => [a.outline] := by
  intro c hc
  unfold parse
  refine expect_row hc.start fun c₁ _ h₁ => expect_row h₁.behind fun c₂ _ h₂ => ?_
  refine TypeName.parse_lays.seq h₂.behind fun type c₃ h₃ => ?_
  exact spanFrom_row (Leads.pure h₃.enclose)

theorem FieldDecl.parse_lays : (parse g).Lays fun f => [f.outline] := by
  intro c hc
  unfold parse
  refine expect_row hc.start fun c₁ _ h₁ => expect_row h₁.behind fun c₂ _ h₂ => ?_
  refine TypeName.parse_lays.seq h₂.behind fun type c₃ h₃ => ?_
  refine expect_row h₃.behind fun c₄ _ h₄ => ?_
  exact spanFrom_row (Leads.pure h₄.enclose)

namespace MethodDecl

theorem parseArguments_lays : (parseArguments g).Lays fun as => as.map ArgumentDecl.outline := by
  intro c hc
  unfold parseArguments
  refine expect_row hc.start fun c₁ _ h₁ => ?_
  refine (within_fills (listed_fills ArgumentDecl.parse_lays)).seq h₁.behind fun as c₂ h₂ => ?_
  exact expect_row h₂ fun c₃ _ h₃ => Leads.pure h₃

theorem parseResult_fills : (parseResult g).Fills fun t => t.toList.map TypeName.outline := by
  intro c hc
  unfold parseResult
  refine kind_leads ?_
  split
  · refine advance_row hc.start fun c₁ _ h₁ => ?_
    have htype : (some <$> TypeName.parse g .lowest).Lays fun t => t.toList.map TypeName.outline :=
      Lays.map TypeName.parse_lays
    exact htype.after h₁
  · exact Leads.pure hc.start

theorem parseBody_lays : (parseBody g).Lays fun b => b.toList.map Block.outline := by
  intro c hc
  unfold parseBody
  refine kind_leads ?_
  split
  · have hblock :
        (some <$> Block.parseDo (Stmt.parse g)).Lays fun b => b.toList.map Block.outline :=
      Lays.map (Block.parseDo_lays Stmt.parse_lays)
    exact hblock c hc
  · exact advance_row hc.start fun c₁ _ h₁ => Leads.pure h₁
  · exact unexpected_leads

/-- **Methods.** -/
theorem parse_lays : (parse g).Lays fun m => [m.outline] := by
  intro c hc
  unfold parse
  refine expect_row hc.start fun c₁ _ h₁ => ?_
  refine parseArguments_lays.seq h₁.behind fun arguments c₂ h₂ => ?_
  refine parseResult_fills.seq h₂.behind fun result c₃ h₃ => ?_
  refine parseBody_lays.seq h₃ fun body c₄ h₄ => ?_
  exact spanFrom_row (Leads.pure h₄.enclose)

end MethodDecl

theorem Feature.parse_lays : (parse g).Lays fun f => [f.outline] := by
  intro c hc
  unfold parse
  refine kind_leads ?_
  split
  · refine Leads.get_seq ?_
    split
    · exact Leads.map (FieldDecl.parse_lays c hc)
    · exact Leads.map (MethodDecl.parse_lays c hc)
    · exact advance_row hc.start fun c₁ _ _ => unexpected_leads
  · exact unexpected_leads

/-- **Classes.** -/
theorem ClassDecl.parse_lays : (parse g).Lays fun d => [d.outline] := by
  intro c hc
  have hgoes : ∀ c, Gives goesOn c (fun _ c' => c' = c) :=
    fun c => kind_leads (Leads.pure rfl)
  unfold parse
  refine expect_row hc.start fun c₁ _ h₁ => expect_row h₁.behind fun c₂ _ h₂ => ?_
  refine (within_fills (many_fills hgoes Feature.parse_lays)).seq h₂.behind
    fun features c₃ h₃ => ?_
  refine expect_row h₃ fun c₄ _ h₄ => ?_
  exact spanFrom_row (Leads.pure h₄.enclose)

theorem Decl.parse_lays : (parse g).Lays fun d => [d.outline] := by
  intro c hc
  unfold parse
  refine kind_leads ?_
  split
  · exact Leads.map (ClassDecl.parse_lays c hc)
  · exact Leads.map (MethodDecl.parse_lays c hc)
  · exact unexpected_leads

end ClassLang
