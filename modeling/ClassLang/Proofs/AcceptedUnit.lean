import ClassLang.Proofs.AcceptedExpr

/-!
# Texts that are accepted are derived

Statements and declarations follow the grammar token by token, and repetitions go on up to the token
that ends them. A whole text is read up to its end, so no token of it is lost:
`CompilationUnit.derives_of_ofTokens`.
-/

namespace ClassLang

open Parse

/-! ## Statements -/

namespace Block

theorem goesOn_leads (ends : List Token.Kind) (c : Cursor) :
    Gives (goesOn ends) c (fun _ c' => c' = c) := by
  unfold goesOn
  refine kind_leads ?_
  split
  · exact Leads.pure rfl
  · split
    · exact unexpected_leads
    · exact Leads.pure rfl

theorem parseUntil_accepts {stmt : Parse Stmt} (hstmt : stmt.Accepts Stmt.Derives)
    (ends : List Token.Kind) :
    (parseUntil stmt ends).Accepts fun ts b => Repeated Stmt.Derives ts b.body := by
  intro c hc
  unfold parseUntil
  refine Leads.get_seq ?_
  refine (many_accepts (goesOn_leads ends) hstmt).seq hc.read_nil fun body c₁ ts hbody h₁ => ?_
  exact Leads.get_seq (Leads.pure ⟨_, h₁, hbody⟩)

/-- Statements between `do` and `end`. -/
theorem parseDo_accepts {stmt : Parse Stmt} (hstmt : stmt.Accepts Stmt.Derives) :
    (parseDo stmt).Accepts fun ts b => ∃ d us x, ts = d :: (us ++ [x]) ∧ d.kind = .kwDo ∧
      Repeated Stmt.Derives us b.body ∧ x.kind = .kwEnd := by
  intro c hc
  unfold parseDo
  refine expect_leads hc.read_nil nofun fun d c₁ hd h₁ => ?_
  refine (parseUntil_accepts hstmt _).seq h₁ fun block c₂ us hblock h₂ => ?_
  refine expect_leads h₂ nofun fun x c₃ hx h₃ => Leads.pure ⟨_, h₃, d, us, x, ?_, hd, hblock, hx⟩
  simp only [List.cons_append, List.nil_append]

end Block

namespace Stmt

theorem parseInitial_accepts : (parseInitial .standard).Accepts
    (Perhaps (After .assignment (Expr.Derives .lowest))) := by
  intro c hc
  unfold parseInitial
  refine kind_leads ?_
  by_cases hk : c.current.kind = .assignment
  · rw [if_pos hk]
    refine advance_leads hc.read_nil (by rw [hk]; nofun) fun c₁ h₁ => Leads.map ?_
    refine (Expr.parse_accepts c₁ h₁.live).post ?_
    rintro e c₂ ⟨ts, h₂, he⟩
    exact ⟨_, h₁.trans h₂, .some (.mk hk he)⟩
  · rw [if_neg hk]
    exact Leads.pure ⟨[], hc.read_nil, .none⟩

theorem parseValue_accepts :
    (parseValue .standard).Accepts (Perhaps (Expr.Derives .lowest)) := by
  intro c hc
  unfold parseValue
  refine kind_leads ?_
  split
  · exact Leads.pure ⟨[], hc.read_nil, .none⟩
  · exact Expr.parse_accepts.map (fun ts e he => .some he) c hc

theorem parseVarDecl_leads {c : Cursor} (hc : c.Live) (hk : c.current.kind = .kwVar) :
    Gives (parseVarDecl .standard) c (fun s c' => ∃ ts, c.Read c' ts ∧ Derives ts s) := by
  unfold parseVarDecl
  refine advance_leads hc.read_nil (by rw [hk]; nofun) fun c₁ h₁ => ?_
  have hname : parseName.Accepts fun ts t => ts = [t] ∧ t.kind = .identifier := by
    intro c hc
    unfold parseName
    refine kind_leads ?_
    split
    · rename_i hid
      exact ⟨_, hc.next (by rw [hid]; nofun), rfl, hid⟩
    · exact unexpected_leads
  refine hname.seq h₁ fun n c₂ us hn h₂ => ?_
  obtain ⟨rfl, hn⟩ := hn
  refine expect_leads h₂ nofun fun colon c₃ hcolon h₃ => ?_
  refine TypeName.parse_accepts.seq h₃ fun type c₄ ts htype h₄ => ?_
  refine parseInitial_accepts.seq h₄ fun value c₅ vs hvalue h₅ => ?_
  refine expect_leads h₅ nofun fun semi c₆ hsemi h₆ => ?_
  refine spanFrom_leads fun sp => Leads.pure ⟨_, h₆, ?_⟩
  simp only [List.append_assoc, List.cons_append, List.nil_append]
  exact .varDecl hk hn hcolon htype hvalue hsemi

theorem parseReturn_leads {c : Cursor} (hc : c.Live) (hk : c.current.kind = .kwReturn) :
    Gives (parseReturn .standard) c (fun s c' => ∃ ts, c.Read c' ts ∧ Derives ts s) := by
  unfold parseReturn
  refine advance_leads hc.read_nil (by rw [hk]; nofun) fun c₁ h₁ => ?_
  refine parseValue_accepts.seq h₁ fun value c₂ us hvalue h₂ => ?_
  refine expect_leads h₂ nofun fun semi c₃ hsemi h₃ => ?_
  refine spanFrom_leads fun sp => Leads.pure ⟨_, h₃, ?_⟩
  simp only [List.cons_append, List.nil_append]
  exact .ret hk hvalue hsemi

theorem parseSimple_accepts : (parseSimple .standard).Accepts Derives := by
  intro c hc
  unfold parseSimple
  refine Expr.parse_accepts.seq hc.read_nil fun e c₁ ts he h₁ => ?_
  refine kind_leads ?_
  by_cases hk : c₁.current.kind = .assignment
  · rw [if_pos hk]
    refine advance_leads h₁ (by rw [hk]; nofun) fun c₂ h₂ => ?_
    refine Expr.parse_accepts.seq h₂ fun value c₃ us hvalue h₃ => ?_
    refine expect_leads h₃ nofun fun semi c₄ hsemi h₄ => ?_
    refine spanFrom_leads fun sp => Leads.pure ⟨_, h₄, ?_⟩
    simp only [List.append_assoc, List.cons_append, List.nil_append]
    exact .assignment he hk hvalue hsemi
  · rw [if_neg hk]
    refine expect_leads h₁ nofun fun semi c₂ hsemi h₂ => ?_
    exact spanFrom_leads fun sp => Leads.pure ⟨_, h₂, .expression he hsemi⟩

variable {stmt : Parse Stmt} {c : Cursor}

/-- An `if` with or without an `else`. -/
theorem parseIf_leads (hstmt : stmt.Accepts Derives) (hc : c.Live) (hk : c.current.kind = .kwIf) :
    Gives (parseIf .standard stmt) c (fun s c' => ∃ ts, c.Read c' ts ∧ Derives ts s) := by
  unfold parseIf
  refine advance_leads hc.read_nil (by rw [hk]; nofun) fun c₁ h₁ => ?_
  refine Expr.parse_accepts.seq h₁ fun e c₂ ts he h₂ => ?_
  refine expect_leads h₂ nofun fun t c₃ ht h₃ => ?_
  refine (Block.parseUntil_accepts hstmt _).seq h₃ fun yes c₄ us hyes h₄ => ?_
  obtain ⟨yes, sp⟩ := yes
  refine kind_leads ?_
  by_cases helse : c₄.current.kind = .kwElse
  · rw [if_pos helse]
    refine advance_leads h₄ (by rw [helse]; nofun) fun c₅ h₅ => ?_
    refine (Block.parseUntil_accepts hstmt _).seq h₅ fun no c₆ vs hno h₆ => ?_
    obtain ⟨no, sp'⟩ := no
    refine expect_leads h₆ nofun fun x c₇ hx h₇ => ?_
    refine spanFrom_leads fun sp'' => Leads.pure ⟨_, h₇, ?_⟩
    simp only [List.append_assoc, List.cons_append, List.nil_append]
    exact .ifElse hk he ht hyes helse hno hx
  · rw [if_neg helse]
    refine expect_leads h₄ nofun fun x c₅ hx h₅ => ?_
    refine spanFrom_leads fun sp' => Leads.pure ⟨_, h₅, ?_⟩
    simp only [List.append_assoc, List.cons_append, List.nil_append]
    exact .ifThen hk he ht hyes hx

theorem parseWhile_leads (hstmt : stmt.Accepts Derives) (hc : c.Live)
    (hk : c.current.kind = .kwWhile) :
    Gives (parseWhile .standard stmt) c (fun s c' => ∃ ts, c.Read c' ts ∧ Derives ts s) := by
  unfold parseWhile
  refine advance_leads hc.read_nil (by rw [hk]; nofun) fun c₁ h₁ => ?_
  refine Expr.parse_accepts.seq h₁ fun e c₂ ts he h₂ => ?_
  refine (Block.parseDo_accepts hstmt).seq h₂ fun body c₃ us hbody h₃ => ?_
  obtain ⟨body, sp⟩ := body
  obtain ⟨d, vs, x, rfl, hd, hbody, hx⟩ := hbody
  refine spanFrom_leads fun sp' => Leads.pure ⟨_, h₃, ?_⟩
  simp only [List.cons_append, List.nil_append]
  exact .whileDo hk he hd hbody hx

theorem parseNested_accepts (hstmt : stmt.Accepts Derives) :
    (parseNested stmt).Accepts Derives := by
  intro c hc
  unfold parseNested
  refine Leads.get_seq ?_
  refine (Block.parseDo_accepts hstmt).seq hc.read_nil fun body c₁ ts hbody h₁ => ?_
  obtain ⟨d, us, x, rfl, hd, hbody, hx⟩ := hbody
  exact spanFrom_leads fun sp => Leads.pure ⟨_, h₁, .nested hd hbody hx⟩

/-- **Statements**, by the depth to which they are nested. -/
theorem parseWithin_accepts (d : Nat) : (parseWithin .standard d).Accepts Derives := by
  induction d with
  | zero => intro c _; trivial
  | succ d ih =>
    intro c hc
    unfold parseWithin
    refine kind_leads ?_
    -- every entry of the table is the one word with which such a statement starts
    cases hrule : Grammar.standard.stmt c.current.kind with
    | none => exact parseSimple_accepts c hc
    | some rule =>
      change Grammar.stmtTable c.current.kind = some rule at hrule
      unfold Grammar.stmtTable at hrule
      split at hrule <;> cases hrule
      · rename_i hk; exact parseVarDecl_leads hc hk
      · rename_i hk; exact parseIf_leads ih hc hk
      · rename_i hk; exact parseWhile_leads ih hc hk
      · exact parseNested_accepts ih c hc
      · rename_i hk; exact parseReturn_leads hc hk

theorem parse_accepts : (parse .standard).Accepts Derives := within_accepts parseWithin_accepts

end Stmt

/-! ## Declarations -/

theorem ArgumentDecl.parse_accepts : (ArgumentDecl.parse .standard).Accepts Derives := by
  intro c hc
  unfold ArgumentDecl.parse
  refine expect_leads hc.read_nil nofun fun n c₁ hn h₁ => ?_
  refine expect_leads h₁ nofun fun colon c₂ hcolon h₂ => ?_
  refine TypeName.parse_accepts.seq h₂ fun type c₃ ts htype h₃ => ?_
  exact spanFrom_leads fun sp => Leads.pure ⟨_, h₃, .mk hn hcolon htype⟩

theorem FieldDecl.parse_accepts : (FieldDecl.parse .standard).Accepts Derives := by
  intro c hc
  unfold FieldDecl.parse
  refine expect_leads hc.read_nil nofun fun n c₁ hn h₁ => ?_
  refine expect_leads h₁ nofun fun colon c₂ hcolon h₂ => ?_
  refine TypeName.parse_accepts.seq h₂ fun type c₃ ts htype h₃ => ?_
  refine expect_leads h₃ nofun fun semi c₄ hsemi h₄ => ?_
  refine spanFrom_leads fun sp => Leads.pure ⟨_, h₄, ?_⟩
  simp only [List.cons_append, List.nil_append]
  exact .mk hn hcolon htype hsemi

namespace MethodDecl

theorem parseArguments_accepts : (parseArguments .standard).Accepts fun ts arguments =>
    ∃ l us r, ts = l :: (us ++ [r]) ∧ l.kind = .openParen ∧
      Listed ArgumentDecl.Derives us arguments ∧ r.kind = .closeParen := by
  intro c hc
  unfold parseArguments
  refine expect_leads hc.read_nil nofun fun l c₁ hl h₁ => ?_
  refine (within_accepts (listed_accepts ArgumentDecl.parse_accepts)).seq h₁
    fun arguments c₂ us harguments h₂ => ?_
  refine expect_leads h₂ nofun fun r c₃ hr h₃ => Leads.pure ⟨_, h₃, l, us, r, ?_, hl, harguments, hr⟩
  simp only [List.cons_append, List.nil_append]

theorem parseResult_accepts :
    (parseResult .standard).Accepts (Perhaps (After .colon TypeName.Derives)) := by
  intro c hc
  unfold parseResult
  refine kind_leads ?_
  by_cases hk : c.current.kind = .colon
  · rw [if_pos hk]
    refine advance_leads hc.read_nil (by rw [hk]; nofun) fun c₁ h₁ => Leads.map ?_
    refine (TypeName.parse_accepts c₁ h₁.live).post ?_
    rintro type c₂ ⟨ts, h₂, htype⟩
    exact ⟨_, h₁.trans h₂, .some (.mk hk htype)⟩
  · rw [if_neg hk]
    exact Leads.pure ⟨[], hc.read_nil, .none⟩

theorem parseBody_accepts : (parseBody .standard).Accepts DerivesBody := by
  intro c hc
  unfold parseBody
  refine kind_leads ?_
  split
  · refine (Block.parseDo_accepts Stmt.parse_accepts).map ?_ c hc
    rintro ts ⟨body, sp⟩ ⟨d, us, x, rfl, hd, hbody, hx⟩
    exact .some hd hbody hx
  · rename_i hk
    refine advance_leads hc.read_nil (by rw [hk]; nofun) fun c₁ h₁ => ?_
    exact Leads.pure ⟨_, h₁, .none hk⟩
  · exact unexpected_leads

theorem parse_accepts : (parse .standard).Accepts Derives := by
  intro c hc
  unfold parse
  refine expect_leads hc.read_nil nofun fun n c₁ hn h₁ => ?_
  refine parseArguments_accepts.seq h₁ fun arguments c₂ ts harguments h₂ => ?_
  obtain ⟨l, us, r, rfl, hl, harguments, hr⟩ := harguments
  refine parseResult_accepts.seq h₂ fun result c₃ vs hresult h₃ => ?_
  refine parseBody_accepts.seq h₃ fun body c₄ ws hbody h₄ => ?_
  refine spanFrom_leads fun sp => Leads.pure ⟨_, h₄, ?_⟩
  simp only [List.append_assoc, List.cons_append, List.nil_append]
  exact .mk hn hl harguments hr hresult hbody

end MethodDecl

theorem Feature.parse_accepts : (Feature.parse .standard).Accepts Derives := by
  intro c hc
  unfold Feature.parse
  refine kind_leads ?_
  split
  · rename_i hk
    refine Leads.get_seq ?_
    split
    · exact FieldDecl.parse_accepts.map (fun _ _ hf => .field hf) c hc
    · exact MethodDecl.parse_accepts.map (fun _ _ hm => .method hm) c hc
    · exact advance_leads hc.read_nil (by rw [hk]; nofun) fun _ _ => unexpected_leads
  · exact unexpected_leads

theorem ClassDecl.goesOn_leads (c : Cursor) :
    Gives goesOn c (fun _ c' => c' = c) := Eq.refl c

theorem ClassDecl.parse_accepts : (ClassDecl.parse .standard).Accepts Derives := by
  intro c hc
  unfold ClassDecl.parse
  refine expect_leads hc.read_nil nofun fun w c₁ hw h₁ => ?_
  refine expect_leads h₁ nofun fun n c₂ hn h₂ => ?_
  refine (many_accepts goesOn_leads Feature.parse_accepts).seq h₂
    fun features c₃ ts hfeatures h₃ => ?_
  refine expect_leads h₃ nofun fun x c₄ hx h₄ => ?_
  refine spanFrom_leads fun sp => Leads.pure ⟨_, h₄, ?_⟩
  simp only [List.cons_append, List.nil_append]
  exact .mk hw hn hfeatures hx

theorem Decl.parse_accepts : (Decl.parse .standard).Accepts Derives := by
  intro c hc
  unfold Decl.parse
  refine kind_leads ?_
  split
  · exact ClassDecl.parse_accepts.map (fun _ _ hd => .ofClass hd) c hc
  · exact MethodDecl.parse_accepts.map (fun _ _ hf => .ofFunction hf) c hc
  · exact unexpected_leads

namespace CompilationUnit

theorem goesOn_leads (c : Cursor) : Gives goesOn c (fun _ c' => c' = c) := Eq.refl c

/-- A unit is read up to the end of the text. -/
theorem parse_leads (file : String) {c : Cursor} (hc : c.Live) :
    Gives (parse .standard file) c
      (fun u c' => ∃ ts, c.Read c' ts ∧ Derives ts u ∧ c'.current.kind = .eof) := by
  unfold parse
  have hmany : Gives (within (many goesOn (Decl.parse .standard))) c (fun decls c' =>
      ∃ ts, c.Read c' ts ∧ Repeated Decl.Derives ts decls ∧ goesOn c' = .ok false c') :=
    within_leads (many_leads goesOn_leads Decl.parse_accepts c.allowance c hc)
  refine hmany.seq ?_
  rintro decls c' ⟨ts, hread, hdecls, hend⟩
  refine Leads.get_seq (Leads.pure ⟨ts, hread, hdecls, ?_⟩)
  have hmore : c'.more = false := by
    injection hend
  rw [Cursor.more, hread.live.fresh] at hmore
  simpa using hmore

/-- **What is accepted is derived.** If tokens that end with the only end of the text are accepted,
then the unit that is read is derived from all of them but that last one. -/
theorem derives_of_ofTokens (file : String) (body : List Token) (last : Token)
    (hbody : ∀ t ∈ body, t.kind ≠ .eof) (hlast : last.kind = .eof) (u : CompilationUnit)
    (h : ofTokens file (body ++ [last]) = .ok u) : Derives body u := by
  have hstart : ∃ c, Cursor.ofTokens? file (body ++ [last]) = some c ∧ c.past = false ∧
      c.current :: c.ahead = body ++ [last] := by
    cases body with
    | nil => exact ⟨_, rfl, rfl, rfl⟩
    | cons t ts => exact ⟨_, rfl, rfl, rfl⟩
  obtain ⟨c, hc, hfresh, htokens⟩ := hstart
  have hparse := parse_leads file (c := c) ⟨hfresh, body, last, htokens, hlast, hbody⟩
  rw [ofTokens, hc] at h
  unfold Gives Leads at hparse
  cases hrun : parse .standard file c with
  | error halt c' =>
    simp only [hrun] at h
    cases h
  | ok u' c' =>
    rw [hrun] at hparse
    simp only [hrun] at h
    cases h
    obtain ⟨ts, hread, hder, hend⟩ := hparse
    -- only the end of the text is left, so the tokens read are all the others
    have hahead := hread.live.ahead_eq_nil hend
    have hall := hread.tokens
    rw [htokens, hahead] at hall
    rwa [(List.append_inj' hall rfl).1]

end CompilationUnit

/-! ## A text that is accepted -/

namespace Scale

/-- `scale(x: Int8*,): Int64 do return -((x)).at as Cell[].size * 2 - f(x,); end`, but that the number
is written with a sign, which no token of a text has. -/
def tokens : List Token :=
  [nameWord "scale", mark .openParen, nameWord "x", mark .colon, nameWord "Int8", mark .star,
    mark .comma, mark .closeParen, mark .colon, nameWord "Int64", mark .kwDo, mark .kwReturn,
    mark .dash, mark .openParen, mark .openParen, nameWord "x", mark .closeParen, mark .closeParen,
    mark .dot, nameWord "at", mark .kwAs, nameWord "Cell", mark .openBracket, mark .closeBracket,
    mark .dot, nameWord "size", mark .star, (.number, "+2"), mark .dash, nameWord "f",
    mark .openParen, nameWord "x", mark .comma, mark .closeParen, mark .semicolon, mark .kwEnd].map
    fun w => ⟨w.1, w.2, .nowhere⟩

/-- The text is accepted, and what is read is derived from its tokens. -/
theorem accepted : (∀ t ∈ tokens, t.kind ≠ .eof) ∧
    ∃ u, CompilationUnit.ofTokens "scale" (tokens ++ [⟨.eof, "EOF", .nowhere⟩]) = .ok u ∧
      CompilationUnit.Derives tokens u := by
  have hbody : ∀ t ∈ tokens, t.kind ≠ .eof := by decide
  have hok : (CompilationUnit.ofTokens "scale" (tokens ++ [⟨.eof, "EOF", .nowhere⟩])).isOk = true := by
    decide +kernel
  cases h : CompilationUnit.ofTokens "scale" (tokens ++ [⟨.eof, "EOF", .nowhere⟩]) with
  | error halt =>
    rw [h] at hok
    cases hok
  | ok u =>
    exact ⟨hbody, u, rfl, CompilationUnit.derives_of_ofTokens "scale" tokens _ hbody rfl u h⟩

end Scale

end ClassLang
