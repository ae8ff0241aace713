import ClassLang.Proofs.ReadingExpr

/-!
# Reading statements back

A statement that starts with a word of its own is read by the rule of that word, and any other one is
an expression or an assignment. Both end with a semicolon or `end`, so anything may follow.

A block goes on as long as the next token does not end it, and no statement starts with a token that
ends a block (`Block.parseUntil_reads`). `Stmt.parse_reads` says that every statement is read back, by
recursion on statements and blocks.
-/

namespace ClassLang

open Parse ClassLang.Expr

/-- The same statement up to spans. -/
abbrev Stmt.Like (st st' : Stmt) : Prop := st'.eraseSpans = st.eraseSpans

/-- The same block up to spans. -/
abbrev Block.Like (b b' : Block) : Prop := b'.eraseSpans = b.eraseSpans

/-- A block is read back, up to one of the tokens that end it, by a reader of its statements. -/
abbrev Block.ReadBy (b : Block) (stmt : Parse Stmt) (ends : List Token.Kind) : Prop :=
  (Block.parseUntil stmt ends).Reads b.words (Next (· ∈ ends)) b.Like

namespace Stmt

variable {value : Option Expr}

/-! ## The first word -/

/-- Whether a statement can start at a token. -/
def Starts (k : Token.Kind) : Prop :=
  (Grammar.stmtTable k).isSome = true ∨ (Grammar.operandTable k).isSome = true

theorem words_next : ∀ s : Stmt, Next Starts s.words
  | .expression e _ => by
    rw [words]; exact (e.words_next.imp fun _ => .inr).append _
  | .assignment a _ _ => by
    rw [words]; exact (a.words_next.imp fun _ => .inr).append _
  | .ret _ _ => by rw [words]; exact Next.cons (.inl rfl)
  | .varDecl _ _ _ _ => by rw [words]; exact Next.cons (.inl rfl)
  | .ifElse _ _ _ _ => by rw [words]; exact Next.cons (.inl rfl)
  | .ifThen _ _ _ => by rw [words]; exact Next.cons (.inl rfl)
  | .whileDo _ _ _ => by rw [words]; exact Next.cons (.inl rfl)
  | .nested _ => by rw [words]; exact Next.cons (.inl rfl)

theorem words_ne_nil (s : Stmt) : s.words ≠ [] := s.words_next.ne_nil

/-- An expression starts with no word of a statement. -/
theorem stmtTable_of_operand {k : Token.Kind} (h : (Grammar.operandTable k).isSome = true) :
    Grammar.stmtTable k = none := by
  cases k <;> first | rfl | cases h

theorem wordsAll_eq_flatMap (ss : List Stmt) : wordsAll ss = ss.flatMap words := by
  induction ss with
  | nil => rw [wordsAll]; rfl
  | cons s ss ih => rw [wordsAll, ih, List.flatMap_cons]

theorem eraseAll_eq_map (ss : List Stmt) : eraseAll ss = ss.map eraseSpans := by
  induction ss with
  | nil => rw [eraseAll]; rfl
  | cons s ss ih => rw [eraseAll, ih, List.map_cons]

/-! ## Optional values -/

theorem parseInitial_reads (hn : Writable (initialWords value)) :
    (parseInitial .standard).Reads (initialWords value) (Next (· = .semicolon))
      fun v => v.map Expr.eraseSpans = value.map Expr.eraseSpans := by
  intro c rest hc hrest
  unfold parseInitial
  refine kind_seq ?_
  cases value with
  | none =>
    rw [if_neg (by rw [hc.next_kind hrest]; nofun)]
    exact Takes.pure hc rfl
  | some e =>
    rw [if_pos (show c.current.kind = .assignment from hc.kind)]
    have hclose : Closed rest := hrest.imp fun k hk => by rw [hk]; rfl
    refine advance_seq hc (fun h => e.words_ne_nil (List.append_eq_nil_iff.1 h).1)
      fun _ c₁ _ hc₁ => Takes.map ?_
    refine (Expr.parse_reads (hn.mono (List.subset_cons_self _ _)) c₁ rest hc₁ hclose).imp ?_
    intro e' he'
    rw [Option.map_some, Option.map_some, he']

theorem parseValue_reads (hn : Writable (valueWords value)) :
    (parseValue .standard).Reads (valueWords value) (Next (· = .semicolon))
      fun v => v.map Expr.eraseSpans = value.map Expr.eraseSpans := by
  intro c rest hc hrest
  unfold parseValue
  refine kind_seq ?_
  cases value with
  | none =>
    rw [if_pos (hc.next_kind hrest)]
    exact Takes.pure hc rfl
  | some e =>
    rw [if_neg (hc.next_kind ((e.words_next_ne rfl).append rest))]
    have hclose : Closed rest := hrest.imp fun k hk => by rw [hk]; rfl
    refine Takes.map ((Expr.parse_reads hn c rest hc hclose).imp fun e' he' => ?_)
    rw [Option.map_some, Option.map_some, he']

/-! ## Statements without blocks -/

theorem parseName_reads (name : String) :
    parseName.Reads [nameWord name] (· ≠ []) fun t => t.word = nameWord name := by
  intro c rest hc hrest
  unfold parseName
  refine kind_seq ?_
  rw [if_pos (show c.current.kind = .identifier from hc.kind)]
  exact ⟨c.current, c.next, rfl, hc.next hrest, hc.word⟩

theorem parseVarDecl_reads (name : String) (type : TypeName) (sp : Span)
    (hn : Writable (initialWords value)) :
    (parseVarDecl .standard).Reads (Stmt.varDecl name type value sp).words (· ≠ [])
      (Stmt.varDecl name type value sp).Like := by
  intro c rest hc hrest
  rw [words] at hc
  simp only [List.cons_append, List.append_assoc, List.nil_append] at hc
  unfold parseVarDecl
  refine advance_seq hc (List.cons_ne_nil _ _) fun _ c₁ _ hc₁ => ?_
  refine (parseName_reads name c₁ _ hc₁ (List.cons_ne_nil _ _)).seq fun t c₂ hc₂ ht => ?_
  have hend : Next (· = .semicolon) (mark .semicolon :: rest) := Next.cons rfl
  have hstop : Closed (initialWords value ++ mark .semicolon :: rest) := by
    cases value with
    | none => exact Next.cons rfl
    | some e => exact Next.cons rfl
  refine expect_seq hc₂ rfl (fun h => hstop.ne_nil (List.append_eq_nil_iff.1 h).2)
    fun _ c₃ _ hc₃ => ?_
  refine (type.parse_reads c₃ _ hc₃ (stops_of_closes hstop)).seq fun type' c₄ hc₄ htype => ?_
  refine (parseInitial_reads hn c₄ _ hc₄ hend).seq fun value' c₅ hc₅ hvalue => ?_
  refine expect_seq hc₅ rfl hrest fun _ c₆ _ hc₆ => ?_
  refine spanFrom_seq fun sp' => Takes.pure hc₆ ?_
  rw [Like, eraseSpans, eraseSpans, htype, hvalue, show t.value = name from congrArg Prod.snd ht]

theorem parseReturn_reads (sp : Span) (hn : Writable (valueWords value)) :
    (parseReturn .standard).Reads (Stmt.ret value sp).words (· ≠ []) (Stmt.ret value sp).Like := by
  intro c rest hc hrest
  rw [words] at hc
  simp only [List.cons_append, List.append_assoc, List.nil_append] at hc
  unfold parseReturn
  have hend : Next (· = .semicolon) (mark .semicolon :: rest) := Next.cons rfl
  refine advance_seq hc (fun h => hend.ne_nil (List.append_eq_nil_iff.1 h).2) fun _ c₁ _ hc₁ => ?_
  refine (parseValue_reads hn c₁ _ hc₁ hend).seq fun value' c₂ hc₂ hvalue => ?_
  refine expect_seq hc₂ rfl hrest fun _ c₃ _ hc₃ => ?_
  refine spanFrom_seq fun sp' => Takes.pure hc₃ ?_
  rw [Like, eraseSpans, eraseSpans, hvalue]

theorem parseExpression_reads {e : Expr} (sp : Span) (hn : Writable e.words) :
    (parseSimple .standard).Reads (Stmt.expression e sp).words (· ≠ [])
      (Stmt.expression e sp).Like := by
  intro c rest hc hrest
  rw [words, List.append_assoc] at hc
  unfold parseSimple
  refine (Expr.parse_reads hn c _ hc (Next.cons rfl)).seq fun e' c₁ hc₁ he' => ?_
  refine kind_seq ?_
  rw [if_neg (by rw [hc₁.kind]; nofun)]
  refine expect_seq hc₁ rfl hrest fun _ c₂ _ hc₂ => ?_
  refine spanFrom_seq fun sp' => Takes.pure hc₂ ?_
  rw [Like, eraseSpans, eraseSpans, he']

theorem parseAssignment_reads {a b : Expr} (sp : Span) (ha : Writable a.words)
    (hb : Writable b.words) :
    (parseSimple .standard).Reads (Stmt.assignment a b sp).words (· ≠ [])
      (Stmt.assignment a b sp).Like := by
  intro c rest hc hrest
  rw [words] at hc
  simp only [List.cons_append, List.append_assoc, List.nil_append] at hc
  unfold parseSimple
  refine (Expr.parse_reads ha c _ hc (Next.cons rfl)).seq fun a' c₁ hc₁ ha' => ?_
  refine kind_seq ?_
  rw [if_pos (show c₁.current.kind = .assignment from hc₁.kind)]
  refine advance_seq hc₁ (fun h => b.words_ne_nil (List.append_eq_nil_iff.1 h).1)
    fun _ c₂ _ hc₂ => ?_
  refine (Expr.parse_reads hb c₂ _ hc₂ (Next.cons rfl)).seq fun b' c₃ hc₃ hb' => ?_
  refine expect_seq hc₃ rfl hrest fun _ c₄ _ hc₄ => ?_
  refine spanFrom_seq fun sp' => Takes.pure hc₄ ?_
  rw [Like, eraseSpans, eraseSpans, ha', hb']

end Stmt

/-! ## Blocks -/

namespace Block

/-- Tokens that end a block: no statement starts at them. -/
def Ends (ends : List Token.Kind) : Prop := ∀ k ∈ ends, ¬ Stmt.Starts k

theorem goesOn_false {ends : List Token.Kind} {c : Cursor} (h : c.current.kind ∈ ends) :
    goesOn ends c = .ok false c := by
  show (if ends.contains c.current.kind = true then _ else _ : Parse Bool) c = _
  rw [if_pos (List.contains_iff_mem.2 h)]
  rfl

theorem goesOn_true {ends : List Token.Kind} (hends : Ends ends) {c : Cursor}
    (h : Stmt.Starts c.current.kind) : goesOn ends c = .ok true c := by
  have hmem : ¬ ends.contains c.current.kind = true := fun hmem =>
    hends _ (List.contains_iff_mem.1 hmem) h
  have heof : c.current.kind ≠ .eof := by
    intro heq
    rw [heq] at h
    rcases h with h | h <;> cases h
  show (if ends.contains c.current.kind = true then _ else
    if c.current.kind = .eof then _ else _ : Parse Bool) c = _
  rw [if_neg hmem, if_neg heof]
  rfl

/-- **A block is read back** if its statements are. -/
theorem parseUntil_reads {stmt : Parse Stmt} {ends : List Token.Kind} (hends : Ends ends)
    {body : List Stmt} (sp : Span) (hbody : ∀ s ∈ body, stmt.Reads s.words (· ≠ []) s.Like) :
    (Block.mk body sp).ReadBy stmt ends := by
  intro c rest hc hrest
  rw [words, Stmt.wordsAll_eq_flatMap] at hc
  unfold parseUntil
  refine get_seq ?_
  have hmany := within_reads fun n hn => many_reads Stmt.words Stmt.eraseSpans
    (F := Next (· ∈ ends)) (fun _ h => h.ne_nil)
    (fun c rest hc hrest => goesOn_false (hc.next_kind hrest)) n body hn hbody
    (fun s _ => ⟨s.words_ne_nil, fun c w hc => goesOn_true hends
      (hc.next_kind (s.words_next.append w))⟩)
  refine (hmany c rest hc hrest).seq fun body' c₁ hc₁ hbody' => ?_
  refine get_seq (Takes.pure hc₁ ?_)
  rw [Like, eraseSpans, eraseSpans, Stmt.eraseAll_eq_map, Stmt.eraseAll_eq_map, hbody']

theorem ends_end : Ends [.kwEnd] := by
  intro k hk
  cases List.mem_singleton.1 hk
  rintro (h | h) <;> cases h

theorem ends_else_end : Ends [.kwElse, .kwEnd] := by
  intro k hk
  rcases List.mem_cons.1 hk with rfl | hk
  · rintro (h | h) <;> cases h
  · exact ends_end k hk

/-- A block between `do` and `end`. -/
theorem parseDo_reads {stmt : Parse Stmt} {b : Block} (h : b.ReadBy stmt [.kwEnd]) :
    (parseDo stmt).Reads (mark .kwDo :: (b.words ++ [mark .kwEnd])) (· ≠ []) b.Like := by
  intro c rest hc hrest
  simp only [List.cons_append, List.append_assoc, List.nil_append] at hc
  unfold parseDo
  refine expect_seq hc rfl (fun h => List.cons_ne_nil _ _ (List.append_eq_nil_iff.1 h).2)
    fun _ c₁ _ hc₁ => ?_
  refine (h c₁ _ hc₁ (Next.cons List.mem_cons_self)).seq fun b' c₂ hc₂ hb' => ?_
  exact expect_seq hc₂ rfl hrest fun _ c₃ _ hc₃ => Takes.pure hc₃ hb'

end Block

/-! ## All statements -/

namespace Stmt

variable {stmt : Parse Stmt}

theorem parseWithin_succ (d : Nat) (c : Cursor) :
    parseWithin .standard (d + 1) c =
      (match Grammar.stmtTable c.current.kind with
        | some rule => parseRule .standard (parseWithin .standard d) rule
        | none => parseSimple .standard : Parse Stmt) c := rfl

/-- A statement with a word of its own is read by the rule of that word. -/
theorem reads_of_rule {x : Word} {tail : List Word} {Q : Stmt → Prop} {rule : StmtRule}
    (hx : Grammar.stmtTable x.1 = some rule)
    (h : ∀ d, tail.length ≤ d → (parseRule .standard (parseWithin .standard d) rule).Reads
      (x :: tail) (· ≠ []) Q) {d : Nat} (hd : (x :: tail).length ≤ d) :
    (parseWithin .standard d).Reads (x :: tail) (· ≠ []) Q := by
  intro c rest hc hrest
  rw [List.length_cons] at hd
  obtain ⟨d, rfl⟩ : ∃ m, d = m + 1 := ⟨d - 1, by omega⟩
  obtain ⟨a, c', heq, hc', ha⟩ := h d (by omega) c rest hc hrest
  refine ⟨a, c', ?_, hc', ha⟩
  rw [parseWithin_succ, hc.kind, hx]
  exact heq

/-- Any other statement is read as an expression or assignment. -/
theorem reads_of_simple {w : List Word} {Q : Stmt → Prop}
    (hw : Next (fun k => (Grammar.operandTable k).isSome = true) w)
    (h : (parseSimple .standard).Reads w (· ≠ []) Q) {d : Nat} (hd : w.length ≤ d) :
    (parseWithin .standard d).Reads w (· ≠ []) Q := by
  intro c rest hc hrest
  have hpos := List.length_pos_iff.2 hw.ne_nil
  obtain ⟨d, rfl⟩ : ∃ m, d = m + 1 := ⟨d - 1, by omega⟩
  obtain ⟨a, c', heq, hc', ha⟩ := h c rest hc hrest
  refine ⟨a, c', ?_, hc', ha⟩
  rw [parseWithin_succ, stmtTable_of_operand (hc.next_kind (hw.append rest))]
  exact heq

theorem parseIfElse_reads {e : Expr} {yes no : Block} (sp : Span) (he : Writable e.words)
    (hyes : yes.ReadBy stmt [.kwElse, .kwEnd]) (hno : no.ReadBy stmt [.kwEnd]) :
    (parseIf .standard stmt).Reads (Stmt.ifElse e yes no sp).words (· ≠ [])
      (Stmt.ifElse e yes no sp).Like := by
  intro c rest hc hrest
  rw [words] at hc
  simp only [List.cons_append, List.append_assoc, List.nil_append] at hc
  unfold parseIf
  refine advance_seq hc (fun h => e.words_ne_nil (List.append_eq_nil_iff.1 h).1)
    fun _ c₁ _ hc₁ => ?_
  refine (Expr.parse_reads he c₁ _ hc₁ (Next.cons rfl)).seq fun e' c₂ hc₂ he' => ?_
  refine expect_seq hc₂ rfl (fun h => List.cons_ne_nil _ _ (List.append_eq_nil_iff.1 h).2)
    fun _ c₃ _ hc₃ => ?_
  refine (hyes c₃ _ hc₃ (Next.cons List.mem_cons_self)).seq fun yes' c₄ hc₄ hyes' => ?_
  refine kind_seq ?_
  rw [if_pos (show c₄.current.kind = .kwElse from hc₄.kind)]
  refine advance_seq hc₄ (fun h => List.cons_ne_nil _ _ (List.append_eq_nil_iff.1 h).2)
    fun _ c₅ _ hc₅ => ?_
  refine (hno c₅ _ hc₅ (Next.cons List.mem_cons_self)).seq fun no' c₆ hc₆ hno' => ?_
  refine expect_seq hc₆ rfl hrest fun _ c₇ _ hc₇ => ?_
  refine spanFrom_seq fun sp' => Takes.pure hc₇ ?_
  rw [Like, eraseSpans, eraseSpans, he', hyes', hno']

theorem parseIfThen_reads {e : Expr} {yes : Block} (sp : Span) (he : Writable e.words)
    (hyes : yes.ReadBy stmt [.kwElse, .kwEnd]) :
    (parseIf .standard stmt).Reads (Stmt.ifThen e yes sp).words (· ≠ [])
      (Stmt.ifThen e yes sp).Like := by
  intro c rest hc hrest
  rw [words] at hc
  simp only [List.cons_append, List.append_assoc, List.nil_append] at hc
  unfold parseIf
  refine advance_seq hc (fun h => e.words_ne_nil (List.append_eq_nil_iff.1 h).1)
    fun _ c₁ _ hc₁ => ?_
  refine (Expr.parse_reads he c₁ _ hc₁ (Next.cons rfl)).seq fun e' c₂ hc₂ he' => ?_
  refine expect_seq hc₂ rfl (fun h => List.cons_ne_nil _ _ (List.append_eq_nil_iff.1 h).2)
    fun _ c₃ _ hc₃ => ?_
  have hend : Next (· ∈ [Token.Kind.kwElse, .kwEnd]) (mark .kwEnd :: rest) :=
    Next.cons (List.mem_cons_of_mem _ List.mem_cons_self)
  refine (hyes c₃ _ hc₃ hend).seq fun yes' c₄ hc₄ hyes' => ?_
  refine kind_seq ?_
  rw [if_neg (by rw [hc₄.kind]; nofun)]
  refine expect_seq hc₄ rfl hrest fun _ c₅ _ hc₅ => ?_
  refine spanFrom_seq fun sp' => Takes.pure hc₅ ?_
  rw [Like, eraseSpans, eraseSpans, he', hyes']

theorem parseWhile_reads {e : Expr} {body : Block} (sp : Span) (he : Writable e.words)
    (hbody : body.ReadBy stmt [.kwEnd]) :
    (parseWhile .standard stmt).Reads (Stmt.whileDo e body sp).words (· ≠ [])
      (Stmt.whileDo e body sp).Like := by
  intro c rest hc hrest
  rw [words, List.cons_append, List.append_assoc] at hc
  unfold parseWhile
  refine advance_seq hc (fun h => e.words_ne_nil (List.append_eq_nil_iff.1 h).1)
    fun _ c₁ _ hc₁ => ?_
  refine (Expr.parse_reads he c₁ _ hc₁ (Next.cons rfl)).seq fun e' c₂ hc₂ he' => ?_
  refine (Block.parseDo_reads hbody c₂ rest hc₂ hrest).seq fun body' c₃ hc₃ hbody' => ?_
  refine spanFrom_seq fun sp' => Takes.pure hc₃ ?_
  rw [Like, eraseSpans, eraseSpans, he', hbody']

theorem parseNested_reads {b : Block} (hb : b.ReadBy stmt [.kwEnd]) :
    (parseNested stmt).Reads (Stmt.nested b).words (· ≠ []) (Stmt.nested b).Like := by
  intro c rest hc hrest
  rw [words] at hc
  unfold parseNested
  refine get_seq ?_
  refine (Block.parseDo_reads hb c rest hc hrest).seq fun b' c₁ hc₁ hb' => ?_
  refine spanFrom_seq fun sp' => Takes.pure hc₁ ?_
  rw [Like, eraseSpans, eraseSpans, ← hb']
  obtain ⟨body, sp⟩ := b'
  rw [Block.eraseSpans, Block.eraseSpans, Block.body]

end Stmt

mutual

/-- **Statements are read back**, within a nesting as deep as there are words. -/
theorem Stmt.reads :
    (s : Stmt) → Writable s.words → ∀ {d : Nat}, s.words.length ≤ d →
    (Stmt.parseWithin .standard d).Reads s.words (· ≠ []) s.Like
  | .expression e sp, hn, d, hd => by
    have he : Writable e.words := hn.mono fun x hx => by simp [Stmt.words, hx]
    have hread := Stmt.parseExpression_reads sp he
    rw [Stmt.words] at hread hd ⊢
    exact Stmt.reads_of_simple (e.words_next.append _) hread hd
  | .assignment a b sp, hn, d, hd => by
    have ha : Writable a.words := hn.mono fun x hx => by simp [Stmt.words, hx]
    have hb : Writable b.words := hn.mono fun x hx => by simp [Stmt.words, hx]
    have hread := Stmt.parseAssignment_reads sp ha hb
    rw [Stmt.words] at hread hd ⊢
    exact Stmt.reads_of_simple (a.words_next.append _) hread hd
  | .ret value sp, hn, d, hd => by
    have hv : Writable (Stmt.valueWords value) := hn.mono fun x hx => by simp [Stmt.words, hx]
    have hread := Stmt.parseReturn_reads sp hv
    rw [Stmt.words] at hread hd ⊢
    refine Stmt.reads_of_rule rfl (fun _ _ => ?_) hd
    exact hread
  | .varDecl name type value sp, hn, d, hd => by
    have hv : Writable (Stmt.initialWords value) := hn.mono fun x hx => by simp [Stmt.words, hx]
    have hread := Stmt.parseVarDecl_reads name type sp hv
    rw [Stmt.words] at hread hd ⊢
    refine Stmt.reads_of_rule rfl (fun _ _ => ?_) hd
    exact hread
  | .ifElse e yes no sp, hn, d, hd => by
    have he : Writable e.words := hn.mono fun x hx => by simp [Stmt.words, hx]
    have hyes : Writable yes.words := hn.mono fun x hx => by simp [Stmt.words, hx]
    have hno : Writable no.words := hn.mono fun x hx => by simp [Stmt.words, hx]
    have hread (d : Nat) (hy : yes.words.length ≤ d) (hn : no.words.length ≤ d) :=
      Stmt.parseIfElse_reads sp he (yes.reads hyes hy Block.ends_else_end)
        (no.reads hno hn Block.ends_end)
    rw [Stmt.words] at hread hd ⊢
    refine Stmt.reads_of_rule rfl (fun d' hd' => ?_) hd
    simp only [List.length_append, List.length_cons] at hd'
    exact hread d' (by omega) (by omega)
  | .ifThen e yes sp, hn, d, hd => by
    have he : Writable e.words := hn.mono fun x hx => by simp [Stmt.words, hx]
    have hyes : Writable yes.words := hn.mono fun x hx => by simp [Stmt.words, hx]
    have hread (d : Nat) (hy : yes.words.length ≤ d) :=
      Stmt.parseIfThen_reads sp he (yes.reads hyes hy Block.ends_else_end)
    rw [Stmt.words] at hread hd ⊢
    refine Stmt.reads_of_rule rfl (fun d' hd' => ?_) hd
    simp only [List.length_append, List.length_cons] at hd'
    exact hread d' (by omega)
  | .whileDo e body sp, hn, d, hd => by
    have he : Writable e.words := hn.mono fun x hx => by simp [Stmt.words, hx]
    have hbody : Writable body.words := hn.mono fun x hx => by simp [Stmt.words, hx]
    have hread (d : Nat) (hb : body.words.length ≤ d) :=
      Stmt.parseWhile_reads sp he (body.reads hbody hb Block.ends_end)
    rw [Stmt.words] at hread hd ⊢
    refine Stmt.reads_of_rule rfl (fun d' hd' => ?_) hd
    simp only [List.length_append, List.length_cons] at hd'
    exact hread d' (by omega)
  | .nested block, hn, d, hd => by
    have hblock : Writable block.words := hn.mono fun x hx => by simp [Stmt.words, hx]
    have hread (d : Nat) (hb : block.words.length ≤ d) :=
      Stmt.parseNested_reads (block.reads hblock hb Block.ends_end)
    rw [Stmt.words] at hread hd ⊢
    refine Stmt.reads_of_rule rfl (fun d' hd' => ?_) hd
    rw [List.length_append] at hd'
    exact hread d' (by omega)

/-- Statements in a list are read back. -/
theorem Stmt.readsAll :
    (ss : List Stmt) → (∀ s ∈ ss, Writable s.words) → ∀ s ∈ ss, ∀ {d : Nat},
    s.words.length ≤ d →
    (Stmt.parseWithin .standard d).Reads s.words (· ≠ []) s.Like
  | [], _ => nofun
  | s :: ss, hn => by
    intro a ha d hd
    rcases List.mem_cons.1 ha with heq | ha
    · rw [heq] at hd ⊢
      exact s.reads (hn s List.mem_cons_self) hd
    · exact Stmt.readsAll ss (fun b hb => hn b (List.mem_cons_of_mem _ hb)) a ha hd

/-- Blocks are read back. -/
theorem Block.reads :
    (b : Block) → Writable b.words → ∀ {d : Nat}, b.words.length ≤ d →
    ∀ {ends : List Token.Kind}, Block.Ends ends →
    b.ReadBy (Stmt.parseWithin .standard d) ends
  | .mk body sp, hn, d, hd, ends, hends => by
    refine Block.parseUntil_reads hends sp ?_
    rw [Block.words, Stmt.wordsAll_eq_flatMap] at hn hd
    have hsub : ∀ s ∈ body, s.words ⊆ body.flatMap Stmt.words :=
      fun s hs x hx => List.mem_flatMap.2 ⟨s, hs, hx⟩
    intro s hs
    refine Stmt.readsAll body (fun t ht => hn.mono (hsub t ht)) s hs ?_
    have hle : s.words.length ≤ (body.flatMap Stmt.words).length := by
      obtain ⟨front, back, rfl⟩ := List.append_of_mem hs
      rw [List.flatMap_append, List.flatMap_cons, List.length_append, List.length_append]
      omega
    omega

end

/-- **Statements are read back.** -/
theorem Stmt.parse_reads {s : Stmt} (hn : Writable s.words) :
    (Stmt.parse .standard).Reads s.words (· ≠ []) s.Like :=
  within_reads fun _ hd => s.reads hn (Nat.le_of_lt hd)

/-- **Blocks are read back**, up to `end`. -/
theorem Block.parse_reads {b : Block} (hn : Writable b.words) :
    b.ReadBy (Stmt.parse .standard) [.kwEnd] := by
  obtain ⟨body, sp⟩ := b
  rw [Block.words, Stmt.wordsAll_eq_flatMap] at hn
  refine Block.parseUntil_reads Block.ends_end sp fun s hs => ?_
  exact Stmt.parse_reads (hn.mono fun x hx => List.mem_flatMap.2 ⟨s, hs, hx⟩)

end ClassLang
