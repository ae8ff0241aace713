import ClassLang.Proofs.Progress
import ClassLang.Proofs.Print

/-!
# Reading a unit makes progress

Statements and declarations are read as types and expressions are: in front of an end of the text,
at least one token is read and the end is not. A list of tokens that ends with the end of the text is
therefore read or refused, whatever stands in it.

* `Stmt.parseWithin_moves`: statements, by induction on how deep they may be nested.
* `MethodDecl.parse_moves`, `ClassDecl.parse_moves`: declarations.
* `CompilationUnit.reading_progresses`: **reading is total**. All readers make progress, and those that
  count how deep they are give the same answer for every depth that covers the tokens left.
-/

namespace ClassLang

open Parse

section

variable {tokens : List Token} {T : Stretch tokens} {i j : Nat}

/-! ## Blocks and statements -/

namespace Block

theorem goesOn_moves (ends : List Token.Kind) : (goesOn ends).Moves T i i := by
  unfold goesOn
  refine kind_moves fun t _ => ?_
  split
  · exact pure_moves (Nat.le_refl i)
  · split
    · exact unexpected_moves
    · exact pure_moves (Nat.le_refl i)

theorem parseUntil_moves {stmt : Parse Stmt} (hstmt : ∀ j, i ≤ j → stmt.Moves T j (j + 1))
    (ends : List Token.Kind) : (parseUntil stmt ends).Moves T i i := by
  unfold parseUntil
  refine get_moves fun c _ => ?_
  refine (many_moves (fun j _ => goesOn_moves ends) hstmt).seq fun body j hj => ?_
  exact get_moves fun c' _ => pure_moves hj

theorem parseDo_moves {stmt : Parse Stmt} (hstmt : ∀ j, i < j → stmt.Moves T j (j + 1)) :
    (parseDo stmt).Moves T i (i + 1) := by
  unfold parseDo
  refine (expect_moves _ (by decide)).seq fun _ j₁ h₁ => ?_
  refine (parseUntil_moves (fun l hl => hstmt l (by omega)) _).seq fun block j₂ h₂ => ?_
  exact (expect_moves _ (by decide)).seq fun _ j₃ h₃ => pure_moves (by omega)

end Block

namespace Stmt

theorem parseInitial_moves : (parseInitial .standard).Moves T i i := by
  unfold parseInitial
  refine kind_moves fun t ht => ?_
  split
  · rename_i hkind
    refine (advance_moves ht (by rw [hkind]; decide)).seq fun _ j hj => ?_
    exact ((Expr.parse_moves .lowest).mono (by omega)).map
  · exact pure_moves (Nat.le_refl i)

theorem parseValue_moves : (parseValue .standard).Moves T i i := by
  unfold parseValue
  refine kind_moves fun t _ => ?_
  split
  · exact pure_moves (Nat.le_refl i)
  · exact ((Expr.parse_moves .lowest).mono (Nat.le_succ i)).map

theorem parseSimple_moves : (parseSimple .standard).Moves T i (i + 1) := by
  unfold parseSimple
  refine (Expr.parse_moves .lowest).seq fun e j₁ h₁ => kind_moves fun t ht => ?_
  split
  · rename_i hkind
    refine (advance_moves ht (by rw [hkind]; decide)).seq fun _ j₂ h₂ => ?_
    refine (Expr.parse_moves .lowest).seq fun value j₃ h₃ => ?_
    refine (expect_moves _ (by decide)).seq fun _ j₄ h₄ => ?_
    exact spanned_moves (by omega)
  · refine (expect_moves _ (by decide)).seq fun _ j₂ h₂ => ?_
    exact spanned_moves (by omega)

section

variable {t : Token} (ht : tokens[i]? = some t) (hk : t.kind ≠ .eof)

include ht hk

theorem parseVarDecl_moves : (parseVarDecl .standard).Moves T i (i + 1) := by
  unfold parseVarDecl parseName
  refine (advance_moves ht hk).seq fun word j₁ h₁ => ?_
  refine Moves.seq (j := j₁) ?_ fun name j₂ h₂ => ?_
  · refine kind_moves fun u hu => ?_
    split
    · rename_i hkind
      exact (advance_moves hu (by rw [hkind]; decide)).mono (Nat.le_succ j₁)
    · exact unexpected_moves
  refine (expect_moves _ (by decide)).seq fun _ j₃ h₃ => ?_
  refine (TypeName.parse_moves .lowest).seq fun type j₄ h₄ => ?_
  refine parseInitial_moves.seq fun value j₅ h₅ => ?_
  refine (expect_moves _ (by decide)).seq fun _ j₆ h₆ => ?_
  exact spanned_moves (by omega)

theorem parseReturn_moves : (parseReturn .standard).Moves T i (i + 1) := by
  unfold parseReturn
  refine (advance_moves ht hk).seq fun word j₁ h₁ => ?_
  refine parseValue_moves.seq fun value j₂ h₂ => ?_
  refine (expect_moves _ (by decide)).seq fun _ j₃ h₃ => ?_
  exact spanned_moves (by omega)

variable {stmt : Parse Stmt} (hstmt : ∀ j, i < j → stmt.Moves T j (j + 1))

include hstmt

theorem parseIf_moves : (parseIf .standard stmt).Moves T i (i + 1) := by
  unfold parseIf
  refine (advance_moves ht hk).seq fun word j₁ h₁ => ?_
  refine (Expr.parse_moves .lowest).seq fun condition j₂ h₂ => ?_
  refine (expect_moves _ (by decide)).seq fun _ j₃ h₃ => ?_
  refine (Block.parseUntil_moves (fun l hl => hstmt l (by omega)) _).seq fun yes j₄ h₄ => ?_
  refine kind_moves fun u hu => ?_
  split
  · rename_i hkind
    refine (advance_moves hu (by rw [hkind]; decide)).seq fun _ j₅ h₅ => ?_
    refine (Block.parseUntil_moves (fun l hl => hstmt l (by omega)) _).seq fun no j₆ h₆ => ?_
    refine (expect_moves _ (by decide)).seq fun _ j₇ h₇ => ?_
    exact spanned_moves (by omega)
  · refine (expect_moves _ (by decide)).seq fun _ j₅ h₅ => ?_
    exact spanned_moves (by omega)

theorem parseWhile_moves : (parseWhile .standard stmt).Moves T i (i + 1) := by
  unfold parseWhile
  refine (advance_moves ht hk).seq fun word j₁ h₁ => ?_
  refine (Expr.parse_moves .lowest).seq fun condition j₂ h₂ => ?_
  refine (Block.parseDo_moves fun l hl => hstmt l (by omega)).seq fun body j₃ h₃ => ?_
  exact spanned_moves (by omega)

omit ht hk

theorem parseNested_moves : (parseNested stmt).Moves T i (i + 1) := by
  unfold parseNested
  refine get_moves fun c _ => (Block.parseDo_moves hstmt).seq fun block j hj => ?_
  exact spanned_moves hj

include ht

/-- A statement with a word of its own. No word stands for any statement whatever, so what is inside
starts behind the word. -/
theorem parseRule_moves {rule : StmtRule} (hrule : Grammar.standard.stmt t.kind = some rule) :
    (parseRule .standard stmt rule).Moves T i (i + 1) := by
  have hk : t.kind ≠ .eof := by
    intro heof
    rw [heof] at hrule
    cases hrule
  cases rule with
  | varDecl => exact parseVarDecl_moves ht hk
  | ifThen => exact parseIf_moves ht hk hstmt
  | whileDo => exact parseWhile_moves ht hk hstmt
  | nested => exact parseNested_moves hstmt
  | ret => exact parseReturn_moves ht hk
  | any =>
    have htable : Grammar.stmtTable t.kind = some .any := hrule
    unfold Grammar.stmtTable at htable
    split at htable <;> cases htable

end

/-- **Statements**, if they may be nested as deep as there are tokens up to the end. -/
theorem parseWithin_moves {depth : Nat} (hdepth : T.stop < i + depth) :
    (parseWithin .standard depth).Moves T i (i + 1) := by
  induction depth generalizing i with
  | zero => exact fun c hc => absurd hc.le (by omega)
  | succ depth ih =>
    unfold parseWithin
    refine kind_moves fun t ht => ?_
    split
    · rename_i rule hrule
      exact parseRule_moves ht (fun j hj => ih (by omega)) hrule
    · exact parseSimple_moves

theorem parse_moves : (parse .standard).Moves T i (i + 1) :=
  within_moves fun _ hn => parseWithin_moves hn

/-! ## Statements with more steps -/

section

variable {g : Grammar} {stmt stmt' : Parse Stmt} (hstmt : stmt.Below stmt')

include hstmt

theorem parseUntil_below (ends : List Token.Kind) :
    (Block.parseUntil stmt ends).Below (Block.parseUntil stmt' ends) :=
  Below.then fun _ => (Below.within (many_below hstmt)).seq fun _ => Below.refl _

theorem parseDo_below : (Block.parseDo stmt).Below (Block.parseDo stmt') :=
  Below.then fun _ => (parseUntil_below hstmt _).seq fun _ => Below.refl _

theorem parseRule_below (rule : StmtRule) :
    (parseRule g stmt rule).Below (parseRule g stmt' rule) := by
  cases rule with
  | varDecl => exact Below.refl _
  | ifThen =>
    refine Below.then fun word => Below.then fun condition => Below.then fun _ => ?_
    refine (parseUntil_below hstmt _).seq fun yes => Below.then fun k => ?_
    split
    · exact Below.then fun _ => (parseUntil_below hstmt _).seq fun no => Below.refl _
    · exact Below.refl _
  | whileDo =>
    refine Below.then fun word => Below.then fun condition => ?_
    exact (parseDo_below hstmt).seq fun body => Below.refl _
  | nested => exact Below.then fun c => (parseDo_below hstmt).seq fun block => Below.refl _
  | ret => exact Below.refl _
  | any => exact hstmt

end

theorem parseWithin_below {g : Grammar} {depth depth' : Nat} (h : depth ≤ depth') :
    (parseWithin g depth).Below (parseWithin g depth') := by
  induction depth generalizing depth' with
  | zero => exact throw_below _
  | succ depth ih =>
    cases depth' with
    | zero => exact absurd h (Nat.not_succ_le_zero depth)
    | succ depth' =>
      refine Below.then fun k => ?_
      split
      · exact parseRule_below (ih (Nat.le_of_succ_le_succ h)) _
      · exact Below.refl _

theorem parse_eq_parseWithin {depth : Nat} {c : Cursor} (hc : c.At T i)
    (hdepth : T.stop < i + depth) : parse .standard c = parseWithin .standard depth c :=
  within_eq hc (fun _ _ h => parseWithin_below h) (fun _ h => parseWithin_moves h) hdepth

end Stmt

/-! ## Declarations -/

theorem ArgumentDecl.parse_moves : (ArgumentDecl.parse .standard).Moves T i (i + 1) := by
  unfold ArgumentDecl.parse
  refine (expect_moves _ (by decide)).seq fun name j₁ h₁ => ?_
  refine (expect_moves _ (by decide)).seq fun _ j₂ h₂ => ?_
  refine (TypeName.parse_moves .lowest).seq fun type j₃ h₃ => ?_
  exact spanned_moves (by omega)

theorem FieldDecl.parse_moves : (FieldDecl.parse .standard).Moves T i (i + 1) := by
  unfold FieldDecl.parse
  refine (expect_moves _ (by decide)).seq fun name j₁ h₁ => ?_
  refine (expect_moves _ (by decide)).seq fun _ j₂ h₂ => ?_
  refine (TypeName.parse_moves .lowest).seq fun type j₃ h₃ => ?_
  refine (expect_moves _ (by decide)).seq fun _ j₄ h₄ => ?_
  exact spanned_moves (by omega)

namespace MethodDecl

theorem parseArguments_moves : (parseArguments .standard).Moves T i i := by
  unfold parseArguments
  refine (expect_moves _ (by decide)).seq fun _ j₁ h₁ => ?_
  refine (listed_moves fun _ _ => ArgumentDecl.parse_moves).seq fun arguments j₂ h₂ => ?_
  exact (expect_moves _ (by decide)).seq fun _ j₃ h₃ => pure_moves (by omega)

theorem parseResult_moves : (parseResult .standard).Moves T i i := by
  unfold parseResult
  refine kind_moves fun t ht => ?_
  split
  · rename_i hkind
    refine (advance_moves ht (by rw [hkind]; decide)).seq fun _ j hj => ?_
    exact ((TypeName.parse_moves .lowest).mono (by omega)).map
  · exact pure_moves (Nat.le_refl i)

theorem parseBody_moves : (parseBody .standard).Moves T i i := by
  unfold parseBody
  refine kind_moves fun t ht => ?_
  split
  · exact ((Block.parseDo_moves fun _ _ => Stmt.parse_moves).mono (Nat.le_succ i)).map
  · rename_i hkind
    refine (advance_moves ht (by rw [hkind]; decide)).seq fun _ j hj => ?_
    exact pure_moves (Nat.le_of_lt hj)
  · exact unexpected_moves

/-- **Methods and functions.** -/
theorem parse_moves : (parse .standard).Moves T i (i + 1) := by
  unfold parse
  refine (expect_moves _ (by decide)).seq fun name j₁ h₁ => ?_
  refine parseArguments_moves.seq fun arguments j₂ h₂ => ?_
  refine parseResult_moves.seq fun result j₃ h₃ => ?_
  refine parseBody_moves.seq fun body j₄ h₄ => ?_
  exact spanned_moves (by omega)

end MethodDecl

theorem Feature.parse_moves : (Feature.parse .standard).Moves T i (i + 1) := by
  unfold Feature.parse
  refine kind_moves fun t ht => ?_
  split
  · rename_i hkind
    refine get_moves fun c _ => ?_
    split
    · exact FieldDecl.parse_moves.map
    · exact MethodDecl.parse_moves.map
    · exact (advance_moves ht (by rw [hkind]; decide)).seq fun _ j hj => unexpected_moves
  · exact unexpected_moves

/-- **Classes.** -/
theorem ClassDecl.parse_moves : (ClassDecl.parse .standard).Moves T i (i + 1) := by
  unfold ClassDecl.parse
  have hgoes : ∀ j, (ClassDecl.goesOn).Moves T j j :=
    fun j => kind_moves fun t _ => pure_moves (Nat.le_refl j)
  refine (expect_moves _ (by decide)).seq fun word j₁ h₁ => ?_
  refine (expect_moves _ (by decide)).seq fun name j₂ h₂ => ?_
  refine (many_moves (fun j _ => hgoes j) fun _ _ => Feature.parse_moves).seq
    fun features j₃ h₃ => ?_
  refine (expect_moves _ (by decide)).seq fun _ j₄ h₄ => ?_
  exact spanned_moves (by omega)

theorem Decl.parse_moves : (Decl.parse .standard).Moves T i (i + 1) := by
  unfold Decl.parse
  refine kind_moves fun t _ => ?_
  split
  · exact ClassDecl.parse_moves.map
  · exact MethodDecl.parse_moves.map
  · exact unexpected_moves

namespace CompilationUnit

theorem parse_moves (file : String) : (parse .standard file).Moves T i i := by
  unfold parse
  have hgoes : ∀ j, goesOn.Moves T j j :=
    fun j => get_moves fun c _ => pure_moves (Nat.le_refl j)
  refine (many_moves (fun j _ => hgoes j) fun _ _ => Decl.parse_moves).seq fun decls j hj => ?_
  exact get_moves fun c _ => pure_moves hj

/-- A unit is read or refused if there is an end of the text. -/
theorem ofTokens_yields_of_stretch (file : String) (T : Stretch tokens) :
    Yields (ofTokens file tokens) (fun _ => True) Halt.IsRefusal := by
  cases tokens with
  | nil => cases T.ends
  | cons t ts =>
    have hstart : Cursor.At ⟨t, ts, false, .origin file, ts.length + 1, Nat.lt_succ_self _⟩ T 0 :=
      ⟨rfl, rfl, Nat.zero_le _⟩
    have hrun := parse_moves file _ hstart
    unfold Leads at hrun
    unfold Yields ofTokens
    simp only [Cursor.ofTokens?]
    split at hrun
    · rename_i heq
      rw [heq]
      trivial
    · rename_i heq
      rw [heq]
      exact hrun

/-- **Reading is total and makes progress.** If the last token is the end of the text, whatever stands
before it, then a unit is read or refused. From a token up to some end of the text, the readers of
expressions, types, statements, classes and methods refuse, or read at least one token and not that end.
Nesting is counted, but every count that covers the tokens up to the end gives the same answer. -/
theorem reading_progresses (tokens : List Token)
    (hlast : tokens.getLast?.map Token.kind = some .eof) :
    (∀ file, (∃ u, ofTokens file tokens = .ok u) ∨
      ∃ d, ofTokens file tokens = .error (.refused d)) ∧
    ∀ (T : Stretch tokens) (i : Nat),
      (∀ power, (Expr.parse .standard power).Moves T i (i + 1)) ∧
      (∀ power, (TypeName.parse .standard power).Moves T i (i + 1)) ∧
      (Stmt.parse .standard).Moves T i (i + 1) ∧
      (ClassDecl.parse .standard).Moves T i (i + 1) ∧
      (MethodDecl.parse .standard).Moves T i (i + 1) ∧
      ∀ c : Cursor, c.At T i → ∀ depth, T.stop < i + depth →
        (∀ power, Expr.parseWithin .standard depth power c = Expr.parse .standard power c) ∧
        Stmt.parseWithin .standard depth c = Stmt.parse .standard c := by
  constructor
  · intro file
    -- the end of the text may serve as the stretch for the whole list
    have hends : tokens[tokens.length - 1]?.map Token.kind = some .eof := by
      rwa [← List.getLast?_eq_getElem?]
    have hyields := ofTokens_yields_of_stretch file ⟨_, hends⟩
    unfold Yields at hyields
    cases hrun : ofTokens file tokens with
    | ok u => exact .inl ⟨u, rfl⟩
    | error halt =>
      rw [hrun] at hyields
      cases halt with
      | refused d => exact .inr ⟨d, rfl⟩
      | noToken => exact hyields.elim
      | endless => exact hyields.elim
  · intro T i
    refine ⟨Expr.parse_moves, TypeName.parse_moves, Stmt.parse_moves, ClassDecl.parse_moves,
      MethodDecl.parse_moves, ?_⟩
    intro c hc depth hdepth
    exact ⟨fun power => (Expr.parse_eq_parseWithin power hc hdepth).symm,
      (Stmt.parse_eq_parseWithin hc hdepth).symm⟩

end CompilationUnit

end

/-! ## A text that ends twice -/

namespace Interrupted

/-- `run(x: Int8[],) do while not x[0] do x[0] := -(1); end end`, the end of the text, `as )`, and the
end of the text once more. -/
def tokens : List Token :=
  [nameWord "run", mark .openParen, nameWord "x", mark .colon, nameWord "Int8", mark .openBracket,
    mark .closeBracket, mark .comma, mark .closeParen, mark .kwDo, mark .kwWhile, mark .kwNot,
    nameWord "x", mark .openBracket, (.number, "0"), mark .closeBracket, mark .kwDo, nameWord "x",
    mark .openBracket, (.number, "0"), mark .closeBracket, mark .assignment, mark .dash,
    mark .openParen, (.number, "1"), mark .closeParen, mark .semicolon, mark .kwEnd, mark .kwEnd,
    mark .eof, mark .kwAs, mark .closeParen, mark .eof].map fun w => ⟨w.1, w.2, .nowhere⟩

/-- The tokens up to the first end. -/
def first : Stretch tokens := ⟨29, by decide⟩

/-- A cursor on the first token. -/
def start : Cursor := ⟨⟨.identifier, "run", .nowhere⟩, tokens.tail, false, .origin "run", 33, by decide⟩

/-- The text is read or refused. The function before the first end is read, and nothing behind it. -/
theorem read_up_to_first_end : tokens.getLast?.map Token.kind = some .eof ∧
    ((∃ u, CompilationUnit.ofTokens "run" tokens = .ok u) ∨
      ∃ d, CompilationUnit.ofTokens "run" tokens = .error (.refused d)) ∧
    ∃ method c' k, MethodDecl.parse .standard start = .ok method c' ∧ 1 ≤ k ∧ c'.At first k := by
  have hlast : tokens.getLast?.map Token.kind = some .eof := by decide
  have hall := CompilationUnit.reading_progresses tokens hlast
  refine ⟨hlast, hall.1 "run", ?_⟩
  have hmoves := (hall.2 first 0).2.2.2.2.1 start ⟨rfl, rfl, Nat.zero_le _⟩
  have hread : ((MethodDecl.parse .standard).run' start).isSome = true := by decide +kernel
  unfold Leads at hmoves
  unfold EStateM.run' at hread
  cases hrun : MethodDecl.parse .standard start with
  | error halt c' =>
    rw [EStateM.run, hrun] at hread
    cases hread
  | ok method c' =>
    rw [hrun] at hmoves
    obtain ⟨k, hk, hat⟩ := hmoves
    exact ⟨method, c', k, rfl, hk, hat⟩

end Interrupted

end ClassLang
