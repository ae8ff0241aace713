import Mathlib.Algebra.Group.Nat.Defs
import ClassLang.Proofs.ReadingStmt

/-!
# Reading programs back

Reading undoes writing: the words of a compilation unit, with any spans and with the end of the text
behind them, are read as a unit that differs from it in spans only
(`CompilationUnit.ofTokens_words`).

The declarations follow on the statements of `ReadingStmt`. A feature is told to be a field or a method
by its second word, and a declaration to be a class or a function by its first; the features of a class
go on up to `end`, and the declarations of a unit up to the end of the text.
-/

namespace ClassLang

open Parse ClassLang.Expr

theorem ArgumentDecl.parse_reads (a : ArgumentDecl) :
    (ArgumentDecl.parse .standard).Reads a.words (Next fun k => k = .comma ∨ k = .closeParen)
      fun b => b.eraseSpans = a.eraseSpans := by
  intro c rest hc hrest
  have hclose : Closed rest := hrest.imp fun k hk => by
    rcases hk with rfl | rfl <;> rfl
  unfold ArgumentDecl.parse
  refine expect_seq hc rfl (List.cons_ne_nil _ _) fun t c₁ ht hc₁ => ?_
  refine expect_seq hc₁ rfl (fun h => hrest.ne_nil (List.append_eq_nil_iff.1 h).2)
    fun _ c₂ _ hc₂ => ?_
  refine (a.type.parse_reads c₂ rest hc₂ (stops_of_closes hclose)).seq fun type c₃ hc₃ htype => ?_
  refine spanFrom_seq fun sp => Takes.pure hc₃ ?_
  rw [ArgumentDecl.eraseSpans, ArgumentDecl.eraseSpans, htype,
    show t.value = a.name from congrArg Prod.snd ht]

theorem FieldDecl.parse_reads (f : FieldDecl) :
    (FieldDecl.parse .standard).Reads f.words (· ≠ []) fun b => b.eraseSpans = f.eraseSpans := by
  intro c rest hc hrest
  rw [FieldDecl.words] at hc
  simp only [List.cons_append, List.append_assoc, List.nil_append] at hc
  unfold FieldDecl.parse
  refine expect_seq hc rfl (List.cons_ne_nil _ _) fun t c₁ ht hc₁ => ?_
  refine expect_seq hc₁ rfl (fun h => List.cons_ne_nil _ _ (List.append_eq_nil_iff.1 h).2)
    fun _ c₂ _ hc₂ => ?_
  refine (f.type.parse_reads c₂ _ hc₂ (stops_of_closes (Next.cons rfl))).seq
    fun type c₃ hc₃ htype => ?_
  refine expect_seq hc₃ rfl hrest fun _ c₄ _ hc₄ => ?_
  refine spanFrom_seq fun sp => Takes.pure hc₄ ?_
  rw [FieldDecl.eraseSpans, FieldDecl.eraseSpans, htype,
    show t.value = f.name from congrArg Prod.snd ht]

/-! ## Methods -/

namespace MethodDecl

theorem parseArguments_reads (arguments : List ArgumentDecl) :
    (parseArguments .standard).Reads
      (mark .openParen :: (commaSeparated (arguments.map ArgumentDecl.words) ++ [mark .closeParen]))
      (· ≠ [])
      fun as => as.map ArgumentDecl.eraseSpans = arguments.map ArgumentDecl.eraseSpans := by
  intro c rest hc hrest
  simp only [List.cons_append, List.append_assoc, List.nil_append] at hc
  unfold parseArguments
  refine expect_seq hc rfl (fun h => List.cons_ne_nil _ _ (List.append_eq_nil_iff.1 h).2)
    fun _ c₁ _ hc₁ => ?_
  have hlisted := within_reads fun n hn => listed_reads ArgumentDecl.words
    ArgumentDecl.eraseSpans n arguments hn (fun a _ => a.parse_reads) (fun a _ => Next.cons nofun)
  refine (hlisted c₁ _ hc₁ (Next.cons rfl)).seq fun as c₂ hc₂ has => ?_
  exact expect_seq hc₂ rfl hrest fun _ c₃ _ hc₃ => Takes.pure hc₃ has

/-- The type a method gives stands before its body, which is no colon. -/
theorem parseResult_reads (result : Option TypeName) :
    (parseResult .standard).Reads (resultWords result) (Next fun k => k = .kwDo ∨ k = .semicolon)
      fun r => r.map TypeName.eraseSpans = result.map TypeName.eraseSpans := by
  intro c rest hc hrest
  unfold parseResult
  refine kind_seq ?_
  cases result with
  | none =>
    rw [if_neg (by rcases hc.next_kind hrest with h | h <;> rw [h] <;> nofun)]
    exact Takes.pure hc rfl
  | some type =>
    have hclose : Closed rest := hrest.imp fun k hk => by
      rcases hk with rfl | rfl <;> rfl
    rw [if_pos (show c.current.kind = .colon from hc.kind)]
    refine advance_seq hc (fun h => hrest.ne_nil (List.append_eq_nil_iff.1 h).2)
      fun _ c₁ _ hc₁ => Takes.map ?_
    refine (type.parse_reads c₁ rest hc₁ (stops_of_closes hclose)).imp fun type' htype => ?_
    rw [Option.map_some, Option.map_some, htype]

theorem bodyWords_next (body : Option Block) :
    Next (fun k => k = .kwDo ∨ k = .semicolon) (bodyWords body) := by
  cases body with
  | none => exact Next.cons (.inr rfl)
  | some block => exact Next.cons (.inl rfl)

theorem parseBody_reads {body : Option Block} (hn : Writable (bodyWords body)) :
    (parseBody .standard).Reads (bodyWords body) (· ≠ [])
      fun b => b.map Block.eraseSpans = body.map Block.eraseSpans := by
  intro c rest hc hrest
  unfold parseBody
  refine kind_seq ?_
  cases body with
  | none =>
    rw [show c.current.kind = .semicolon from hc.kind]
    exact advance_seq hc hrest fun _ c₁ _ hc₁ => Takes.pure hc₁ rfl
  | some block =>
    rw [show c.current.kind = .kwDo from hc.kind]
    have hblock : Writable block.words := hn.mono fun x hx => by simp [bodyWords, hx]
    refine Takes.map ((Block.parseDo_reads (Block.parse_reads hblock) c rest hc hrest).imp ?_)
    intro b hb
    rw [Option.map_some, Option.map_some, hb]

/-- **Methods are read back.** -/
theorem parse_reads {m : MethodDecl} (hn : Writable m.words) :
    (parse .standard).Reads m.words (· ≠ []) fun b => b.eraseSpans = m.eraseSpans := by
  intro c rest hc hrest
  have hbody : Writable (bodyWords m.body) := hn.mono fun x hx => by simp [words, hx]
  rw [words] at hc
  unfold parse
  refine expect_seq hc rfl (List.cons_ne_nil _ _) fun t c₁ ht hc₁ => ?_
  have hnext := (bodyWords_next m.body).append rest
  refine (parseArguments_reads m.arguments c₁ (resultWords m.result ++ (bodyWords m.body ++ rest))
    (by simpa using hc₁) (fun h => hnext.ne_nil (List.append_eq_nil_iff.1 h).2)).seq ?_
  intro arguments c₂ hc₂ hargs
  refine (parseResult_reads m.result c₂ _ hc₂ hnext).seq fun result c₃ hc₃ hresult => ?_
  refine (parseBody_reads hbody c₃ rest hc₃ hrest).seq fun body c₄ hc₄ hbody' => ?_
  refine spanFrom_seq fun sp => Takes.pure hc₄ ?_
  rw [eraseSpans, eraseSpans, hargs, hresult, hbody', show t.value = m.name from congrArg Prod.snd ht]

end MethodDecl

/-! ## Classes -/

/-- A feature starts with its name. -/
theorem Feature.words_next : ∀ f : Feature, Next (· = .identifier) f.words
  | .field _ => Next.cons rfl
  | .method _ => Next.cons rfl

/-- **Features are read back**: a field has a colon after its name, a method a parenthesis. -/
theorem Feature.parse_reads {f : Feature} (hn : Writable f.words) :
    (Feature.parse .standard).Reads f.words (· ≠ []) fun b => b.eraseSpans = f.eraseSpans := by
  intro c rest hc hrest
  unfold Feature.parse
  refine kind_seq ?_
  rw [if_pos (hc.next_kind (f.words_next.append rest))]
  refine get_seq ?_
  cases f with
  | field f =>
    rw [show c.peek = .colon from hc.peek]
    refine Takes.map ((f.parse_reads c rest hc hrest).imp fun b hb => ?_)
    rw [Feature.eraseSpans, Feature.eraseSpans, hb]
  | method m =>
    rw [show c.peek = .openParen from hc.peek]
    refine Takes.map ((MethodDecl.parse_reads hn c rest hc hrest).imp fun b hb => ?_)
    rw [Feature.eraseSpans, Feature.eraseSpans, hb]

namespace ClassDecl

theorem goesOn_false {c : Cursor} (h : c.current.kind = .kwEnd) : goesOn c = .ok false c := by
  show EStateM.Result.ok (decide (c.current.kind ≠ .kwEnd)) c = _
  rw [h]
  rfl

theorem goesOn_true {c : Cursor} (h : c.current.kind = .identifier) : goesOn c = .ok true c := by
  show EStateM.Result.ok (decide (c.current.kind ≠ .kwEnd)) c = _
  rw [h]
  rfl

/-- **Classes are read back**, feature after feature up to `end`. -/
theorem parse_reads {d : ClassDecl} (hn : Writable d.words) :
    (parse .standard).Reads d.words (· ≠ []) fun b => b.eraseSpans = d.eraseSpans := by
  intro c rest hc hrest
  have hsub : ∀ f ∈ d.features, Writable f.words := fun f hf => hn.mono fun x hx =>
    List.mem_cons_of_mem _ (List.mem_cons_of_mem _
      (List.mem_append_left _ (List.mem_flatMap.2 ⟨f, hf, hx⟩)))
  rw [words] at hc
  simp only [List.cons_append, List.append_assoc, List.nil_append] at hc
  unfold parse
  refine expect_seq hc rfl (List.cons_ne_nil _ _) fun _ c₁ _ hc₁ => ?_
  refine expect_seq hc₁ rfl (fun h => List.cons_ne_nil _ _ (List.append_eq_nil_iff.1 h).2)
    fun t c₂ ht hc₂ => ?_
  have hmany := within_reads fun n hn => many_reads Feature.words Feature.eraseSpans
    (F := Next (· = .kwEnd)) (fun _ h => h.ne_nil)
    (fun c rest hc hrest => goesOn_false (hc.next_kind hrest)) n d.features hn
    (fun f hf => Feature.parse_reads (hsub f hf))
    (fun f _ => ⟨f.words_next.ne_nil, fun c w hc =>
      goesOn_true (hc.next_kind (f.words_next.append w))⟩)
  refine (hmany c₂ _ hc₂ (Next.cons rfl)).seq fun features c₃ hc₃ hfeatures => ?_
  refine expect_seq hc₃ rfl hrest fun _ c₄ _ hc₄ => ?_
  refine spanFrom_seq fun sp => Takes.pure hc₄ ?_
  rw [eraseSpans, eraseSpans, hfeatures, show t.value = d.name from congrArg Prod.snd ht]

end ClassDecl

/-! ## Units -/

/-- A declaration starts with `class` or its name. -/
theorem Decl.words_next : ∀ d : Decl, Next (fun k => k = .kwClass ∨ k = .identifier) d.words
  | .ofClass _ => Next.cons (.inl rfl)
  | .ofFunction _ => Next.cons (.inr rfl)

/-- **Declarations are read back.** -/
theorem Decl.parse_reads {d : Decl} (hn : Writable d.words) :
    (Decl.parse .standard).Reads d.words (· ≠ []) fun b => b.eraseSpans = d.eraseSpans := by
  intro c rest hc hrest
  unfold Decl.parse
  refine kind_seq ?_
  cases d with
  | ofClass d =>
    rw [show c.current.kind = .kwClass from hc.kind]
    refine Takes.map ((ClassDecl.parse_reads hn c rest hc hrest).imp fun b hb => ?_)
    rw [Decl.eraseSpans, Decl.eraseSpans, hb]
  | ofFunction f =>
    rw [show c.current.kind = .identifier from hc.kind]
    refine Takes.map ((MethodDecl.parse_reads hn c rest hc hrest).imp fun b hb => ?_)
    rw [Decl.eraseSpans, Decl.eraseSpans, hb]

namespace CompilationUnit

theorem goesOn_eq (c : Cursor) : goesOn c = .ok c.more c := rfl

theorem goesOn_false {c : Cursor} (h : c.current.kind = .eof) : goesOn c = .ok false c := by
  rw [goesOn_eq, Cursor.more, h, bne_self_eq_false, Bool.and_false]

theorem goesOn_true {c : Cursor} {w : List Word} (hc : c.Shows w)
    (h : c.current.kind = .kwClass ∨ c.current.kind = .identifier) : goesOn c = .ok true c := by
  rw [goesOn_eq, Cursor.more, hc.1]
  rcases h with h | h <;> rw [h] <;> rfl

/-- Units are read back, declaration after declaration up to the end of the text. -/
theorem parse_reads {u : CompilationUnit} (file : String) (hn : Writable u.words) :
    (parse .standard file).Reads u.words (Next (· = .eof))
      fun b => b.eraseSpans = u.eraseSpans := by
  intro c rest hc hrest
  have hsub : ∀ d ∈ u.decls, Writable d.words := fun d hd => hn.mono fun x hx =>
    List.mem_flatMap.2 ⟨d, hd, hx⟩
  unfold parse
  have hmany := within_reads fun n hn => many_reads Decl.words Decl.eraseSpans
    (F := Next (· = .eof)) (fun _ h => h.ne_nil)
    (fun c rest hc hrest => goesOn_false (hc.next_kind hrest)) n u.decls hn
    (fun d hd => Decl.parse_reads (hsub d hd))
    (fun d _ => ⟨d.words_next.ne_nil, fun c w hc =>
      goesOn_true hc (hc.next_kind (d.words_next.append w))⟩)
  refine (hmany c rest hc hrest).seq fun decls c₁ hc₁ hdecls => ?_
  refine get_seq (Takes.pure hc₁ ?_)
  rw [eraseSpans, eraseSpans, hdecls]

/-- **Reading undoes writing.** The words of a unit whose numbers are not too large, with any spans
and with the end of the text behind them, are read as that unit up to spans. -/
theorem ofTokens_words (file : String) (u : CompilationUnit)
    (hn : ∀ n, numberWord n ∈ u.words → n ≤ 2 ^ 63) (ts : List Token)
    (hts : ts.map Token.word = u.words) (last : Token) (hlast : last.kind = .eof) :
    ∃ u', ofTokens file (ts ++ [last]) = .ok u' ∧ u'.eraseSpans = u.eraseSpans := by
  have hc : ∃ c, Cursor.ofTokens? file (ts ++ [last]) = some c ∧ c.Shows (u.words ++ [last.word]) := by
    have hmap : (ts ++ [last]).map Token.word = u.words ++ [last.word] := by
      rw [List.map_append, hts]
      rfl
    cases ts with
    | nil => exact ⟨_, rfl, rfl, hmap⟩
    | cons t ts => exact ⟨_, rfl, rfl, hmap⟩
  obtain ⟨c, hstart, hc⟩ := hc
  obtain ⟨u', c', hparse, -, hu⟩ := parse_reads file hn c [last.word] hc (Next.cons hlast)
  refine ⟨u', ?_, hu⟩
  unfold ofTokens
  rw [hstart]
  dsimp only
  rw [hparse]

end CompilationUnit

/-! ## A program that is read back -/

namespace Ring

/-- The body of `sum`: an array, a loop with a branch in it, and casts and operators whose operands
need parentheses. -/
def body : Block :=
  let n (name : String) : Expr := .symbol name .nowhere
  let k (value : Nat) : Expr := .number value .nowhere
  .mk [
    .varDecl "a" (.array (.pointer (.named "Int8" .nowhere) .nowhere) .nowhere)
      (some (.arrayNew (.pointer (.named "Int8" .nowhere) .nowhere)
        (.binary .subtract (n "size") (.binary .subtract (k 1) (k 9223372036854775808) .nowhere)
          .nowhere) .nowhere)) .nowhere,
    .whileDo (.unary .not (.binary .or (.this .nowhere) (.boolean true .nowhere) .nowhere) .nowhere)
      (.mk [
        .ifElse (.binary .less (.binary .add (n "i") (k 1) .nowhere)
            (.binary .multiply (n "size") (.binary .add (n "i") (k 0) .nowhere) .nowhere) .nowhere)
          (.mk [.assignment (.index (n "a") (n "i") .nowhere)
            (.addressOf (.member (.this .nowhere) "size" .nowhere) .nowhere) .nowhere] .nowhere)
          (.mk [.nested (.mk [.ret none .nowhere] .nowhere)] .nowhere) .nowhere] .nowhere) .nowhere,
    .ret (some (.cast (.send (.index (n "a") (k 0) .nowhere) "step" [k 1, n "i"] .nowhere)
      (.named "Int64" .nowhere) .nowhere)) .nowhere] .nowhere

/-- A class with a field and two methods, one of them without a body. -/
def unit : CompilationUnit :=
  ⟨[.ofClass ⟨"Ring", [
      .field ⟨"size", .named "Int64" .nowhere, .nowhere⟩,
      .method ⟨"step", [], none, none, .nowhere⟩,
      .method ⟨"sum", [⟨"i", .named "Int64" .nowhere, .nowhere⟩], some (.named "Int64" .nowhere),
        some body, .nowhere⟩], .nowhere⟩], .nowhere⟩

/-- The tokens of the class, all at one place. -/
def tokens : List Token := unit.words.map fun w => ⟨w.1, w.2, .nowhere⟩

/-- The numbers of the class are not too large. -/
theorem numbers_le (n : Nat) (h : numberWord n ∈ unit.words) : n ≤ 2 ^ 63 := by
  have hall : ∀ w ∈ unit.words, w.1 = .number → (Expr.digitsValue? w.2.toList).all (· ≤ 2 ^ 63) := by
    decide +kernel
  have hn := hall _ h rfl
  have htext : (numberWord n).2.toList = Nat.toDigits 10 n := by
    rw [numberWord, Nat.repr_eq_ofList_toDigits, String.toList_ofList]
  rw [htext, digitsValue?_toDigits] at hn
  simpa using hn

/-- The class is read back from its tokens. -/
theorem reads_back : (∀ n, numberWord n ∈ unit.words → n ≤ 2 ^ 63) ∧
    tokens.map Token.word = unit.words ∧
    ∃ u', CompilationUnit.ofTokens "ring" (tokens ++ [⟨.eof, "EOF", .nowhere⟩]) = .ok u' ∧
      u'.eraseSpans = unit.eraseSpans := by
  have hwords : tokens.map Token.word = unit.words := by
    rw [tokens, List.map_map]
    exact List.map_id _
  exact ⟨numbers_le, hwords,
    CompilationUnit.ofTokens_words "ring" unit numbers_le tokens hwords _ rfl⟩

end Ring

end ClassLang
