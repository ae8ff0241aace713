import ClassLang.Proofs.SpanReaders

/-!
# The spans of what is read nest

Whatever is read from the tokens of a text, by whatever grammar, its spans nest.

* `CompilationUnit.outline_nested`: **the spans of a whole text nest**, if its characters and its end
  can be counted.
* `Overlong.not_nested`: in a longer text, a span may end before it starts.
-/

namespace ClassLang

open Parse

variable {g : Grammar}

/-! ## Texts -/

namespace CompilationUnit

/-- A unit fills its text from the beginning to the end. -/
theorem parse_leads_nested {file : String} {c : Cursor} (hc : c.Ordered)
    (hstart : Position.origin file ≤ c.position) :
    Gives (parse g file) c (fun u _ => u.outline.Nested) := by
  have hgoes : ∀ c, Gives goesOn c (fun _ c' => c' = c) := fun _ => rfl
  unfold parse
  refine (within_fills (many_fills hgoes Decl.parse_lays)).seq hc.start fun decls c₁ h₁ => ?_
  refine Leads.get_seq (Leads.pure ?_)
  exact Row.nested_node_iff.2 (h₁.row.since hstart)

/-- **The spans of a text nest**, if the place behind it can be counted. In the tree that is read from
the text, every node starts before it ends and lies within the node around it, and the parts of a
node do not reach into each other. -/
theorem outline_nested {file source : String} {ts : List Token} {u : CompilationUnit}
    (hlength : source.length + 1 < UInt32.size) (hscan : Token.ofText file source = .ok ts)
    (hread : ofTokens file ts = .ok u) : u.outline.Nested := by
  have hlaid : Token.LaidOut file [] source.toList ts :=
    Token.scan_laidOut (.origin file) _ [] rfl ts hscan
  have hcount : ([] : List Char).length + source.toList.length + 1 < UInt32.size := by
    rwa [String.length_toList, List.length_nil, Nat.zero_add]
  cases ts with
  | nil => cases hread
  | cons t rest =>
    have hstart : Position.origin file ≤ t.span.start := hlaid.le_start hcount t List.mem_cons_self
    have hordered : Cursor.Ordered
        ⟨t, rest, false, .origin file, rest.length + 1, Nat.lt_succ_self _⟩ :=
      ⟨hlaid.ascending hcount, hstart⟩
    have hrun : Gives (parse .standard file) _ (fun u _ => u.outline.Nested) :=
      parse_leads_nested hordered hstart
    unfold ofTokens at hread
    simp only [Cursor.ofTokens?] at hread
    split at hread
    · rename_i u' c heq
      cases hread
      exact hrun.of_ok heq
    · cases hread

end CompilationUnit

/-- Operands in parentheses, an empty block, and a block that stands as a statement. -/
def Wrapped.source : String :=
  "class A\n  x: Int8*[];\nend\nf(a: A, b: A,): A do\n  if (a) == b then do (a) := -(b.x[0]);" ++
    " end else end\n  return f((a as A), new A[ ((1) + 2) * 3 ]) ;\nend // f\n"

/-- The unit that is read from the text. -/
def Wrapped.unit? : Option CompilationUnit :=
  (Token.ofText "a.cls" source).toOption.bind fun ts =>
    (CompilationUnit.ofTokens "a.cls" ts).toOption

/-- The text is read, and the spans of its unit nest. -/
theorem Wrapped.spans_nest : ∃ ts u, Token.ofText "a.cls" Wrapped.source = .ok ts ∧
    CompilationUnit.ofTokens "a.cls" ts = .ok u ∧ u.outline.Nested := by
  have hread : Wrapped.unit?.isSome = true := by decide +kernel
  unfold Wrapped.unit? at hread
  cases hscan : Token.ofText "a.cls" Wrapped.source with
  | error d =>
    rw [hscan] at hread
    cases hread
  | ok ts =>
    rw [hscan] at hread
    cases hunit : CompilationUnit.ofTokens "a.cls" ts with
    | error halt =>
      rw [Except.toOption, Option.bind_some, hunit] at hread
      cases hread
    | ok u =>
      exact ⟨ts, u, rfl, hunit, CompilationUnit.outline_nested (by decide +kernel) hscan hunit⟩

/-! ## Texts too long to be counted -/

/-- White space is skipped up to its end. -/
theorem Token.scan_blank {blank text : List Char} (hblank : ∀ c ∈ blank, isWhiteSpace c = true)
    (htext : ∀ c ∈ text.head?, isWhiteSpace c = false) (p : Position) :
    scan p (blank ++ text) = scan (p.behind blank) text := by
  cases blank with
  | nil => rfl
  | cons c blank =>
    rw [List.forall_mem_cons] at hblank
    have htake : (blank ++ text).takeWhile isWhiteSpace = blank := by
      rw [List.takeWhile_append_of_pos hblank.2]
      cases text with
      | nil => exact List.append_nil blank
      | cons d text =>
        rw [List.takeWhile_cons_of_neg (by rw [htext d rfl]; exact Bool.false_ne_true),
          List.append_nil]
    have hfirst : Lexeme.first? c (blank ++ text) = some ⟨none, blank.length⟩ := by
      rw [Lexeme.first?_eq, if_pos hblank.1, htake]
    rw [List.cons_append, scan]
    simp only [hfirst, List.take_left, List.drop_left]
    cases scan (p.behind (c :: blank)) text with
    | error d => rfl
    | ok ts => rfl

/-- The tokens of an indented text are those of the text from a later column on. -/
theorem Token.ofText_indented {text : List Char}
    (htext : ∀ c ∈ text.head?, isWhiteSpace c = false) (file : String) (n : Nat) :
    ofText file (String.ofList (List.replicate n ' ' ++ text)) =
      scan ⟨1, 1 + .ofNat n, file⟩ text := by
  have hline : '\n' ∉ List.replicate n ' ' := fun h =>
    absurd (List.eq_of_mem_replicate h) (by decide)
  have hplace : (Position.origin file).behind (List.replicate n ' ') = ⟨1, 1 + .ofNat n, file⟩ := by
    have hbehind := Position.of_append_of_not_mem hline file []
    rw [List.length_replicate] at hbehind
    rw [Position.behind_origin]
    exact hbehind
  have hblank : ∀ c ∈ List.replicate n ' ', isWhiteSpace c = true := by
    intro c hc
    rw [List.eq_of_mem_replicate hc]
    decide
  rw [ofText, String.toList_ofList, scan_blank hblank htext, hplace]

namespace Overlong

/-- A function in a line that is so long that the columns start again right behind its first
character. -/
def source : String := String.ofList (List.replicate (UInt32.size - 2) ' ' ++ "f() do end".toList)

/-- Its tokens: the name ends at column zero. -/
def tokens : List Token :=
  [⟨.identifier, "f", ⟨1, 4294967295, "a.cls"⟩, ⟨1, 0, "a.cls"⟩⟩,
   ⟨.openParen, "(", ⟨1, 0, "a.cls"⟩, ⟨1, 1, "a.cls"⟩⟩,
   ⟨.closeParen, ")", ⟨1, 1, "a.cls"⟩, ⟨1, 2, "a.cls"⟩⟩,
   ⟨.kwDo, "do", ⟨1, 3, "a.cls"⟩, ⟨1, 5, "a.cls"⟩⟩,
   ⟨.kwEnd, "end", ⟨1, 6, "a.cls"⟩, ⟨1, 9, "a.cls"⟩⟩,
   .endOfText ⟨1, 9, "a.cls"⟩]

/-- The function that is read from them. -/
def function : MethodDecl :=
  ⟨"f", [], none, some (.mk [] ⟨⟨1, 6, "a.cls"⟩, ⟨1, 6, "a.cls"⟩⟩),
    ⟨1, 4294967295, "a.cls"⟩, ⟨1, 9, "a.cls"⟩⟩

theorem ofText_source : Token.ofText "a.cls" source = .ok tokens := by
  have htext : ∀ c ∈ "f() do end".toList.head?, isWhiteSpace c = false := by
    intro c hc
    obtain rfl : 'f' = c := Option.some.inj hc
    decide
  calc Token.ofText "a.cls" source
    _ = Token.scan ⟨1, 1 + .ofNat (UInt32.size - 2), "a.cls"⟩ "f() do end".toList :=
      Token.ofText_indented htext "a.cls" (UInt32.size - 2)
    _ = .ok tokens := by decide +kernel

end Overlong

/-- Longer texts are read too, but their spans need not nest: here a function ends before it
starts. -/
theorem Overlong.not_nested : ∃ ts u, Token.ofText "a.cls" Overlong.source = .ok ts ∧
    CompilationUnit.ofTokens "a.cls" ts = .ok u ∧ ¬ u.outline.Nested := by
  refine ⟨tokens, ⟨[.ofFunction function], ⟨1, 1, "a.cls"⟩, ⟨1, 9, "a.cls"⟩⟩, ofText_source, rfl,
    fun h => ?_⟩
  cases h with
  | node _ _ _ nested =>
    have hforward := (nested function.outline (by simp [Decl.outline])).forward
    rw [Position.le_iff] at hforward
    revert hforward
    decide

end ClassLang
