import ClassLang.Proofs.LongestMatch

/-!
# Texts written out of words

Words can be written one after the other, each by one of its spellings, if something that starts
with white space stands between any two of them. Such a text reads as the same words again.

* `Lexeme.IsGap`: white space and comments, each comment closed by a newline.
* `Token.Kind.Spells`: how a token of a kind may be spelled.
* `Token.munch_gap`: gaps are left out.
* `Token.munch_spelling`: a spelling in front of white space, or at the end, is read as itself.
* `Token.munch_written`: a whole text that was written out of words.
-/

namespace ClassLang

/-! ## Gaps -/

namespace Lexeme

/-- White space and comments, where every comment is closed by a newline. -/
inductive IsGap : List Char → Prop
  | nil : IsGap []
  | space {c : Char} {v : List Char} (hc : isWhiteSpace c = true) (h : IsGap v) : IsGap (c :: v)
  | comment {w v : List Char} (hw : '\n' ∉ w) (h : IsGap v) :
      IsGap ('/' :: '/' :: (w ++ '\n' :: v))

end Lexeme

/-- What may stand between two words: a gap that starts with white space. -/
structure Separator where
  first : Char
  rest : List Char
  space : isWhiteSpace first = true
  gap : Lexeme.IsGap rest

namespace Separator

/-- The text of a separator. -/
def text (s : Separator) : List Char := s.first :: s.rest

theorem isGap (s : Separator) : Lexeme.IsGap s.text := .space s.space s.gap

/-- What may stand before the first word and behind the last: a separator or nothing. -/
def margin : Option Separator → List Char
  | none => []
  | some s => s.text

theorem isGap_margin (s : Option Separator) : Lexeme.IsGap (margin s) := by
  cases s with
  | none => exact .nil
  | some s => exact s.isGap

end Separator

/-! ## Spellings -/

/-- How a token of a kind may be spelled: an identifier as any word that is not reserved, a number
as digits, and all others in one way. -/
inductive Token.Kind.Spells : Token.Kind → List Char → Prop
  | identifier {n : String} (hn : IsWord n) (hfree : ∀ k ∈ Token.keywords, k.text ≠ n) :
      Spells .identifier n.toList
  | number {d : List Char} (hne : d ≠ []) (hd : ∀ c ∈ d, c.isDigit = true) : Spells .number d
  | fixed {k : Token.Kind} (heof : k ≠ .eof) (hid : k ≠ .identifier) (hnum : k ≠ .number) :
      Spells k k.text.toList

/-- A word with one of its spellings. -/
structure Spelling where
  kind : Token.Kind
  text : List Char
  spells : kind.Spells text

/-- The word that was spelled. -/
def Spelling.word (s : Spelling) : Word := (s.kind, String.ofList s.text)

/-- Words written one after the other, with a separator between any two of them. -/
def written (sep : Nat → Separator) : List Spelling → List Char
  | [] => []
  | [s] => s.text
  | s :: t :: ss => s.text ++ (sep 0).text ++ written (fun i => sep (i + 1)) (t :: ss)

namespace Token

open Lexeme

variable {c : Char} {v w tail : List Char}

/-! ## Gaps are left out -/

/-- White space is skipped. -/
theorem munch_space (hc : isWhiteSpace c = true) (text : List Char) :
    munch (c :: text) = munch text := by
  -- The longest run is cut off, so both texts are followed to the end of the run.
  have hrun : ∀ {c : Char}, isWhiteSpace c = true → ∀ text,
      munch (c :: text) = munch (text.dropWhile isWhiteSpace) := by
    intro c hc text
    have hsplit :
        c :: text = (c :: text.takeWhile isWhiteSpace) ++ text.dropWhile isWhiteSpace := by
      rw [List.cons_append, List.takeWhile_append_dropWhile]
    have hlongest := longest_space hc text
    rw [hsplit] at hlongest ⊢
    exact munch_of_skip hlongest rfl
  rw [hrun hc]
  cases text with
  | nil => rfl
  | cons d text =>
    cases hd : isWhiteSpace d with
    | false => rw [List.dropWhile_cons_of_neg (by simp [hd])]
    | true => rw [List.dropWhile_cons_of_pos hd, hrun hd]

theorem munch_comment (hw : '\n' ∉ w) (text : List Char) :
    munch ('/' :: '/' :: (w ++ '\n' :: text)) = munch text := by
  have hrun : (w ++ '\n' :: text).takeWhile (· != '\n') = w := by
    rw [List.takeWhile_append_of_pos, List.takeWhile_cons_of_neg (by decide), List.append_nil]
    intro x hx
    simpa using ne_of_mem_of_not_mem hx hw
  have hlongest := longest_comment (w ++ '\n' :: text)
  rw [hrun] at hlongest
  calc munch ('/' :: '/' :: w ++ '\n' :: text)
    _ = munch ('\n' :: text) := munch_of_skip hlongest rfl
    _ = munch text := munch_space (by decide) text

/-- **Gaps are left out.** -/
theorem munch_gap (h : IsGap v) (text : List Char) : munch (v ++ text) = munch text := by
  induction h with
  | nil => rfl
  | space hc _ ih => rw [List.cons_append, munch_space hc, ih]
  | @comment w v hw _ ih =>
    rw [List.cons_append, List.cons_append, List.append_assoc, List.cons_append,
      munch_comment hw, ih]

/-! ## Spellings are read as themselves -/

/-- Only white space or nothing follows. -/
def Ends (tail : List Char) : Prop := ∀ c ∈ tail.head?, isWhiteSpace c = true

theorem ends_cons (hc : isWhiteSpace c = true) : Ends (c :: tail) := by
  intro d hd
  rwa [← Option.some.inj hd]

theorem takeWhile_append_of_ends {p : Char → Bool} (hp : ∀ c, p c = true → isWordPart c = true)
    (hv : ∀ c ∈ v, p c = true) (htail : Ends tail) : (v ++ tail).takeWhile p = v := by
  rw [List.takeWhile_append_of_pos hv]
  cases tail with
  | nil => exact List.append_nil v
  | cons c tail =>
    have hc : ¬ p c = true := by
      intro h
      have hspace := htail c rfl
      rw [isWhiteSpace_of_isWordPart (hp c h)] at hspace
      cases hspace
    rw [List.takeWhile_cons_of_neg hc, List.append_nil]

theorem munch_word {n : String} (hn : IsWord n) (htail : Ends tail) : munch (n.toList ++ tail) =
    (((spelled? keywords n.toList).getD .identifier, n) :: ·) <$> munch tail := by
  obtain ⟨c, v, hcons, hc, hv⟩ := hn
  have hlongest := longest_word hc (v ++ tail)
  rw [takeWhile_append_of_ends (fun _ h => h) hv htail, ← List.cons_append, ← hcons] at hlongest
  have hmunch := munch_of_kind hlongest rfl
  rwa [String.ofList_toList] at hmunch

theorem munch_number {d : List Char} (hne : d ≠ []) (hd : ∀ c ∈ d, c.isDigit = true)
    (htail : Ends tail) : munch (d ++ tail) = ((.number, String.ofList d) :: ·) <$> munch tail := by
  obtain ⟨c, v, rfl⟩ := List.exists_cons_of_ne_nil hne
  have hlongest := longest_number (hd c List.mem_cons_self) (v ++ tail)
  rw [takeWhile_append_of_ends (fun _ => isWordPart_of_isDigit)
    (fun x hx => hd x (List.mem_cons_of_mem c hx)) htail] at hlongest
  exact munch_of_kind hlongest rfl

/-- No symbol has white space in it. -/
theorem not_isWhiteSpace_of_symbol {w : List Char} {c : Char}
    (h : Class.symbol.accepts w = true) (hc : c ∈ w) : isWhiteSpace c = false := by
  have hsymbols : ∀ k ∈ symbols, k.text.toList.all (! isWhiteSpace ·) = true := by decide
  obtain ⟨k, hk, rfl⟩ := Class.accepts_symbol_iff.1 h
  simpa using List.all_eq_true.1 (hsymbols k hk) c hc

/-- A symbol is cut off where no longer one can start. -/
theorem munch_symbol {k : Kind} (hk : k ∈ symbols) (htail : Ends tail) :
    munch (k.text.toList ++ tail) = (mark k :: ·) <$> munch tail := by
  have hacc : Class.symbol.accepts k.text.toList = true := Class.accepts_symbol_iff.2 ⟨k, hk, rfl⟩
  have hspelled : spelled? symbols k.text.toList = some k := spelled?_symbols hk
  obtain ⟨c, v, hcons, hc⟩ := Class.exists_cons_of_accepts hacc
  rw [hcons] at hacc hspelled
  obtain ⟨hspace, hword, hnumber⟩ := Class.starts_tells hc
  have hcomment : ¬ (c = '/' ∧ (v ++ tail).head? = some '/') := by
    rintro ⟨rfl, hslash⟩
    cases v with
    | nil => exact absurd (htail '/' hslash) (by decide)
    | cons d v =>
      obtain rfl : d = '/' := Option.some.inj hslash
      have hnone : ∀ k ∈ symbols, ¬ ['/', '/'] <+: k.text.toList := by decide
      exact hnone k hk (hcons ▸ ⟨v, rfl⟩)
  have hlongest : Longest (c :: (v ++ tail)) .symbol (c :: v) := by
    refine ⟨hacc, List.prefix_append (c :: v) tail, fun k' w hacc' hstarts => ?_⟩
    obtain rfl := eq_symbol hspace hcomment hword hnumber hacc' hstarts
    -- a longer symbol would hold the white space behind this one
    refine Nat.le_of_not_lt fun hlt => ?_
    obtain ⟨u, rfl⟩ := List.prefix_of_prefix_length_le (List.prefix_append (c :: v) tail) hstarts
      (Nat.le_of_lt hlt)
    obtain ⟨u', rfl⟩ := (List.prefix_append_right_inj (c :: v)).1 hstarts
    cases u with
    | nil => simp at hlt
    | cons d u =>
      have hblank := htail d rfl
      rw [not_isWhiteSpace_of_symbol hacc' (by simp)] at hblank
      cases hblank
  have htext : k.text = String.ofList (c :: v) := by rw [← hcons, String.ofList_toList]
  rw [mark, htext, String.toList_ofList]
  exact munch_of_kind (w := c :: v) hlongest hspelled

theorem mem_symbols_or_keywords {k : Kind} (heof : k ≠ .eof) (hid : k ≠ .identifier)
    (hnum : k ≠ .number) : k ∈ symbols ∨ k ∈ keywords := by
  cases k <;> first
    | contradiction
    | decide

theorem isWord_of_accepts {n : String} (h : Lexeme.Class.word.accepts n.toList = true) : IsWord n := by
  obtain ⟨c, v, hcons, -⟩ := Lexeme.Class.exists_cons_of_accepts h
  rw [hcons, Lexeme.Class.accepts, Bool.and_eq_true, List.all_eq_true] at h
  exact ⟨c, v, hcons, h⟩

theorem isWord_keyword : ∀ k ∈ keywords, IsWord k.text := by
  have hwords : ∀ k ∈ keywords, Class.word.accepts k.text.toList = true := by decide
  exact fun k hk => isWord_of_accepts (hwords k hk)

/-- **A spelling is read as itself** if white space or nothing follows. -/
theorem munch_spelling (s : Spelling) (htail : Ends tail) :
    munch (s.text ++ tail) = (s.word :: ·) <$> munch tail := by
  obtain ⟨kind, text, spells⟩ := s
  cases spells with
  | @identifier n hn hfree =>
    have hnone : spelled? keywords n.toList = none := by
      refine Option.eq_none_iff_forall_not_mem.2 fun k h => ?_
      obtain ⟨hk, htext⟩ := spelled?_eq_some h
      exact hfree k hk (String.toList_inj.1 htext)
    rw [munch_word hn htail, hnone, Spelling.word, String.ofList_toList]
    rfl
  | number hne hd => exact munch_number hne hd htail
  | fixed heof hid hnum =>
    rw [Spelling.word, String.ofList_toList]
    rcases mem_symbols_or_keywords heof hid hnum with hk | hk
    · exact munch_symbol hk htail
    · rw [munch_word (isWord_keyword kind hk) htail, spelled?_keywords hk]
      rfl

theorem munch_margin (s : Option Separator) :
    munch (Separator.margin s) = .ok [mark .eof] := by
  have hgap := munch_gap (Separator.isGap_margin s) []
  rw [List.append_nil] at hgap
  rw [hgap, munch]

theorem ends_margin (s : Option Separator) : Ends (Separator.margin s) := by
  cases s with
  | none => exact nofun
  | some s => exact ends_cons s.space

/-- **A text written out of words** is read as them. -/
theorem munch_written (sep : Nat → Separator) (ss : List Spelling) (after : Option Separator) :
    munch (written sep ss ++ Separator.margin after) =
      .ok (ss.map Spelling.word ++ [mark .eof]) := by
  fun_induction written sep ss with
  | case1 sep => exact munch_margin after
  | case2 sep s =>
    rw [munch_spelling s (ends_margin after), munch_margin]
    rfl
  | case3 sep s t ss ih =>
    have hends : Ends ((sep 0).text ++ (written (fun i => sep (i + 1)) (t :: ss) ++
        Separator.margin after)) := ends_cons (sep 0).space
    rw [List.append_assoc, List.append_assoc, munch_spelling s hends, munch_gap (sep 0).isGap, ih]
    rfl

/-- **Reading undoes writing out.** Words that are written out with separators between them, and
perhaps with separators before and behind, are read again, in order and with nothing else. -/
theorem ofText_written (file : String) (before after : Option Separator) (sep : Nat → Separator)
    (ss : List Spelling) :
    reading (ofText file (String.ofList
      (Separator.margin before ++ written sep ss ++ Separator.margin after))) =
      .ok (ss.map Spelling.word ++ [mark .eof]) := by
  rw [ofText, scan_eq_munch, String.toList_ofList, List.append_assoc,
    munch_gap (Separator.isGap_margin before), munch_written]

end Token

end ClassLang
