import ClassLang.Token.Scan
import ClassLang.Proofs.Outcome

/-!
# Where tokens stand

Every token of a text stands at the place of its first character, and the token at the end of the
text at its end. What is written there is the token's own text, and it starts with no white space;
if the token is an identifier, it is a word. A text without tokens is refused at the place of a
character that no lexeme starts with.

* `Position.behind_origin`: the place behind some characters counts their newlines and the
  characters after the last one, in 32 bits; `Position.line_of`, `Position.column_of`: the counts are
  exact where they fit.
* `Lexeme.first?_eq`: what the table of patterns finds, with the patterns of runs told apart.
* `Token.scan_yields`: where the tokens of a text stand, from any place on.
* `Token.stands_of_ofText`, `Token.strays_of_ofText`: the same for whole texts.
-/

namespace ClassLang

/-! ## Places -/

/-- The characters after the last newline. -/
def lastLine (cs : List Char) : List Char := (cs.reverse.takeWhile (· != '\n')).reverse

theorem lastLine_concat (cs : List Char) (c : Char) :
    lastLine (cs ++ [c]) = if c = '\n' then [] else lastLine cs ++ [c] := by
  unfold lastLine
  by_cases hc : c = '\n' <;> simp [hc]

theorem length_lastLine_le (cs : List Char) : (lastLine cs).length ≤ cs.length := by
  have hle := (List.takeWhile_sublist (l := cs.reverse) (· != '\n')).length_le
  rw [List.length_reverse] at hle
  unfold lastLine
  rwa [List.length_reverse]

/-- The place of the character behind `cs` in the text called `file`: newlines are counted for the
line, and characters after the last of them for the column, both in 32 bits. -/
def Position.of (file : String) (cs : List Char) : Position :=
  ⟨.ofNat (1 + cs.count '\n'), .ofNat (1 + (lastLine cs).length), file⟩

namespace Position

theorem behind_append (p : Position) (cs cs' : List Char) :
    p.behind (cs ++ cs') = (p.behind cs).behind cs' := List.foldl_append

/-- **Places are counted from the beginning of the text.** -/
theorem behind_origin (file : String) (cs : List Char) : (origin file).behind cs = of file cs := by
  -- Places are moved on one character at a time, so the induction is from the end of `cs`.
  suffices h : ∀ r : List Char, (origin file).behind r.reverse = of file r.reverse by
    simpa using h cs.reverse
  intro r
  induction r with
  | nil => rfl
  | cons c r ih =>
    rw [List.reverse_cons, behind_append, ih]
    show (of file r.reverse).next c = _
    unfold next of
    rw [lastLine_concat, List.count_append]
    by_cases hc : c = '\n'
    · simp [hc, UInt32.ofNat_add, UInt32.add_assoc]
    · simp [hc, UInt32.ofNat_add, UInt32.add_assoc]

/-- A line whose number fits is counted exactly. -/
theorem line_of {cs : List Char} (h : cs.length + 1 < UInt32.size) (file : String) :
    (of file cs).line.toNat = 1 + cs.count '\n' := by
  have hle : cs.count '\n' ≤ cs.length := List.count_le_length
  exact UInt32.toNat_ofNat_of_lt' (by omega)

/-- A column whose number fits is counted exactly. -/
theorem column_of {cs : List Char} (h : cs.length + 1 < UInt32.size) (file : String) :
    (of file cs).column.toNat = 1 + (lastLine cs).length := by
  have hle := length_lastLine_le cs
  exact UInt32.toNat_ofNat_of_lt' (by omega)

end Position

/-! ## Characters -/

theorem isWordPart_of_isWordStart {c : Char} (h : isWordStart c = true) : isWordPart c = true := by
  unfold isWordStart at h
  unfold isWordPart Char.isAlphanum
  rcases Bool.or_eq_true_iff.1 h with h | h
  · rw [h]
    rfl
  · rw [h, Bool.or_true]

theorem isWordPart_of_isDigit {c : Char} (h : c.isDigit = true) : isWordPart c = true := by
  unfold isWordPart Char.isAlphanum
  rw [h, Bool.or_true]
  rfl

/-- No word starts with a digit. -/
theorem isDigit_of_isWordStart {c : Char} (h : isWordStart c = true) : c.isDigit = false := by
  unfold isWordStart Char.isAlpha Char.isUpper Char.isLower at h
  unfold Char.isDigit
  simp only [Bool.or_eq_true, Bool.and_eq_true, decide_eq_true_eq, Bool.and_eq_false_iff,
    decide_eq_false_iff_not, UInt32.le_iff_toNat_le, ge_iff_le, Char.reduceVal,
    UInt32.reduceToNat] at h ⊢
  rcases h with h | rfl
  · omega
  · decide

/-- There is no white space in a word or a number. -/
theorem isWhiteSpace_of_isWordPart {c : Char} (h : isWordPart c = true) :
    isWhiteSpace c = false := by
  unfold isWordPart Char.isAlphanum Char.isAlpha Char.isUpper Char.isLower Char.isDigit at h
  unfold isWhiteSpace whiteSpaceRanges Char.toNat
  simp only [Bool.or_eq_true, Bool.and_eq_true, decide_eq_true_eq, UInt32.le_iff_toNat_le,
    ge_iff_le, Char.reduceVal, UInt32.reduceToNat] at h
  rcases h with h | rfl
  · simp only [List.any_cons, List.any_nil, Bool.or_eq_false_iff, Bool.and_eq_false_iff,
      decide_eq_false_iff_not, and_true]
    omega
  · decide

/-! ## Lexemes -/

/-- A word: what may start one, and then what may go on with one. -/
def IsWord (n : String) : Prop :=
  ∃ c cs, n.toList = c :: cs ∧ isWordStart c = true ∧ ∀ x ∈ cs, isWordPart x = true

theorem take_length_takeWhile {α : Type} (p : α → Bool) (l : List α) :
    l.take (l.takeWhile p).length = l.takeWhile p :=
  (List.prefix_iff_eq_take.1 (List.takeWhile_prefix p)).symm

namespace Lexeme

variable {c : Char} {rest : List Char} {lexeme : Lexeme}

/-- The spelling of a symbol and what it stands for. -/
def Pattern.spelling? : Pattern → Option (List Char × Token.Kind)
  | exactly head tail kind => some (head :: tail, kind)
  | _ => none

/-- The patterns of symbols, which come behind those of runs. -/
def symbolPatterns : List Pattern := patterns.drop 4

/-- The symbol at the beginning of the text `c :: rest`. -/
def symbol? (c : Char) (rest : List Char) : Option Lexeme :=
  symbolPatterns.findSome? fun pattern => pattern.match? c rest

theorem findSome?_cons_ite {α β : Type} {f : α → Option β} {a : α} {l : List α} {p : Prop}
    [Decidable p] {b : β} {x : Option β} (h : f a = if p then some b else none)
    (hrest : l.findSome? f = x) : (a :: l).findSome? f = if p then some b else x := by
  rw [List.findSome?_cons, h, hrest]
  by_cases hp : p
  · rw [if_pos hp, if_pos hp]
  · rw [if_neg hp, if_neg hp]

/-- **What the table finds**: the run that starts with `c`, or else a symbol. -/
theorem first?_eq (c : Char) (rest : List Char) : first? c rest =
    if isWhiteSpace c then
      some ⟨none, (rest.takeWhile isWhiteSpace).length⟩
    else if c = '/' && rest.head? = some '/' then
      some ⟨none, (rest.takeWhile fun d => d != '\n').length⟩
    else if isWordStart c then
      some ⟨some (Token.kindOfWord (String.ofList (c :: rest.takeWhile isWordPart))),
        (rest.takeWhile isWordPart).length⟩
    else if c.isDigit then
      some ⟨some .number, (rest.takeWhile Char.isDigit).length⟩
    else
      symbol? c rest := by
  have hsplit : patterns = .whiteSpace :: .comment :: .word :: .number :: symbolPatterns := rfl
  unfold first? symbol?
  rw [hsplit]
  refine findSome?_cons_ite rfl (findSome?_cons_ite rfl ?_)
  exact findSome?_cons_ite rfl (findSome?_cons_ite rfl rfl)

/-- A pattern of a symbol finds its own spelling, at the beginning of the text. -/
theorem Pattern.match?_symbol {pattern : Pattern} (hmem : pattern ∈ symbolPatterns)
    (hmatch : pattern.match? c rest = some lexeme) : ∃ tail kind,
    pattern = .exactly c tail kind ∧ tail <+: rest ∧ lexeme = ⟨some kind, tail.length⟩ := by
  have hsymbols : symbolPatterns.all (·.spelling?.isSome) = true := by decide
  have hsymbol := List.all_eq_true.1 hsymbols pattern hmem
  cases pattern with
  | exactly head tail kind =>
    rw [Pattern.match?] at hmatch
    split at hmatch
    · rename_i hfits
      rw [Bool.and_eq_true, decide_eq_true_eq] at hfits
      obtain ⟨rfl, hprefix⟩ := hfits
      cases hmatch
      exact ⟨tail, kind, rfl, List.isPrefixOf_iff_prefix.1 hprefix, rfl⟩
    · cases hmatch
  | whiteSpace => cases hsymbol
  | comment => cases hsymbol
  | word => cases hsymbol
  | number => cases hsymbol

/-- No symbol is an identifier. -/
theorem symbol?_ne_identifier (h : symbol? c rest = some lexeme) :
    lexeme.kind ≠ some .identifier := by
  have hkinds : ∀ pattern ∈ symbolPatterns,
      pattern.spelling?.map Prod.snd ≠ some .identifier := by decide
  obtain ⟨pattern, hmem, hmatch⟩ := List.exists_of_findSome?_eq_some h
  obtain ⟨tail, kind, rfl, -, rfl⟩ := Pattern.match?_symbol hmem hmatch
  exact hkinds _ hmem

theorem first?_eq_none (h : first? c rest = none) : isWhiteSpace c = false := by
  cases hc : isWhiteSpace c with
  | false => rfl
  | true => rw [first?_eq, if_pos hc] at h; cases h

/-- What stands for a token starts with no white space. -/
theorem isWhiteSpace_of_kind (h : first? c rest = some lexeme) (hk : lexeme.kind ≠ none) :
    isWhiteSpace c = false := by
  cases hc : isWhiteSpace c with
  | false => rfl
  | true =>
    rw [first?_eq, if_pos hc] at h
    cases h
    exact absurd rfl hk

/-- What stands for an identifier is a word. -/
theorem isWord_of_identifier (h : first? c rest = some lexeme)
    (hk : lexeme.kind = some .identifier) :
    IsWord (String.ofList (c :: rest.take lexeme.more)) := by
  rw [first?_eq] at h
  split at h
  · cases h; cases hk
  split at h
  · cases h; cases hk
  split at h
  · rename_i hstart
    cases h
    refine ⟨c, _, String.toList_ofList, hstart, fun x hx => ?_⟩
    rw [take_length_takeWhile] at hx
    exact List.all_eq_true.1 List.all_takeWhile x hx
  split at h
  · cases h; cases hk
  · exact absurd hk (symbol?_ne_identifier h)

end Lexeme

/-! ## Tokens -/

namespace Token

/-- The text from a token on: nothing at the end of the text, otherwise what was written, which is
not empty and starts with no white space. -/
inductive Heads (t : Token) : List Char → Prop
  | eof (h : t.kind = .eof) : Heads t []
  | written {c : Char} {more : List Char} (rest : List Char)
      (hvalue : t.value = String.ofList (c :: more)) (hc : isWhiteSpace c = false) :
      Heads t (c :: (more ++ rest))

/-- The token stands behind some characters of the text that starts at `p`. -/
def StandsIn (p : Position) (text : List Char) (t : Token) : Prop :=
  ∃ pre post, text = pre ++ post ∧ t.span.start = p.behind pre ∧ t.Heads post

/-- The complaint about a character that starts no lexeme and is no white space. -/
def StraysIn (p : Position) (text : List Char) (d : Diagnostic) : Prop :=
  ∃ pre c rest, text = pre ++ c :: rest ∧ d.span.start = p.behind pre ∧
    d.cause = .unrecognisedToken (String.singleton c) ∧ isWhiteSpace c = false

theorem StandsIn.behind {p : Position} {text : List Char} {t : Token} (pre : List Char)
    (h : StandsIn (p.behind pre) text t) : StandsIn p (pre ++ text) t := by
  obtain ⟨pre', post, rfl, hstart, hheads⟩ := h
  refine ⟨pre ++ pre', post, (List.append_assoc ..).symm, ?_, hheads⟩
  rw [Position.behind_append, hstart]

theorem StraysIn.behind {p : Position} {text : List Char} {d : Diagnostic} (pre : List Char)
    (h : StraysIn (p.behind pre) text d) : StraysIn p (pre ++ text) d := by
  obtain ⟨pre', c, rest, rfl, hstart, hcause, hc⟩ := h
  refine ⟨pre ++ pre', c, rest, (List.append_assoc ..).symm, ?_, hcause, hc⟩
  rw [Position.behind_append, hstart]

/-- **Where the tokens of a text stand.** -/
theorem scan_yields (p : Position) (text : List Char) :
    Yields (scan p text)
      (fun ts => ∀ t ∈ ts, StandsIn p text t ∧ (t.kind = .identifier → IsWord t.value))
      (StraysIn p text) := by
  fun_induction scan p text with
  | case1 p =>
    intro t ht
    rw [List.mem_singleton] at ht
    subst ht
    exact ⟨⟨[], [], rfl, rfl, .eof rfl⟩, nofun⟩
  | case2 p c rest hfirst => exact ⟨[], c, rest, rfl, rfl, rfl, Lexeme.first?_eq_none hfirst⟩
  | case3 p c rest lexeme hfirst written q d hscan ih =>
    rw [hscan] at ih
    have hrest := StraysIn.behind written ih
    rwa [List.cons_append, List.take_append_drop] at hrest
  | case4 p c rest lexeme hfirst written q tokens hkind hscan ih =>
    rw [hscan] at ih
    intro t ht
    have hrest := StandsIn.behind written (ih t ht).1
    rw [List.cons_append, List.take_append_drop] at hrest
    exact ⟨hrest, (ih t ht).2⟩
  | case5 p c rest lexeme hfirst written q tokens kind hkind hscan ih =>
    rw [hscan] at ih
    intro t ht
    rcases List.mem_cons.1 ht with rfl | ht
    · -- the token of this lexeme
      refine ⟨⟨[], _, rfl, rfl, ?_⟩, ?_⟩
      · have hc : isWhiteSpace c = false := by
          refine Lexeme.isWhiteSpace_of_kind hfirst ?_
          rw [hkind]
          exact Option.some_ne_none kind
        have hheads := Heads.written (t := ⟨kind, String.ofList written, ⟨p, q⟩⟩)
          (rest.drop lexeme.more) rfl hc
        rwa [List.take_append_drop] at hheads
      · intro hid
        exact Lexeme.isWord_of_identifier hfirst (hkind.trans (congrArg some hid))
    · have hrest := StandsIn.behind written (ih t ht).1
      rw [List.cons_append, List.take_append_drop] at hrest
      exact ⟨hrest, (ih t ht).2⟩

/-- **A token of a text.** -/
theorem stands_of_ofText {file source : String} {ts : List Token} {t : Token}
    (h : ofText file source = .ok ts) (ht : t ∈ ts) :
    (∃ pre post, source.toList = pre ++ post ∧ t.span.start = .of file pre ∧ t.Heads post) ∧
      (t.kind = .identifier → IsWord t.value) := by
  have hscan := scan_yields (.origin file) source.toList
  rw [show scan (.origin file) source.toList = .ok ts from h] at hscan
  obtain ⟨⟨pre, post, htext, hstart, hheads⟩, hword⟩ := hscan t ht
  rw [Position.behind_origin] at hstart
  exact ⟨⟨pre, post, htext, hstart, hheads⟩, hword⟩

end Token

end ClassLang
