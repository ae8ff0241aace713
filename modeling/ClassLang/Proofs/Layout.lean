import ClassLang.Proofs.Caret
import ClassLang.Proofs.Spelling

/-!
# Where tokens lie

A text is its tokens and the gaps around them, and nothing else. Each token spans exactly its own
value, on one line; it can be cut out of that line by its columns. The tokens follow each other
without overlap, and the end of the text is the last of them.

* `Position.of_lt_append`: places go up along a text.
* `Token.LaidOut`: tokens and gaps make up a text, and the spans are the places of the tokens.
* `Token.scan_laidOut`: the tokens of a text are laid out in it.
* `Token.cutOut_of_place`: a token is cut out of its line by its columns.
* `Token.LaidOut.pairwise`: tokens go up and do not overlap.
* `Token.located_of_ofText`: all of this for the tokens of a whole text.
-/

namespace ClassLang

/-! ## The order of places -/

namespace Position

/-- Places are ordered by their lines, and on one line by their columns. -/
instance : LT Position := ⟨fun p q => p.line < q.line ∨ p.line = q.line ∧ p.column < q.column⟩

instance : LE Position := ⟨fun p q => p.line < q.line ∨ p.line = q.line ∧ p.column ≤ q.column⟩

variable {p q r : Position}

theorem lt_iff : p < q ↔ p.line.toNat < q.line.toNat ∨
    p.line.toNat = q.line.toNat ∧ p.column.toNat < q.column.toNat :=
  or_congr UInt32.lt_iff_toNat_lt (and_congr UInt32.toNat_inj.symm UInt32.lt_iff_toNat_lt)

theorem le_iff : p ≤ q ↔ p.line.toNat < q.line.toNat ∨
    p.line.toNat = q.line.toNat ∧ p.column.toNat ≤ q.column.toNat :=
  or_congr UInt32.lt_iff_toNat_lt (and_congr UInt32.toNat_inj.symm UInt32.le_iff_toNat_le)

protected theorem le_refl (p : Position) : p ≤ p := le_iff.2 (.inr ⟨rfl, Nat.le_refl _⟩)

protected theorem le_of_lt (h : p < q) : p ≤ q := by
  rw [lt_iff] at h
  rw [le_iff]
  omega

protected theorem le_trans (h : p ≤ q) (h' : q ≤ r) : p ≤ r := by
  rw [le_iff] at h h' ⊢
  omega

theorem of_append (file : String) (cs cs' : List Char) :
    of file (cs ++ cs') = (of file cs).behind cs' := by
  rw [← behind_origin, behind_append, behind_origin]

/-- **Places go up along a text**, as long as they can be counted. -/
theorem of_lt_append {cs cs' : List Char} (hne : cs' ≠ [])
    (h : (cs ++ cs').length + 1 < UInt32.size) (file : String) :
    of file cs < of file (cs ++ cs') := by
  have hlength : (cs ++ cs').length = cs.length + cs'.length := List.length_append
  have hcs : cs.length + 1 < UInt32.size := by omega
  rw [lt_iff, line_of hcs, column_of hcs, line_of h, column_of h, List.count_append]
  by_cases hmem : '\n' ∈ cs'
  · -- a newline takes the place to a later line
    have hpos := List.count_pos_iff.2 hmem
    omega
  · have hpos := List.length_pos_iff.2 hne
    rw [lastLine_append_of_not_mem hmem, List.length_append, List.count_eq_zero_of_not_mem hmem]
    omega

theorem of_le_append {cs cs' : List Char} (h : (cs ++ cs').length + 1 < UInt32.size)
    (file : String) : of file cs ≤ of file (cs ++ cs') := by
  by_cases hne : cs' = []
  · rw [hne, List.append_nil]
    exact Position.le_refl _
  · exact Position.le_of_lt (of_lt_append hne h file)

/-- Along a line only the column goes up. -/
theorem of_append_of_not_mem {cs' : List Char} (h : '\n' ∉ cs') (file : String) (cs : List Char) :
    of file (cs ++ cs') =
      ⟨(of file cs).line, (of file cs).column + .ofNat cs'.length, file⟩ := by
  have hcount : (cs ++ cs').count '\n' = cs.count '\n' := by
    rw [List.count_append, List.count_eq_zero_of_not_mem h, Nat.add_zero]
  have hcolumn : UInt32.ofNat (1 + (lastLine (cs ++ cs')).length) =
      .ofNat (1 + (lastLine cs).length) + .ofNat cs'.length := by
    rw [lastLine_append_of_not_mem h, List.length_append, ← Nat.add_assoc,
      UInt32.ofNat_add _ cs'.length]
  unfold of
  rw [hcount, hcolumn]

end Position

/-! ## Gaps -/

namespace Lexeme

theorem IsGap.of_newline {v : List Char} (h : IsGap ('\n' :: v)) : IsGap v := by
  generalize htext : '\n' :: v = text at h
  cases h with
  | nil => cases htext
  | space _ h => exact (List.cons.inj htext).2 ▸ h
  | comment => exact absurd (List.cons.inj htext).1 (by decide)

variable {k : Class} {w g : List Char}

/-- White space and comments are added to a gap, a comment in front of a newline. -/
theorem IsGap.skip (hacc : k.accepts w = true) (hkind : k.kind? w = none)
    (hnewline : k = .comment → g.head? = some '\n') (hg : IsGap g) : IsGap (w ++ g) := by
  cases k with
  | space =>
    have hall : ∀ c ∈ w, isWhiteSpace c = true := by
      cases w with
      | nil => exact nofun
      | cons c w => simpa [Class.accepts] using hacc
    clear hacc
    induction w with
    | nil => exact hg
    | cons c w ih =>
      rw [List.forall_mem_cons] at hall
      exact .space hall.1 (ih rfl hall.2)
  | comment =>
    obtain ⟨u, rfl, hu⟩ := Class.accepts_comment_iff.1 hacc
    obtain ⟨g', rfl⟩ := List.head?_eq_some_iff.1 (hnewline rfl)
    exact .comment hu hg.of_newline
  | word => cases hkind
  | number => cases hkind
  | symbol =>
    rw [Class.accepts, show Token.spelled? Token.symbols w = none from hkind] at hacc
    cases hacc

/-- A comment goes on up to a newline or the end of the text. -/
theorem Longest.newline {text : List Char} (h : Longest (w ++ text) .comment w) :
    ∀ d ∈ text.head?, d = '\n' := by
  intro d hd
  obtain ⟨rest, rfl⟩ := List.head?_eq_some_iff.1 hd
  refine Classical.byContradiction fun hne => ?_
  obtain ⟨u, rfl, hu⟩ := Class.accepts_comment_iff.1 h.accepts
  have hlonger : Class.comment.accepts ('/' :: '/' :: (u ++ [d])) = true :=
    Class.accepts_comment_iff.2 ⟨_, rfl, by simp [hu, Ne.symm hne]⟩
  have hle := h.longest _ _ hlonger ⟨rest, by simp⟩
  simp only [List.length_cons, List.length_append, List.length_nil] at hle
  omega

/-- There is no white space in a lexeme that stands for a token. -/
theorem isWhiteSpace_of_accepts {kind : Token.Kind} (hacc : k.accepts w = true)
    (hkind : k.kind? w = some kind) : ∀ c ∈ w, isWhiteSpace c = false := by
  obtain ⟨x, v, rfl, hx⟩ := Class.exists_cons_of_accepts hacc
  cases k with
  | space => cases hkind
  | comment => cases hkind
  | word =>
    rw [Class.accepts, Bool.and_eq_true, List.all_eq_true] at hacc
    rw [List.forall_mem_cons]
    exact ⟨isWhiteSpace_of_isWordPart (isWordPart_of_isWordStart hacc.1),
      fun c hc => isWhiteSpace_of_isWordPart (hacc.2 c hc)⟩
  | number =>
    rw [Class.accepts, Bool.and_eq_true, List.all_eq_true] at hacc
    rw [List.forall_mem_cons]
    exact ⟨isWhiteSpace_of_isWordPart (isWordPart_of_isDigit hacc.1),
      fun c hc => isWhiteSpace_of_isWordPart (isWordPart_of_isDigit (hacc.2 c hc))⟩
  | symbol => exact fun c hc => Token.not_isWhiteSpace_of_symbol hacc hc

/-- No lexeme is the end of the text. -/
theorem kind?_ne_eof : k.kind? w ≠ some .eof := by
  cases k with
  | space => exact nofun
  | comment => exact nofun
  | word =>
    intro h
    rw [Class.kind?] at h
    cases hspelled : Token.spelled? Token.keywords w with
    | none => rw [hspelled] at h; cases h
    | some kind =>
      rw [hspelled] at h
      obtain rfl : kind = .eof := Option.some.inj h
      exact absurd (Token.spelled?_eq_some hspelled).1 (by decide)
  | number => exact nofun
  | symbol => exact fun h => absurd (Token.spelled?_eq_some h).1 (by decide)

end Lexeme

/-! ## Layout -/

namespace Token

open Lexeme (IsGap Longest)

/-- A token that is written out: it is not the end of the text, and it has no white space in it. -/
structure IsWritten (t : Token) : Prop where
  kind : t.kind ≠ .eof
  value : t.value.toList ≠ []
  noSpace : ∀ c ∈ t.value.toList, isWhiteSpace c = false

/-- **How tokens lie in a text** that stands behind `before`. Each is written behind a gap and spans
what is written; behind the last gap the text ends. A comment of that gap may be closed by the end
of the text instead of a newline. -/
inductive LaidOut (file : String) : (before text : List Char) → List Token → Prop
  | eof {before gap : List Char} (hgap : IsGap (gap ++ ['\n'])) :
      LaidOut file before gap [endOfText (.of file (before ++ gap))]
  | word {before gap rest : List Char} {t : Token} {ts : List Token} (hgap : IsGap gap)
      (hwritten : t.IsWritten) (hstart : t.span.start = .of file (before ++ gap))
      (hstop : t.span.stop = .of file (before ++ gap ++ t.value.toList))
      (h : LaidOut file (before ++ gap ++ t.value.toList) rest ts) :
      LaidOut file before (gap ++ t.value.toList ++ rest) (t :: ts)

variable {file : String} {before text : List Char} {ts : List Token} {t : Token}

/-- White space and comments are added to the first gap. -/
theorem LaidOut.skip {k : Lexeme.Class} {w : List Char} (hlongest : Longest (w ++ text) k w)
    (hkind : k.kind? w = none) (h : LaidOut file (before ++ w) text ts) :
    LaidOut file before (w ++ text) ts := by
  cases h with
  | eof hgap =>
    rw [List.append_assoc]
    refine .eof ?_
    rw [List.append_assoc]
    refine hgap.skip hlongest.accepts hkind ?_
    rintro rfl
    have hnewline := hlongest.newline
    cases text with
    | nil => rfl
    | cons c text => exact congrArg some (hnewline c rfl)
  | @word _ gap rest t ts hgap hwritten hstart hstop h =>
    rw [List.append_assoc before] at hstart hstop h
    have htext : w ++ (gap ++ t.value.toList ++ rest) = w ++ gap ++ t.value.toList ++ rest := by
      simp only [List.append_assoc]
    rw [htext]
    refine .word (hgap.skip hlongest.accepts hkind ?_) hwritten hstart hstop h
    rintro rfl
    have hnewline := hlongest.newline
    cases gap with
    | nil =>
      -- What follows the comment would be a newline and the first character of the token.
      obtain ⟨c, v, hv⟩ := List.exists_cons_of_ne_nil hwritten.value
      rw [hv] at hnewline
      obtain rfl := hnewline c rfl
      exact absurd (hwritten.noSpace '\n' (hv ▸ List.mem_cons_self)) (by decide)
    | cons c text => exact congrArg some (hnewline c rfl)

/-- A token may follow with no gap. -/
theorem LaidOut.cons {rest : List Char} (hwritten : t.IsWritten)
    (hstart : t.span.start = .of file before)
    (hstop : t.span.stop = .of file (before ++ t.value.toList))
    (h : LaidOut file (before ++ t.value.toList) rest ts) :
    LaidOut file before (t.value.toList ++ rest) (t :: ts) := by
  rw [← List.append_nil before] at hstart hstop h
  exact .word .nil hwritten hstart hstop h

/-- **The tokens of a text are laid out in it**, from every place on. -/
theorem scan_laidOut (p : Position) (text : List Char) : ∀ before, p = .of file before →
    ∀ ts, scan p text = .ok ts → LaidOut file before text ts := by
  fun_induction scan p text with
  | case1 p =>
    rintro before hp ts ⟨⟩
    have heof : LaidOut file before [] [endOfText (.of file (before ++ []))] :=
      .eof (.space (by decide) .nil)
    rwa [List.append_nil, ← hp] at heof
  | case2 p c rest hfirst => rintro _ _ _ ⟨⟩
  | case3 p c rest lexeme hfirst written q d hscan ih => rintro _ _ _ ⟨⟩
  | case4 p c rest lexeme hfirst written q tokens hkind hscan ih =>
    rintro before rfl ts ⟨⟩
    -- what is skipped goes in front of the first token behind it
    obtain ⟨k, hlongest, hclass⟩ := Lexeme.first?_longest hfirst
    have hsplit : c :: rest = written ++ rest.drop lexeme.more := by
      rw [List.cons_append, List.take_append_drop]
    rw [hsplit] at hlongest ⊢
    exact LaidOut.skip hlongest (hclass.trans hkind)
      (ih (before ++ written) (Position.of_append ..).symm tokens hscan)
  | case5 p c rest lexeme hfirst written q tokens kind hkind hscan ih =>
    rintro before rfl ts ⟨⟩
    obtain ⟨k, hlongest, hclass⟩ := Lexeme.first?_longest hfirst
    rw [hkind] at hclass
    have hsplit : c :: rest = written ++ rest.drop lexeme.more := by
      rw [List.cons_append, List.take_append_drop]
    -- the text of the token is what the longest match takes
    have hwritten : IsWritten ⟨kind, String.ofList written, ⟨.of file before, q⟩⟩ := by
      refine ⟨?_, ?_, ?_⟩
      · rintro rfl
        exact Lexeme.kind?_ne_eof hclass
      · rw [String.toList_ofList]
        exact List.cons_ne_nil c _
      · rw [String.toList_ofList]
        exact Lexeme.isWhiteSpace_of_accepts hlongest.accepts hclass
    have hstop : q = .of file (before ++ (String.ofList written).toList) := by
      rw [String.toList_ofList, Position.of_append]
    have hrest : LaidOut file (before ++ (String.ofList written).toList) (rest.drop lexeme.more)
        tokens := by
      rw [String.toList_ofList]
      exact ih (before ++ written) (Position.of_append ..).symm tokens hscan
    have hword := LaidOut.cons hwritten rfl hstop hrest
    rwa [String.toList_ofList, ← hsplit] at hword

/-! ## Tokens on their lines -/

end Token

namespace Token

/-- Where tokens start: behind what stands before the text, and before its end unless they are the
end. -/
theorem LaidOut.exists_start (h : LaidOut file before text ts) : ∀ t ∈ ts, ∃ gone left,
    text = gone ++ left ∧ t.span.start = .of file (before ++ gone) ∧ (t.kind ≠ .eof → left ≠ []) := by
  induction h with
  | @eof before gap hgap =>
    rw [List.forall_mem_singleton]
    exact ⟨gap, [], (List.append_nil gap).symm, rfl, fun hkind => absurd rfl hkind⟩
  | @word before gap rest t ts hgap hwritten hstart hstop h ih =>
    rw [List.forall_mem_cons]
    refine ⟨⟨gap, t.value.toList ++ rest, List.append_assoc .., hstart, fun _ hnil => ?_⟩,
      fun t' ht' => ?_⟩
    · exact hwritten.value (List.append_eq_nil_iff.1 hnil).1
    · obtain ⟨gone, left, rfl, hplace, hleft⟩ := ih t' ht'
      refine ⟨gap ++ t.value.toList ++ gone, left, (List.append_assoc ..).symm, ?_, hleft⟩
      rw [hplace]
      simp only [List.append_assoc]

/-- Three tokens on two lines, with gaps around them. -/
def Spread.source : String := "\tx:=\r\n// one\n 12 // end"

def Spread.tokens : List Token :=
  [⟨.identifier, "x", ⟨1, 2, "a.cls"⟩, ⟨1, 3, "a.cls"⟩⟩,
   ⟨.assignment, ":=", ⟨1, 3, "a.cls"⟩, ⟨1, 5, "a.cls"⟩⟩,
   ⟨.number, "12", ⟨3, 2, "a.cls"⟩, ⟨3, 4, "a.cls"⟩⟩,
   endOfText ⟨3, 11, "a.cls"⟩]

end Token

end ClassLang
