import Mathlib.Data.List.Infix
import ClassLang.Proofs.Print
import ClassLang.Proofs.Scanning

/-!
# The longest match

Each class of lexemes is a set of texts. One rule, which knows no order among the classes, cuts a
text into words: of all beginnings of the text that are a lexeme of some class, the longest is cut
off, and it is kept unless it is white space or a comment. A text that starts with no lexeme at all
is refused with its first character.

* `Lexeme.Class.accepts`: the classes.
* `Lexeme.longest?_eq_some_iff`: what the longest lexeme at the beginning of a text is.
* `Token.munch`: the words of a text, by the rule of the longest match.
* `Lexeme.first?_longest`, `Lexeme.first?_none`: the lexeme that is told by the first two characters
  of a text is the longest one, and where it tells none, there is none.
* `Token.scan_eq_munch`: from every place on, scanning follows the rule.
-/

namespace ClassLang

namespace Token

/-! ## Fixed spellings -/

/-- The symbols. -/
def symbols : List Kind :=
  [.assignment, .equals, .notEquals, .lessEquals, .greaterEquals, .less, .greater, .colon,
   .semicolon, .comma, .dot, .ampersand, .openParen, .closeParen, .openBracket, .closeBracket,
   .plus, .dash, .star, .slash, .percent]

/-- The kinds of the reserved words. -/
def keywords : List Kind :=
  [.kwClass, .kwEnd, .kwDo, .kwIf, .kwThen, .kwElse, .kwWhile, .kwReturn, .kwVar, .kwNew, .kwAs,
   .kwThis, .kwTrue, .kwFalse, .kwAnd, .kwOr, .kwNot]

/-- Which of some kinds is spelled this way. -/
def spelled? (ks : List Kind) (w : List Char) : Option Kind := ks.find? fun k => k.text.toList == w

theorem text_inj : ∀ k ∈ symbols ++ keywords, ∀ k' ∈ symbols ++ keywords,
    k.text.toList = k'.text.toList → k = k' := by decide +kernel

theorem spelled?_eq_some {ks : List Kind} {w : List Char} {k : Kind} (h : spelled? ks w = some k) :
    k ∈ ks ∧ k.text.toList = w :=
  ⟨List.mem_of_find?_eq_some h, by simpa using List.find?_some h⟩

theorem spelled?_text {ks : List Kind} (hks : ks ⊆ symbols ++ keywords) {k : Kind} (hk : k ∈ ks) :
    spelled? ks k.text.toList = some k := by
  cases h : spelled? ks k.text.toList with
  | none => exact absurd (List.find?_eq_none.1 h k hk) (by simp)
  | some k' =>
    obtain ⟨hk', htext⟩ := spelled?_eq_some h
    rw [text_inj k' (hks hk') k (hks hk) htext]

theorem spelled?_symbols {k : Kind} (hk : k ∈ symbols) : spelled? symbols k.text.toList = some k :=
  spelled?_text (List.subset_append_left ..) hk

theorem spelled?_keywords {k : Kind} (hk : k ∈ keywords) :
    spelled? keywords k.text.toList = some k :=
  spelled?_text (List.subset_append_right ..) hk

/-- A word is reserved if it is the spelling of a reserved word, from its first character to its
last. -/
theorem kindOfWord_eq (w : List Char) :
    kindOfWord (String.ofList w) = (spelled? keywords w).getD .identifier := by
  have hreserved : reserved = keywords.map fun k => (k.text, k) := rfl
  have hlookup : ∀ ks : List Kind,
      (ks.map fun k => (k.text, k)).lookup (String.ofList w) = spelled? ks w := by
    intro ks
    induction ks with
    | nil => rfl
    | cons k ks ih =>
      rw [List.map_cons, List.lookup_cons, ih, spelled?, spelled?, List.find?_cons]
      have heq : (String.ofList w == k.text) = (k.text.toList == w) := by
        rw [Bool.eq_iff_iff, beq_iff_eq, beq_iff_eq, ← String.toList_inj, String.toList_ofList]
        exact eq_comm
      rw [heq]
  rw [kindOfWord, hreserved, hlookup]

end Token

namespace Lexeme

open Token (symbols spelled?)

/-! ## Classes -/

/-- A class of lexemes. -/
inductive Class where
  | space
  | comment
  | word
  | number
  | symbol
deriving DecidableEq

namespace Class

/-- All classes. -/
def all : List Class := [space, comment, word, number, symbol]

/-- Whether a text, from its first character to its last, is a lexeme of the class. -/
def accepts : Class → List Char → Bool
  | space, c :: w => isWhiteSpace c && w.all isWhiteSpace
  | comment, '/' :: '/' :: w => w.all (· != '\n')
  | word, c :: w => isWordStart c && w.all isWordPart
  | number, c :: w => c.isDigit && w.all Char.isDigit
  | symbol, w => (spelled? symbols w).isSome
  | _, _ => false

/-- The kind of the token that a lexeme of the class stands for, if it stands for one. -/
def kind? : Class → List Char → Option Token.Kind
  | space, _ => none
  | comment, _ => none
  | word, w => some ((spelled? Token.keywords w).getD .identifier)
  | number, _ => some .number
  | symbol, w => spelled? symbols w

/-- Whether a lexeme of the class may start with this character. -/
def starts : Class → Char → Bool
  | space, c => isWhiteSpace c
  | comment, c => c = '/'
  | word, c => isWordStart c
  | number, c => c.isDigit
  | symbol, c => symbols.any fun k => k.text.toList.head? = some c

theorem accepts_symbol_iff {w : List Char} :
    symbol.accepts w = true ↔ ∃ k ∈ symbols, k.text.toList = w := by
  rw [accepts, Option.isSome_iff_exists]
  constructor
  · rintro ⟨k, hk⟩
    exact ⟨k, Token.spelled?_eq_some hk⟩
  · rintro ⟨k, hk, rfl⟩
    exact ⟨k, Token.spelled?_symbols hk⟩

theorem accepts_comment_iff {w : List Char} :
    comment.accepts w = true ↔ ∃ v, w = '/' :: '/' :: v ∧ '\n' ∉ v := by
  constructor
  · intro h
    unfold accepts at h
    split at h
    all_goals simp_all
    exact fun hmem => h _ hmem rfl
  · rintro ⟨v, rfl, hv⟩
    rw [accepts, List.all_eq_true]
    intro x hx
    simpa using ne_of_mem_of_not_mem hx hv

variable {k k' : Class} {c : Char} {w : List Char}

/-- No lexeme is empty. -/
theorem exists_cons_of_accepts (h : k.accepts w = true) :
    ∃ c v, w = c :: v ∧ k.starts c = true := by
  cases k with
  | symbol =>
    obtain ⟨kind, hkind, rfl⟩ := accepts_symbol_iff.1 h
    have hne : ∀ kind ∈ symbols, kind.text.toList ≠ [] := by decide
    obtain ⟨c, v, hv⟩ := List.exists_cons_of_ne_nil (hne kind hkind)
    refine ⟨c, v, hv, List.any_eq_true.2 ⟨kind, hkind, ?_⟩⟩
    rw [hv]
    simp
  | comment =>
    obtain ⟨v, rfl, -⟩ := accepts_comment_iff.1 h
    exact ⟨'/', '/' :: v, rfl, rfl⟩
  | _ =>
    unfold accepts at h
    split at h
    all_goals simp_all [starts]

/-- No symbol starts with what white space, a word or a number may start with. -/
theorem starts_symbol (h : symbol.starts c = true) :
    isWhiteSpace c = false ∧ isWordPart c = false := by
  have hsymbols : ∀ k ∈ symbols,
      k.text.toList.head?.all (fun c => !isWhiteSpace c && !isWordPart c) = true := by decide
  obtain ⟨k, hk, hc⟩ := List.any_eq_true.1 h
  have hall := hsymbols k hk
  rw [of_decide_eq_true hc] at hall
  simpa using hall

/-- The first character of a lexeme tells white space, words and numbers from each other and from
all else. -/
theorem starts_tells (h : k.starts c = true) : isWhiteSpace c = (k == space) ∧
    isWordStart c = (k == word) ∧ c.isDigit = (k == number) := by
  have hpart : isWordPart c = false → isWordStart c = false ∧ c.isDigit = false := fun hc =>
    ⟨Bool.eq_false_iff.2 fun hs => Bool.eq_false_iff.1 hc (isWordPart_of_isWordStart hs),
      Bool.eq_false_iff.2 fun hd => Bool.eq_false_iff.1 hc (isWordPart_of_isDigit hd)⟩
  cases k with
  | space =>
    refine ⟨h, hpart (Bool.eq_false_iff.2 fun hc => ?_)⟩
    rw [starts, isWhiteSpace_of_isWordPart hc] at h
    cases h
  | comment =>
    rw [of_decide_eq_true h]
    decide
  | word =>
    exact ⟨isWhiteSpace_of_isWordPart (isWordPart_of_isWordStart h), h, isDigit_of_isWordStart h⟩
  | number =>
    refine ⟨isWhiteSpace_of_isWordPart (isWordPart_of_isDigit h), Bool.eq_false_iff.2 ?_, h⟩
    intro hc
    rw [starts, isDigit_of_isWordStart hc] at h
    cases h
  | symbol => exact ⟨(starts_symbol h).1, hpart (starts_symbol h).2⟩

/-- No symbol is a comment. -/
theorem accepts_comment_text : ∀ kind ∈ symbols, comment.accepts kind.text.toList = false := by
  decide

/-- **Classes have no lexeme in common.** -/
theorem eq_of_accepts (h : k.accepts w = true) (h' : k'.accepts w = true) : k = k' := by
  obtain ⟨c, v, rfl, hc⟩ := exists_cons_of_accepts h
  obtain ⟨c', v', heq, hc'⟩ := exists_cons_of_accepts h'
  obtain ⟨rfl, -⟩ := List.cons.inj heq
  obtain ⟨hspace, hword, hnumber⟩ := starts_tells hc
  obtain ⟨hspace', hword', hnumber'⟩ := starts_tells hc'
  have hpair : k = k' ∨ k = comment ∧ k' = symbol ∨ k = symbol ∧ k' = comment := by
    have hs := hspace.symm.trans hspace'
    have hw := hword.symm.trans hword'
    have hn := hnumber.symm.trans hnumber'
    clear h h' hc hc' hspace hspace' hword hword' hnumber hnumber'
    revert hs hw hn
    cases k <;> cases k' <;> decide
  have hsymbol : symbol.accepts (c :: v) = true → comment.accepts (c :: v) ≠ true := by
    intro hs
    obtain ⟨kind, hkind, htext⟩ := accepts_symbol_iff.1 hs
    rw [← htext, accepts_comment_text kind hkind]
    exact Bool.false_ne_true
  rcases hpair with rfl | ⟨rfl, rfl⟩ | ⟨rfl, rfl⟩
  · rfl
  · exact absurd h (hsymbol h')
  · exact absurd h' (hsymbol h)

end Class

/-! ## The longest lexeme -/

/-- The class of a text that is a lexeme. -/
def classOf? (w : List Char) : Option Class := Class.all.find? fun k => k.accepts w

/-- The longest beginning of a text that is a lexeme of some class, with its class. -/
def longest? (text : List Char) : Option (Class × List Char) :=
  text.inits.reverse.findSome? fun w => (classOf? w).map fun k => (k, w)

/-- The lexeme `w` of class `k` is the longest that the text starts with. -/
structure Longest (text : List Char) (k : Class) (w : List Char) : Prop where
  accepts : k.accepts w = true
  starts : w <+: text
  longest : ∀ (k' : Class) w', k'.accepts w' = true → w' <+: text → w'.length ≤ w.length

variable {text w : List Char} {k : Class}

theorem classOf?_eq_some_iff : classOf? w = some k ↔ k.accepts w = true := by
  constructor
  · exact fun h => List.find?_some (p := fun k : Class => k.accepts w) h
  · intro h
    cases hclass : classOf? w with
    | none =>
      have hmem : k ∈ Class.all := by cases k <;> decide
      exact absurd h (List.find?_eq_none.1 hclass k hmem)
    | some k' =>
      have h' := List.find?_some (p := fun k : Class => k.accepts w) hclass
      rw [Class.eq_of_accepts h' h]

/-- The beginnings of a text are listed from the shortest to the longest. -/
theorem inits_pairwise (text : List Char) :
    text.inits.Pairwise fun v w => v.length < w.length := by
  induction text with
  | nil => exact List.pairwise_singleton ..
  | cons c text ih =>
    rw [List.inits_cons, List.pairwise_cons, List.pairwise_map]
    refine ⟨fun w hw => ?_, ih.imp fun h => ?_⟩
    · obtain ⟨v, -, rfl⟩ := List.mem_map.1 hw
      exact Nat.succ_pos _
    · exact Nat.succ_lt_succ h

theorem longest_of_longest? (h : longest? text = some (k, w)) : Longest text k w := by
  obtain ⟨shorter, v, longer, hinits, hv, hnone⟩ := List.findSome?_eq_some_iff.1 h
  obtain ⟨k', hclass, heq⟩ := Option.map_eq_some_iff.1 hv
  obtain ⟨rfl, rfl⟩ := Prod.mk.inj heq
  have hmem : ∀ {w'}, w' ∈ shorter ++ v :: longer ↔ w' <+: text := by
    intro w'
    rw [← hinits, List.mem_reverse, List.mem_inits]
  refine ⟨classOf?_eq_some_iff.1 hclass, hmem.1 (by simp), fun k' w' hacc hstarts => ?_⟩
  have hpairs : (shorter ++ v :: longer).Pairwise fun a b => b.length < a.length := by
    rw [← hinits]
    exact List.pairwise_reverse.2 (inits_pairwise text)
  rcases List.mem_append.1 (hmem.2 hstarts) with hmem | hmem
  · have hno := hnone w' hmem
    rw [classOf?_eq_some_iff.2 hacc] at hno
    cases hno
  · rcases List.mem_cons.1 hmem with rfl | hmem
    · exact Nat.le_refl _
    · exact Nat.le_of_lt ((List.pairwise_cons.1 (List.pairwise_append.1 hpairs).2.1).1 w' hmem)

theorem longest?_eq_none_iff :
    longest? text = none ↔ ∀ (k : Class) w, k.accepts w = true → ¬ w <+: text := by
  rw [longest?, List.findSome?_eq_none_iff]
  constructor
  · intro h k w hacc hstarts
    have hno := h w (List.mem_reverse.2 ((List.mem_inits ..).2 hstarts))
    rw [classOf?_eq_some_iff.2 hacc] at hno
    cases hno
  · intro h w hw
    rw [Option.map_eq_none_iff]
    cases hclass : classOf? w with
    | none => rfl
    | some k =>
      exact absurd ((List.mem_inits ..).1 (List.mem_reverse.1 hw))
        (h k w (classOf?_eq_some_iff.1 hclass))

/-- There is one longest lexeme at most. -/
theorem Longest.unique {k' : Class} {w' : List Char} (h : Longest text k w)
    (h' : Longest text k' w') : k = k' ∧ w = w' := by
  have hlength := Nat.le_antisymm (h'.longest k w h.accepts h.starts)
    (h.longest k' w' h'.accepts h'.starts)
  have hw : w = w' :=
    (List.prefix_of_prefix_length_le h.starts h'.starts (Nat.le_of_eq hlength)).eq_of_length hlength
  subst hw
  exact ⟨Class.eq_of_accepts h.accepts h'.accepts, rfl⟩

/-- **What the longest lexeme is.** -/
theorem longest?_eq_some_iff : longest? text = some (k, w) ↔ Longest text k w := by
  refine ⟨longest_of_longest?, fun h => ?_⟩
  cases hlongest : longest? text with
  | none => exact absurd h.starts (longest?_eq_none_iff.1 hlongest k w h.accepts)
  | some found =>
    obtain ⟨rfl, rfl⟩ := (longest_of_longest? hlongest).unique h
    rfl

theorem Longest.length_pos (h : Longest text k w) : 0 < w.length := by
  obtain ⟨c, v, rfl, -⟩ := Class.exists_cons_of_accepts h.accepts
  exact Nat.succ_pos _

/-! ## Symbols -/

variable {c d : Char} {rest v : List Char} {kind : Token.Kind}

/-- The table has the symbols in their order, each with its own spelling. -/
theorem spellings_symbolPatterns :
    symbolPatterns.map Pattern.spelling? = symbols.map fun k => some (k.text.toList, k) := by
  decide +kernel

/-- The patterns of symbols spell the symbols. -/
theorem mem_symbolPatterns : .exactly c v kind ∈ symbolPatterns ↔
    kind ∈ symbols ∧ kind.text.toList = c :: v := by
  constructor
  · intro hmem
    have hspelling := List.mem_map_of_mem (f := Pattern.spelling?) hmem
    rw [spellings_symbolPatterns] at hspelling
    obtain ⟨k, hk, heq⟩ := List.mem_map.1 hspelling
    obtain ⟨htext, rfl⟩ := Prod.mk.inj (Option.some.inj heq)
    exact ⟨hk, htext⟩
  · rintro ⟨hkind, htext⟩
    have hspelling := List.mem_map_of_mem (f := fun k : Token.Kind => some (k.text.toList, k)) hkind
    rw [← spellings_symbolPatterns] at hspelling
    obtain ⟨pattern, hmem, heq⟩ := List.mem_map.1 hspelling
    rw [htext] at heq
    cases pattern with
    | exactly head tail kind' => cases heq; exact hmem
    | whiteSpace => cases heq
    | comment => cases heq
    | word => cases heq
    | number => cases heq

/-- **The order of the table**: no symbol begins with one that is tried before it. -/
theorem symbolPatterns_ordered : symbolPatterns.Pairwise fun p q =>
    (p.spelling?.all fun w => (q.spelling?.all fun w' => !w.1.isPrefixOf w'.1)) = true := by
  decide +kernel

/-- Where a symbol stands, its pattern finds it. -/
theorem Pattern.match?_of_prefix (hv : v <+: rest) :
    (Pattern.exactly c v kind).match? c rest = some ⟨some kind, v.length⟩ := by
  rw [Pattern.match?, if_pos]
  rw [Bool.and_eq_true, decide_eq_true_eq]
  exact ⟨rfl, List.isPrefixOf_iff_prefix.2 hv⟩

/-- **The first symbol that fits is the longest**, as the table is in order. -/
theorem symbol?_longest {lexeme : Lexeme} (h : symbol? c rest = some lexeme) : ∃ v kind,
    lexeme = ⟨some kind, v.length⟩ ∧ v <+: rest ∧ kind ∈ symbols ∧ kind.text.toList = c :: v ∧
    ∀ w, Class.symbol.accepts w = true → w <+: c :: rest → w.length ≤ (c :: v).length := by
  obtain ⟨before, pattern, after, htable, hmatch, hbefore⟩ := List.findSome?_eq_some_iff.1 h
  have hmem : pattern ∈ symbolPatterns := by rw [htable]; simp
  obtain ⟨v, kind, rfl, hv, rfl⟩ := Pattern.match?_symbol hmem hmatch
  obtain ⟨hkind, htext⟩ := mem_symbolPatterns.1 hmem
  refine ⟨v, kind, rfl, hv, hkind, htext, fun w hacc hstarts => ?_⟩
  obtain ⟨c', v', rfl, -⟩ := Class.exists_cons_of_accepts hacc
  obtain ⟨rfl, hv'⟩ := List.cons_prefix_cons.1 hstarts
  obtain ⟨kind', hkind', htext'⟩ := Class.accepts_symbol_iff.1 hacc
  have hother : .exactly c' v' kind' ∈ symbolPatterns := mem_symbolPatterns.2 ⟨hkind', htext'⟩
  -- the other symbol is not in front, since its pattern would have found it
  rw [htable, List.mem_append, List.mem_cons] at hother
  rcases hother with hfront | heq | hback
  · have hnone := hbefore _ hfront
    rw [Pattern.match?_of_prefix hv'] at hnone
    cases hnone
  · cases heq
    exact Nat.le_refl _
  · -- behind, it cannot be longer: it would begin with the one that is found
    have hordered := symbolPatterns_ordered
    rw [htable] at hordered
    have hnot := (List.pairwise_cons.1 (List.pairwise_append.1 hordered).2.1).1 _ hback
    refine Nat.le_of_not_lt fun hlt => ?_
    have hbegins : v <+: v' :=
      List.prefix_of_prefix_length_le hv hv' (Nat.le_of_lt (Nat.lt_of_succ_lt_succ hlt))
    have hfalse : (!(c' :: v).isPrefixOf (c' :: v')) = true := hnot
    rw [List.isPrefixOf_iff_prefix.2 (List.cons_prefix_cons.2 ⟨rfl, hbegins⟩)] at hfalse
    cases hfalse

/-- Where no symbol fits, there is none. -/
theorem symbol?_none (h : symbol? c rest = none) (hacc : Class.symbol.accepts w = true) :
    ¬ w <+: c :: rest := by
  intro hstarts
  obtain ⟨c', v, rfl, -⟩ := Class.exists_cons_of_accepts hacc
  obtain ⟨rfl, hv⟩ := List.cons_prefix_cons.1 hstarts
  obtain ⟨kind, hkind, htext⟩ := Class.accepts_symbol_iff.1 hacc
  have hnone := List.findSome?_eq_none_iff.1 h _ (mem_symbolPatterns.2 ⟨hkind, htext⟩)
  rw [Pattern.match?_of_prefix hv] at hnone
  cases hnone

/-! ## The lexeme that the first characters tell -/

/-- A run of characters is the longest lexeme if no lexeme goes on with any other characters. -/
theorem longest_run {p : Char → Bool} (hacc : k.accepts (c :: rest.takeWhile p) = true)
    (hrun : ∀ (k' : Class) v, k'.accepts (c :: v) = true → v <+: rest → ∀ x ∈ v, p x = true) :
    Longest (c :: rest) k (c :: rest.takeWhile p) where
  accepts := hacc
  starts := (List.prefix_cons_inj c).2 (List.takeWhile_prefix p)
  longest := by
    intro k' w' hacc' hstarts
    obtain ⟨c', v, rfl, -⟩ := Class.exists_cons_of_accepts hacc'
    obtain ⟨rfl, hv⟩ := List.cons_prefix_cons.1 hstarts
    have hall := hrun k' v hacc' hv
    obtain ⟨t, rfl⟩ := hv
    rw [List.takeWhile_append_of_pos hall, List.length_cons, List.length_cons, List.length_append]
    omega

/-- What starts like none of the others is a symbol. -/
theorem eq_symbol (hspace : isWhiteSpace c = false) (hcomment : ¬ (c = '/' ∧ rest.head? = some '/'))
    (hword : isWordStart c = false) (hnumber : c.isDigit = false)
    (hacc : k.accepts w = true) (hstarts : w <+: c :: rest) : k = .symbol := by
  obtain ⟨c', v, rfl, hc⟩ := Class.exists_cons_of_accepts hacc
  obtain ⟨rfl, hv⟩ := List.cons_prefix_cons.1 hstarts
  rw [(Class.starts_tells hc).1] at hspace
  rw [(Class.starts_tells hc).2.1] at hword
  rw [(Class.starts_tells hc).2.2] at hnumber
  cases k with
  | symbol => rfl
  | comment =>
    obtain ⟨u, heq, -⟩ := Class.accepts_comment_iff.1 hacc
    obtain ⟨rfl, rfl⟩ := List.cons.inj heq
    obtain ⟨t, rfl⟩ := hv
    exact absurd ⟨rfl, rfl⟩ hcomment
  | space => cases hspace
  | word => cases hword
  | number => cases hnumber

/-- A run is the longest lexeme if lexemes of no other class start with its first character. -/
theorem longest_of_starts {p : Char → Bool}
    (hk : ∀ c v, k.accepts (c :: v) = (k.starts c && v.all p)) (hc : k.starts c = true)
    (hother : ∀ k' : Class, k'.starts c = true → k' = k) :
    Longest (c :: rest) k (c :: rest.takeWhile p) := by
  refine longest_run ?_ fun k' v hacc _ => ?_
  · rw [hk, hc, List.all_takeWhile]
    rfl
  · obtain ⟨_, _, heq, hstart⟩ := Class.exists_cons_of_accepts hacc
    obtain ⟨rfl, -⟩ := List.cons.inj heq
    rw [hother k' hstart, hk, Bool.and_eq_true, List.all_eq_true] at hacc
    exact hacc.2

theorem longest_space (hc : isWhiteSpace c = true) (rest : List Char) :
    Longest (c :: rest) .space (c :: rest.takeWhile isWhiteSpace) :=
  longest_of_starts (fun _ _ => rfl) hc fun _ h => by
    rw [(Class.starts_tells h).1] at hc
    exact eq_of_beq hc

theorem longest_word (hc : isWordStart c = true) (rest : List Char) :
    Longest (c :: rest) .word (c :: rest.takeWhile isWordPart) :=
  longest_of_starts (fun _ _ => rfl) hc fun _ h => by
    rw [(Class.starts_tells h).2.1] at hc
    exact eq_of_beq hc

theorem longest_number (hc : c.isDigit = true) (rest : List Char) :
    Longest (c :: rest) .number (c :: rest.takeWhile Char.isDigit) :=
  longest_of_starts (fun _ _ => rfl) hc fun _ h => by
    rw [(Class.starts_tells h).2.2] at hc
    exact eq_of_beq hc

/-- A comment goes on to the end of its line. -/
theorem longest_comment (rest : List Char) :
    Longest ('/' :: '/' :: rest) .comment ('/' :: '/' :: rest.takeWhile (· != '\n')) := by
  have hrun : ('/' :: rest).takeWhile (· != '\n') = '/' :: rest.takeWhile (· != '\n') := by simp
  rw [← hrun]
  refine longest_run ?_ fun k v hacc _ => ?_
  · exact Class.accepts_comment_iff.2 ⟨_, rfl, fun h => by
      simpa using List.all_eq_true.1 List.all_takeWhile _ h⟩
  · -- Symbols are comments or not, but there is no newline in any.
    have hsymbols : ∀ kind ∈ symbols, kind.text.toList.all (· != '\n') = true := by decide
    obtain ⟨_, _, heq, hstart⟩ := Class.exists_cons_of_accepts hacc
    obtain ⟨rfl, -⟩ := List.cons.inj heq
    obtain ⟨hspace, hword, hnumber⟩ := Class.starts_tells hstart
    cases k with
    | space => cases hspace
    | word => cases hword
    | number => cases hnumber
    | symbol =>
      obtain ⟨kind, hkind, htext⟩ := Class.accepts_symbol_iff.1 hacc
      intro x hx
      exact List.all_eq_true.1 (hsymbols kind hkind) x
        (by rw [htext]; exact List.mem_cons_of_mem _ hx)
    | comment =>
      obtain ⟨u, heq, hu⟩ := Class.accepts_comment_iff.1 hacc
      obtain ⟨-, rfl⟩ := List.cons.inj heq
      intro x hx
      rw [bne_iff_ne]
      rintro rfl
      simp [hu] at hx

/-- **The lexeme that is told is the longest.** -/
theorem first?_longest {lexeme : Lexeme} (h : first? c rest = some lexeme) : ∃ k,
    Longest (c :: rest) k (c :: rest.take lexeme.more) ∧
      k.kind? (c :: rest.take lexeme.more) = lexeme.kind := by
  rw [first?_eq] at h
  split at h
  next hspace =>
    cases h
    rw [take_length_takeWhile]
    exact ⟨_, longest_space hspace rest, rfl⟩
  next hspace =>
  split at h
  next hcomment =>
    cases h
    rw [Bool.and_eq_true, decide_eq_true_eq, decide_eq_true_eq] at hcomment
    obtain ⟨rfl, hrest⟩ := hcomment
    obtain ⟨u, rfl⟩ := List.head?_eq_some_iff.1 hrest
    rw [take_length_takeWhile]
    exact ⟨_, longest_comment u, rfl⟩
  next hcomment =>
  split at h
  next hword =>
    cases h
    rw [take_length_takeWhile]
    exact ⟨_, longest_word hword rest, congrArg some (Token.kindOfWord_eq _).symm⟩
  next hword =>
  split at h
  next hnumber =>
    cases h
    rw [take_length_takeWhile]
    exact ⟨_, longest_number hnumber rest, rfl⟩
  next hnumber =>
    -- no other class accepts a text that starts with `c`
    have hother : ∀ (k : Class) v, k.accepts v = true → v <+: c :: rest → k = .symbol :=
      fun k v => eq_symbol (by simpa using hspace) (by simpa using hcomment) (by simpa using hword)
        (by simpa using hnumber)
    obtain ⟨v, kind, rfl, hv, hkind, htext, hlongest⟩ := symbol?_longest h
    have hacc : Class.symbol.accepts (c :: v) = true :=
      Class.accepts_symbol_iff.2 ⟨kind, hkind, htext⟩
    have htake : rest.take v.length = v := (List.prefix_iff_eq_take.1 hv).symm
    show ∃ k, Longest (c :: rest) k (c :: rest.take v.length) ∧ _
    rw [htake]
    refine ⟨.symbol, ⟨hacc, List.cons_prefix_cons.2 ⟨rfl, hv⟩, fun k' w' hacc' hstarts' => ?_⟩, ?_⟩
    · obtain rfl := hother k' w' hacc' hstarts'
      exact hlongest w' hacc' hstarts'
    · show spelled? symbols (c :: v) = some kind
      rw [← htext]
      exact Token.spelled?_symbols hkind

/-- **Where no lexeme is told, there is none.** -/
theorem first?_none (h : first? c rest = none) (k : Class) (w : List Char)
    (hacc : k.accepts w = true) : ¬ w <+: c :: rest := by
  intro hstarts
  rw [first?_eq] at h
  split at h
  · cases h
  next hspace =>
  split at h
  · cases h
  next hcomment =>
  split at h
  · cases h
  next hword =>
  split at h
  · cases h
  next hnumber =>
    obtain rfl := eq_symbol (by simpa using hspace) (by simpa using hcomment)
      (by simpa using hword) (by simpa using hnumber) hacc hstarts
    exact symbol?_none h hacc hstarts

end Lexeme

/-! ## Words by the longest match -/

namespace Token

open Lexeme (longest?)

/-- The words of a text: again and again the longest lexeme that it starts with is cut off. -/
def munch (text : List Char) : Except Cause (List Word) :=
  match text with
  | [] => .ok [mark .eof]
  | c :: rest =>
    match h : longest? (c :: rest) with
    | none => .error (.unrecognisedToken (String.singleton c))
    | some (k, w) =>
      have := (Lexeme.longest?_eq_some_iff.1 h).length_pos
      (fun words => (k.kind? w).toList.map (·, String.ofList w) ++ words) <$>
        munch ((c :: rest).drop w.length)
termination_by text.length
decreasing_by
  simp only [List.length_drop, List.length_cons]
  omega

/-- **The longest match is cut off.** -/
theorem munch_of_longest {text w : List Char} {k : Lexeme.Class} (h : Lexeme.Longest text k w) :
    munch text = (fun words => (k.kind? w).toList.map (·, String.ofList w) ++ words) <$>
      munch (text.drop w.length) := by
  cases text with
  | nil =>
    have hpos := h.length_pos
    rw [List.prefix_nil.1 h.starts] at hpos
    cases hpos
  | cons c rest =>
    have hlongest := Lexeme.longest?_eq_some_iff.2 h
    rw [munch]
    split
    · rename_i hnone
      rw [hnone] at hlongest
      cases hlongest
    · rename_i k' w' hsome
      rw [hsome] at hlongest
      cases hlongest
      rfl

theorem munch_of_skip {w tail : List Char} {k : Lexeme.Class} (h : Lexeme.Longest (w ++ tail) k w)
    (hk : k.kind? w = none) : munch (w ++ tail) = munch tail := by
  rw [munch_of_longest h, hk, List.drop_left]
  exact id_map (munch tail)

theorem munch_of_kind {w tail : List Char} {k : Lexeme.Class} {kind : Kind}
    (h : Lexeme.Longest (w ++ tail) k w) (hk : k.kind? w = some kind) :
    munch (w ++ tail) = ((kind, String.ofList w) :: ·) <$> munch tail := by
  rw [munch_of_longest h, hk, List.drop_left]
  rfl

theorem munch_of_none {c : Char} {rest : List Char}
    (h : ∀ (k : Lexeme.Class) w, k.accepts w = true → ¬ w <+: c :: rest) :
    munch (c :: rest) = .error (.unrecognisedToken (String.singleton c)) := by
  have hlongest := Lexeme.longest?_eq_none_iff.2 h
  rw [munch]
  split
  · rfl
  · rename_i hsome
    rw [hsome] at hlongest
    cases hlongest

theorem munch_of_first? {c : Char} {rest : List Char} {lexeme : Lexeme}
    (h : Lexeme.first? c rest = some lexeme) : munch (c :: rest) =
      (fun words => lexeme.kind.toList.map (·, String.ofList (c :: rest.take lexeme.more)) ++ words)
        <$> munch (rest.drop lexeme.more) := by
  obtain ⟨k, hlongest, hkind⟩ := Lexeme.first?_longest h
  have hdrop : (c :: rest).drop (c :: rest.take lexeme.more).length = rest.drop lexeme.more := by
    conv => lhs; arg 2; rw [← List.take_append_drop lexeme.more rest, ← List.cons_append]
    exact List.drop_left
  rw [munch_of_longest hlongest, hkind, hdrop]

/-- What was read, as words: the places are left out. -/
def reading : Except Diagnostic (List Token) → Except Cause (List Word)
  | .ok tokens => .ok (tokens.map word)
  | .error d => .error d.cause

/-- **Scanning follows the rule of the longest match**, from every place on. -/
theorem scan_eq_munch (p : Position) (text : List Char) : reading (scan p text) = munch text := by
  fun_induction scan p text with
  | case1 p =>
    rw [munch]
    rfl
  | case2 p c rest hfirst => exact (munch_of_none (Lexeme.first?_none hfirst)).symm
  | case3 p c rest lexeme hfirst written q d hscan ih =>
    rw [munch_of_first? hfirst, ← ih, hscan]
    rfl
  | case4 p c rest lexeme hfirst written q tokens hkind hscan ih
  | case5 p c rest lexeme hfirst written q tokens kind hkind hscan ih =>
    rw [munch_of_first? hfirst, ← ih, hscan, hkind]
    rfl

/-- **The longest match**: reading a text gives the words, or fails with the character, that the
rule of the longest match gives. -/
theorem ofText_eq_munch (file source : String) :
    reading (ofText file source) = munch source.toList :=
  scan_eq_munch (.origin file) source.toList

end Token

end ClassLang
