import ClassLang.Proofs.AcceptedUnit
import ClassLang.Proofs.Spelling

/-!
# The tokens of a text

The tokens of a text are spelled as their kinds ask: names are words that are not reserved, numbers are
digits, and all others are written in one way. Only the last token is the end of the text. So what is
read from a text is derived from its tokens in the grammar.

* `Token.spells_of_ofText`: how the tokens of a text are spelled.
* `CompilationUnit.derives_of_text`: a unit that is read from a text is derived from its tokens.
-/

namespace ClassLang

/-! ## Spellings -/

namespace Token

open Lexeme

variable {k : Kind} {w : List Char}

theorem Kind.Spells.ne_eof (h : k.Spells w) : k ≠ .eof := by
  cases h with
  | identifier _ _ => decide
  | number _ _ => decide
  | fixed heof _ _ => exact heof

/-- A number is spelled with digits. -/
theorem Kind.Spells.digits (h : Kind.number.Spells w) : w ≠ [] ∧ ∀ c ∈ w, c.isDigit = true := by
  cases h with
  | number hne hd => exact ⟨hne, hd⟩
  | fixed _ _ hnum => exact absurd rfl hnum

/-- A word that is not reserved. -/
def IsFree (n : String) : Prop := IsWord n ∧ ∀ k ∈ keywords, k.text ≠ n

/-- A name is spelled as a free word. -/
theorem Kind.Spells.free (h : Kind.identifier.Spells w) : IsFree (String.ofList w) := by
  cases h with
  | identifier hn hfree =>
    rw [String.ofList_toList]
    exact ⟨hn, hfree⟩
  | fixed _ hid _ => exact absurd rfl hid

theorem spells_of_mem (hk : k ∈ symbols ++ keywords) : k.Spells k.text.toList := by
  have hfixed : ∀ k ∈ symbols ++ keywords, k ≠ .eof ∧ k ≠ .identifier ∧ k ≠ .number := by decide
  obtain ⟨heof, hid, hnum⟩ := hfixed k hk
  exact .fixed heof hid hnum

/-- **A lexeme that stands for a token spells it.** -/
theorem spells_of_kind? {c : Lexeme.Class} (hacc : c.accepts w = true) (hk : c.kind? w = some k) :
    k.Spells w := by
  cases c with
  | space => cases hk
  | comment => cases hk
  | number =>
    cases hk
    obtain ⟨x, v, rfl, -⟩ := Class.exists_cons_of_accepts hacc
    rw [Class.accepts, Bool.and_eq_true, List.all_eq_true] at hacc
    exact .number (List.cons_ne_nil x v) (List.forall_mem_cons.2 hacc)
  | symbol =>
    obtain ⟨hmem, rfl⟩ := spelled?_eq_some hk
    exact spells_of_mem (List.mem_append_left _ hmem)
  | word =>
    cases hspelled : spelled? keywords w with
    | some k' =>
      rw [Class.kind?, hspelled] at hk
      cases hk
      obtain ⟨hmem, rfl⟩ := spelled?_eq_some hspelled
      exact spells_of_mem (List.mem_append_right _ hmem)
    | none =>
      rw [Class.kind?, hspelled] at hk
      cases hk
      have hword : IsWord (String.ofList w) := isWord_of_accepts (by rwa [String.toList_ofList])
      -- a word that is no keyword is a name
      have hspells := Kind.Spells.identifier hword fun k' hk' htext => by
        have hfree := List.find?_eq_none.1 hspelled k' hk'
        rw [htext, String.toList_ofList, beq_self_eq_true] at hfree
        exact hfree rfl
      rwa [String.toList_ofList] at hspells

/-- **The words of a text are spelled as their kinds ask**, and the end of the text follows them. -/
theorem munch_spells (text : List Char) : Yields (munch text)
    (fun ws => ∃ ws', ws = ws' ++ [mark .eof] ∧ ∀ w ∈ ws', w.1.Spells w.2.toList)
    fun _ => True := by
  fun_induction munch text with
  | case1 => exact ⟨[], rfl, List.forall_mem_nil _⟩
  | case2 c rest hnone => trivial
  | case3 c rest k w hsome hpos ih =>
    refine (ih.post ?_).map
    rintro ws ⟨ws', rfl, hws'⟩
    refine ⟨_, (List.append_assoc ..).symm, List.forall_mem_append.2 ⟨?_, hws'⟩⟩
    intro word hword
    obtain ⟨kind, hkind, rfl⟩ := List.mem_map.1 hword
    rw [String.toList_ofList]
    exact spells_of_kind? (longest?_eq_some_iff.1 hsome).accepts (Option.mem_toList.1 hkind)

/-- **How the tokens of a text are spelled.** -/
theorem spells_of_ofText {file source : String} {ts : List Token}
    (h : ofText file source = .ok ts) : ∃ body last, ts = body ++ [last] ∧ last.kind = .eof ∧
      ∀ t ∈ body, t.kind.Spells t.value.toList := by
  have hwords := munch_spells source.toList
  rw [← scan_eq_munch (.origin file), show scan (.origin file) source.toList = .ok ts from h] at hwords
  obtain ⟨ws, hts, hws⟩ := hwords
  obtain ⟨body, rest, rfl, rfl, hrest⟩ := List.map_eq_append_iff.1 hts
  obtain ⟨last, rfl, hlast⟩ := List.map_eq_singleton_iff.1 hrest
  refine ⟨body, last, rfl, congrArg Prod.fst hlast, fun t ht => ?_⟩
  exact hws t.word (List.mem_map_of_mem ht)

end Token

/-! ## What is read from a text -/

theorem Cursor.ofTokens?_eq_some {file : String} {ts : List Token} {c : Cursor}
    (h : ofTokens? file ts = some c) : c.past = false ∧ c.current :: c.ahead = ts := by
  cases ts with
  | nil => cases h
  | cons t ts =>
    cases h
    exact ⟨rfl, rfl⟩

namespace CompilationUnit

theorem ofTokens_eq_ok {file : String} {ts : List Token} {u : CompilationUnit}
    (h : ofTokens file ts = .ok u) :
    ∃ c c', Cursor.ofTokens? file ts = some c ∧ parse .standard file c = .ok u c' := by
  unfold ofTokens at h
  split at h
  · cases h
  · rename_i c hc
    split at h
    · rename_i u' c' hrun
      cases h
      exact ⟨c, c', hc, hrun⟩
    · cases h

/-- **A unit that is read from a text** is derived from its tokens. -/
theorem derives_of_text {file source : String} {ts : List Token} {u : CompilationUnit}
    (hts : Token.ofText file source = .ok ts) (hu : ofTokens file ts = .ok u) :
    ∃ body last, ts = body ++ [last] ∧ (∀ t ∈ body, t.kind.Spells t.value.toList) ∧
      Derives body u := by
  obtain ⟨body, last, rfl, hlast, hspells⟩ := Token.spells_of_ofText hts
  obtain ⟨c, c', hc, hrun⟩ := ofTokens_eq_ok hu
  obtain ⟨hfresh, htokens⟩ := Cursor.ofTokens?_eq_some hc
  have hlive : c.Live :=
    ⟨hfresh, body, last, htokens, hlast, fun t ht => (hspells t ht).ne_eof⟩
  obtain ⟨read, hread, hder, hend⟩ := (parse_leads file hlive).of_ok hrun
  -- only the end of the text is left, so the tokens read are all the others
  have hall := hread.tokens
  rw [htokens, hread.live.ahead_eq_nil hend] at hall
  rw [← (List.append_inj' hall rfl).1] at hder
  exact ⟨body, last, rfl, hspells, hder⟩

end CompilationUnit

end ClassLang
