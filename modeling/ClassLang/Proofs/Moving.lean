import ClassLang.Source.Reader
import ClassLang.Proofs.Scanning

/-!
# Scanning is moving

The tokens of a text are found by a reader that moves over it lexeme by lexeme. It looks up the next
lexeme in what is left, notes where it stands, moves on by the bytes of the lexeme, and notes where
it stands then. No such move ends inside a character, and none is refused as long as the offsets of
the text fit.

* `Reader.advance?_of_append`: a move over characters, from the place of the first to that behind the
  last.
* `Reader.Finds`: what a reader finds from where it stands.
* `Token.scan_found`: that is what scanning gives; `Token.ofText_found` says so of whole texts.
-/

namespace ClassLang

namespace Reader

/-- The bytes of some characters in UTF-8. -/
def bytes (cs : List Char) : Nat := (String.ofList cs).utf8ByteSize

theorem bytes_cons (c : Char) (cs : List Char) : bytes (c :: cs) = c.utf8Size + bytes cs := by
  unfold bytes
  rw [String.ofList_cons, String.utf8ByteSize_append, String.utf8ByteSize_singleton]

theorem bytes_append (cs cs' : List Char) : bytes (cs ++ cs') = bytes cs + bytes cs' := by
  unfold bytes
  rw [String.ofList_append, String.utf8ByteSize_append]

/-- A move by the bytes of the next characters goes over these and no others. -/
theorem advanceOver?_append (cs rest : List Char) (p : Position) (offset : Nat) :
    advanceOver? (bytes cs) p offset (cs ++ rest) =
      some ⟨p.behind cs, offset + bytes cs, rest⟩ := by
  induction cs generalizing p offset with
  | nil => cases rest <;> rfl
  | cons c cs ih =>
    have hpos : 0 < c.utf8Size := c.utf8Size_pos
    have hne : bytes (c :: cs) ≠ 0 := by
      rw [bytes_cons]
      omega
    have hle : c.utf8Size ≤ bytes (c :: cs) := by
      rw [bytes_cons]
      exact Nat.le_add_right ..
    have hleft : bytes (c :: cs) - c.utf8Size = bytes cs := by
      rw [bytes_cons]
      exact Nat.add_sub_cancel_left ..
    rw [List.cons_append, advanceOver?, if_neg hne, if_pos hle, hleft, ih, bytes_cons,
      Nat.add_assoc]
    rfl

/-- **A move over characters** leads from the place of the first to the place behind the last. -/
theorem advance?_of_append {r : Reader} {cs rest : List Char} (hrest : r.rest = cs ++ rest)
    (hfits : r.offset + bytes r.rest < offsetBound) :
    r.advance? (bytes cs) = some ⟨r.position.behind cs, r.offset + bytes cs, rest⟩ := by
  rw [hrest, bytes_append] at hfits
  have hbound : r.offset + bytes cs < offsetBound := by omega
  rw [advance?, if_pos hbound, hrest, advanceOver?_append]

/-- **What a reader finds** from where it stands: the end of the text, a character that no lexeme
starts with, or the next lexeme and what is found behind it. -/
inductive Finds : Reader → Except Diagnostic (List Token) → Prop
  | eof {r : Reader} (hend : r.atEnd = true) : Finds r (.ok [.endOfText r.position])
  | stray {r : Reader} {c : Char} {rest : List Char} (hrest : r.rest = c :: rest)
      (hfirst : Lexeme.first? c rest = none) :
      Finds r (.error ⟨.unrecognisedToken (String.singleton c), r.position, r.position.next c⟩)
  | move {r r' : Reader} {c : Char} {rest : List Char} {lexeme : Lexeme}
      {found : Except Diagnostic (List Token)} (hrest : r.rest = c :: rest)
      (hfirst : Lexeme.first? c rest = some lexeme)
      (hmove : r.advance? (bytes (c :: rest.take lexeme.more)) = some r') (h : Finds r' found) :
      Finds r (found.map fun ts => lexeme.kind.toList.map
        (⟨·, String.ofList (c :: rest.take lexeme.more), r.position, r'.position⟩) ++ ts)

/-- The next lexeme is moved over, and the offsets behind it still fit. -/
theorem exists_advance? {r : Reader} {c : Char} {rest : List Char} (n : Nat)
    (hrest : r.rest = c :: rest) (hfits : r.offset + bytes r.rest < offsetBound) :
    ∃ r', r.advance? (bytes (c :: rest.take n)) = some r' ∧
      r'.position = r.position.behind (c :: rest.take n) ∧ r'.rest = rest.drop n ∧
      r'.offset + bytes r'.rest < offsetBound := by
  have hsplit : r.rest = (c :: rest.take n) ++ rest.drop n := by
    rw [hrest, List.cons_append, List.take_append_drop]
  refine ⟨_, advance?_of_append hsplit hfits, rfl, rfl, ?_⟩
  rwa [hsplit, bytes_append, ← Nat.add_assoc] at hfits

end Reader

namespace Token

open Reader

/-- **Scanning gives what a reader finds.** -/
theorem scan_found (p : Position) (text : List Char) : ∀ r : Reader, r.position = p →
    r.rest = text → r.offset + bytes r.rest < offsetBound → r.Finds (scan p text) := by
  fun_induction scan p text with
  | case1 p =>
    rintro r rfl hrest -
    exact .eof (List.isEmpty_iff.2 hrest)
  | case2 p c rest hfirst =>
    rintro r rfl hrest -
    exact .stray hrest hfirst
  | case3 p c rest lexeme hfirst written q d hscan ih =>
    rintro r rfl hrest hfits
    obtain ⟨r', hmove, hplace, hleft, hfits'⟩ := exists_advance? lexeme.more hrest hfits
    have hfound := ih r' hplace hleft hfits'
    rw [hscan] at hfound
    exact .move hrest hfirst hmove hfound
  | case4 p c rest lexeme hfirst written q tokens hkind hscan ih =>
    rintro r rfl hrest hfits
    obtain ⟨r', hmove, hplace, hleft, hfits'⟩ := exists_advance? lexeme.more hrest hfits
    have hfound := Finds.move hrest hfirst hmove (ih r' hplace hleft hfits')
    rwa [hscan, hkind] at hfound
  | case5 p c rest lexeme hfirst written q tokens kind hkind hscan ih =>
    rintro r rfl hrest hfits
    obtain ⟨r', hmove, hplace, hleft, hfits'⟩ := exists_advance? lexeme.more hrest hfits
    have hfound := Finds.move hrest hfirst hmove (ih r' hplace hleft hfits')
    rwa [hscan, hkind, hplace] at hfound

/-- The tokens of a text, or the fault in it, are what a reader finds that starts at its
beginning. -/
theorem ofText_found {source : String} (hfits : source.utf8ByteSize < offsetBound)
    (file : String) : (Reader.ofText file source).Finds (ofText file source) := by
  refine scan_found (.origin file) source.toList _ rfl rfl ?_
  show 0 + (String.ofList source.toList).utf8ByteSize < offsetBound
  rwa [String.ofList_toList, Nat.zero_add]

end Token

end ClassLang
