import ClassLang.Source.Position

/-!
# Moving through a text by bytes

A reader stands between two characters of a text. It moves forward by a number of bytes of the
text's UTF-8 form and stays at the end once it is there. A move is refused if it would stop inside
a character, or if the offset it asks for, be it behind the end of the text, does not fit in 64
bits.
-/

namespace ClassLang

/-- A place in a text, with what is still to be read. -/
structure Reader where
  position : Position
  /-- The number of bytes before this place. -/
  offset : Nat
  rest : List Char

namespace Reader

/-- A reader at the beginning of `text`. -/
def ofText (file text : String) : Reader := ⟨.origin file, 0, text.toList⟩

/-- Whether everything has been read. -/
def atEnd (r : Reader) : Bool := r.rest.isEmpty

/-- What is left after moving `bytes` bytes over the characters `cs`, which start at `p` behind
`offset` bytes. -/
def advanceOver? (bytes : Nat) (p : Position) (offset : Nat) (cs : List Char) : Option Reader :=
  match cs with
  | [] => some ⟨p, offset, []⟩
  | c :: rest =>
    if bytes = 0 then some ⟨p, offset, c :: rest⟩
    else if c.utf8Size ≤ bytes then
      advanceOver? (bytes - c.utf8Size) (p.next c) (offset + c.utf8Size) rest
    else none

/-- One more than the greatest offset a move can ask for. -/
def offsetBound : Nat := UInt64.size

/-- Moves forward by `bytes` bytes, if the offset fits and is not inside a character. -/
def advance? (r : Reader) (bytes : Nat) : Option Reader :=
  if r.offset + bytes < offsetBound then advanceOver? bytes r.position r.offset r.rest else none

end Reader

end ClassLang
