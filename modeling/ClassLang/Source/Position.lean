/-!
# Positions and spans

A position is a place in a named text: a line and a column, both counted from one, where the
column counts characters and only a newline starts a new line. The counters have 32 bits: behind
the greatest number they go on with zero. A span runs from a position up to, but not including,
another one.
-/

namespace ClassLang

/-- A place in the text called `file`. -/
structure Position where
  line : UInt32
  column : UInt32
  file : String
deriving DecidableEq

namespace Position

/-- Where the text called `file` begins. -/
def origin (file : String) : Position := ⟨1, 1, file⟩

/-- The place of what no text declares. -/
def nowhere : Position := ⟨0, 0, "<null>"⟩

/-- The place right behind the character `c`, if `c` stands at `p`. -/
def next (p : Position) (c : Char) : Position :=
  if c = '\n' then ⟨p.line + 1, 1, p.file⟩ else ⟨p.line, p.column + 1, p.file⟩

/-- The place right behind the characters `cs`, if they start at `p`. -/
def behind (p : Position) (cs : List Char) : Position := cs.foldl next p

end Position

/-- The part of a text from `start` up to, but not including, `stop`. -/
structure Span where
  start : Position
  stop : Position
deriving DecidableEq

namespace Span

/-- The span of what no text declares. -/
def nowhere : Span := ⟨.nowhere, .nowhere⟩

/-- From the start of the first span to the end of the second. -/
def through (s t : Span) : Span := ⟨s.start, t.stop⟩

/-- The text a span lies in is the one it starts in. -/
def file (s : Span) : String := s.start.file

end Span

end ClassLang
