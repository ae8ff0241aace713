import ClassLang.Source.Position

/-!
# Written types

A type is written as a name followed by suffixes, `*` for a pointer to it and `[]` for an array
of it.
-/

namespace ClassLang

/-- A type as it is written in a program. -/
inductive TypeName where
  | named (name : String) (span : Span)
  | pointer (target : TypeName) (span : Span)
  | array (element : TypeName) (span : Span)
deriving DecidableEq

namespace TypeName

/-- Where a type is written, with all its suffixes. -/
def span : TypeName → Span
  | named _ s => s
  | pointer _ s => s
  | array _ s => s

/-- The text of a type. -/
def text : TypeName → String
  | named name _ => name
  | pointer target _ => target.text ++ "*"
  | array element _ => element.text ++ "[]"

end TypeName

end ClassLang
