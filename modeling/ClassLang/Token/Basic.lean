import ClassLang.Source.Position

/-!
# Tokens

A token is a word, number or symbol of the language, with the text it was written as and the
span it was found at. The end of a program is a token too.
-/

namespace ClassLang

/-- What a token is; a reserved word has a kind of its own. -/
inductive Token.Kind where
  | eof
  | number
  | identifier
  | openBracket
  | closeBracket
  | openParen
  | closeParen
  | assignment
  | equals
  | notEquals
  | less
  | lessEquals
  | greater
  | greaterEquals
  | dot
  | semicolon
  | colon
  | comma
  | ampersand
  | plus
  | dash
  | slash
  | star
  | percent
  | kwClass
  | kwEnd
  | kwDo
  | kwIf
  | kwThen
  | kwElse
  | kwWhile
  | kwReturn
  | kwVar
  | kwNew
  | kwAs
  | kwThis
  | kwTrue
  | kwFalse
  | kwAnd
  | kwOr
  | kwNot
deriving DecidableEq

/-- A kind, the text the token was written as, and where. -/
structure Token where
  kind : Token.Kind
  value : String
  span : Span
deriving DecidableEq

namespace Token

namespace Kind

/-- All kinds. -/
def all : List Kind :=
  [eof, number, identifier, openBracket, closeBracket, openParen, closeParen, assignment, equals,
   notEquals, less, lessEquals, greater, greaterEquals, dot, semicolon, colon, comma, ampersand,
   plus, dash, slash, star, percent, kwClass, kwEnd, kwDo, kwIf, kwThen, kwElse, kwWhile,
   kwReturn, kwVar, kwNew, kwAs, kwThis, kwTrue, kwFalse, kwAnd, kwOr, kwNot]

/-- The name of a kind. -/
def name : Kind → String
  | eof => "EOF"
  | number => "Number"
  | identifier => "Identifier"
  | openBracket => "OpenBracket"
  | closeBracket => "CloseBracket"
  | openParen => "OpenParen"
  | closeParen => "CloseParen"
  | assignment => "Assignment"
  | equals => "Equals"
  | notEquals => "NotEquals"
  | less => "Less"
  | lessEquals => "LessEquals"
  | greater => "Greater"
  | greaterEquals => "GreaterEquals"
  | dot => "Dot"
  | semicolon => "Semicolon"
  | colon => "Colon"
  | comma => "Comma"
  | ampersand => "Ampersand"
  | plus => "Plus"
  | dash => "Dash"
  | slash => "Slash"
  | star => "Star"
  | percent => "Percent"
  | kwClass => "Class"
  | kwEnd => "End"
  | kwDo => "Do"
  | kwIf => "If"
  | kwThen => "Then"
  | kwElse => "Else"
  | kwWhile => "While"
  | kwReturn => "Return"
  | kwVar => "Var"
  | kwNew => "New"
  | kwAs => "As"
  | kwThis => "This"
  | kwTrue => "True"
  | kwFalse => "False"
  | kwAnd => "And"
  | kwOr => "Or"
  | kwNot => "Not"

/-- The kind of a given name. -/
def ofName? (name : String) : Option Kind := all.find? fun k => k.name == name

end Kind

/-- The reserved words. -/
def reserved : List (String × Kind) :=
  [("class", .kwClass), ("end", .kwEnd), ("do", .kwDo), ("if", .kwIf), ("then", .kwThen),
   ("else", .kwElse), ("while", .kwWhile), ("return", .kwReturn), ("var", .kwVar),
   ("new", .kwNew), ("as", .kwAs), ("this", .kwThis), ("true", .kwTrue), ("false", .kwFalse),
   ("and", .kwAnd), ("or", .kwOr), ("not", .kwNot)]

/-- The kind of a word: a reserved word's own kind, or an identifier. -/
def kindOfWord (word : String) : Kind := (reserved.lookup word).getD .identifier

/-- A token as text for people. -/
def describe (t : Token) : String :=
  "Token \x7b\nkind: " ++ t.kind.name ++ ",\nvalue: " ++ t.value ++ "\x7d"

end Token

end ClassLang
