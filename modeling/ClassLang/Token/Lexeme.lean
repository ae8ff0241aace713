import ClassLang.Text.WhiteSpace
import ClassLang.Token.Basic

/-!
# Lexemes

A lexeme is a stretch of text that is read as one: white space, a comment, a word, a number or a
symbol. What it may look like is listed in a table of patterns. They are tried one after the other
at the beginning of a text, and the first that fits is taken.
-/

namespace ClassLang

/-- Whether a word may start with this character. -/
def isWordStart (c : Char) : Bool := c.isAlpha || c = '_'

/-- Whether a word may go on with this character. -/
def isWordPart (c : Char) : Bool := c.isAlphanum || c = '_'

/-- A lexeme at the beginning of a text. White space and comments stand for no token. -/
structure Lexeme where
  kind : Option Token.Kind
  /-- How many characters it has after its first. -/
  more : Nat
deriving DecidableEq

namespace Lexeme

/-- What a lexeme may look like. -/
inductive Pattern where
  | whiteSpace
  /-- Two slashes and all that is left of the line. -/
  | comment
  | word
  | number
  /-- These characters, of which there is at least one. -/
  | exactly (head : Char) (tail : List Char) (kind : Token.Kind)
deriving DecidableEq

/-- The patterns, in the order in which they are tried. -/
def patterns : List Pattern :=
  [.whiteSpace,
   .comment,
   .word,
   .number,
   .exactly ':' ['='] .assignment,
   .exactly '=' ['='] .equals,
   .exactly '!' ['='] .notEquals,
   .exactly '<' ['='] .lessEquals,
   .exactly '>' ['='] .greaterEquals,
   .exactly '<' [] .less,
   .exactly '>' [] .greater,
   .exactly ':' [] .colon,
   .exactly ';' [] .semicolon,
   .exactly ',' [] .comma,
   .exactly '.' [] .dot,
   .exactly '&' [] .ampersand,
   .exactly '(' [] .openParen,
   .exactly ')' [] .closeParen,
   .exactly '[' [] .openBracket,
   .exactly ']' [] .closeBracket,
   .exactly '+' [] .plus,
   .exactly '-' [] .dash,
   .exactly '*' [] .star,
   .exactly '/' [] .slash,
   .exactly '%' [] .percent]

/-- The lexeme that a pattern finds at the beginning of the text `c :: rest`. -/
def Pattern.match? (c : Char) (rest : List Char) : Pattern → Option Lexeme
  | whiteSpace =>
    if isWhiteSpace c then some ⟨none, (rest.takeWhile isWhiteSpace).length⟩ else none
  | comment =>
    if c = '/' && rest.head? = some '/' then
      some ⟨none, (rest.takeWhile fun d => d != '\n').length⟩
    else none
  | word =>
    if isWordStart c then
      let tail := rest.takeWhile isWordPart
      some ⟨some (Token.kindOfWord (String.ofList (c :: tail))), tail.length⟩
    else none
  | number => if c.isDigit then some ⟨some .number, (rest.takeWhile Char.isDigit).length⟩ else none
  | exactly head tail kind =>
    if c = head && tail.isPrefixOf rest then some ⟨some kind, tail.length⟩ else none

/-- The lexeme at the beginning of the text `c :: rest`: what the first pattern finds that finds
one. -/
def first? (c : Char) (rest : List Char) : Option Lexeme :=
  patterns.findSome? fun pattern => pattern.match? c rest

end Lexeme

end ClassLang
