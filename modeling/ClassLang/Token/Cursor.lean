import ClassLang.Token.Basic
import ClassLang.Diagnostic.Report

/-!
# Reading a list of tokens

A cursor stands on a token of a list that is not empty. It moves forward one token at a time and
never leaves the list: behind the last token it stays there, so that the last token can be read
again and again. A list of tokens normally ends with the end of the text, which nothing reads
past.

`Parse` is reading with a cursor that moves. A reader that stops for a reason leaves the cursor
where it stopped.
-/

namespace ClassLang

/-- A place in a list of tokens. -/
structure Cursor where
  /-- The token the cursor stands on. -/
  current : Token
  /-- The tokens after it. -/
  ahead : List Token
  /-- Whether the current token, the last one, has been read already. -/
  past : Bool
  /-- Where the token read last ends, at first the beginning of the text. -/
  lastEnd : Position
  /-- How many tokens the list has. -/
  size : Nat
  fits : ahead.length < size

namespace Cursor

/-- A cursor on the first of some tokens of the text called `file`. -/
def ofTokens? (file : String) : List Token → Option Cursor
  | [] => none
  | t :: ts => some ⟨t, ts, false, .origin file, ts.length + 1, Nat.lt_succ_self _⟩

/-- The kind of the token after the current one. -/
def peek (c : Cursor) : Token.Kind :=
  match c.ahead with
  | t :: _ => t.kind
  | [] => c.current.kind

/-- The cursor after reading the current token. -/
def next : Cursor → Cursor
  | ⟨t, u :: ahead, past, _, size, fits⟩ =>
    ⟨u, ahead, past, t.span.stop, size, Nat.lt_of_succ_lt fits⟩
  | ⟨t, [], _, _, size, fits⟩ => ⟨t, [], true, t.span.stop, size, fits⟩

/-- Whether a token other than the end of the text is still to be read. -/
def more (c : Cursor) : Bool := !c.past && c.current.kind != .eof

/-- Where the current token starts. -/
def position (c : Cursor) : Position := c.current.span.start

/-- From `start` to the end of the token read last. -/
def spanFrom (c : Cursor) (start : Position) : Span := ⟨start, c.lastEnd⟩

/-- How many tokens are still to be read. -/
def left (c : Cursor) : Nat := if c.past then 0 else c.ahead.length + 1

/-- The steps allowed to a reader that reads at least one token with each step. Only one that
would read the last token for ever takes more. -/
def allowance (c : Cursor) : Nat := c.size + 4

/-- The complaint that the current token is not what `message` asks for. -/
def unexpected (c : Cursor) (message : String) : Diagnostic :=
  ⟨.unexpectedTokenDetailed c.current.value message, c.current.span⟩

end Cursor

/-- Why reading stopped. -/
inductive Halt where
  /-- The tokens are refused. -/
  | refused (diagnostic : Diagnostic)
  /-- There is no token to read. -/
  | noToken
  /-- The list has no end of text, and its last token would be read for ever. -/
  | endless

/-- Reading with a cursor. -/
abbrev Parse (α : Type) := EStateM Halt Cursor α

namespace Parse

/-- Stops with a diagnostic. -/
def refuse {α : Type} (d : Diagnostic) : Parse α := throw (.refused d)

/-- Stops at the current token, which is not what `message` asks for. -/
def unexpected {α : Type} (message : String) : Parse α := do
  refuse ((← get).unexpected message)

/-- The kind of the current token. -/
def kind : Parse Token.Kind := return (← get).current.kind

/-- Reads the current token, whatever it is. -/
def advance : Parse Token := do
  let c ← get
  set c.next
  return c.current

/-- Reads a token of the given kind, or stops with `d`. -/
def expectOr (k : Token.Kind) (d : Diagnostic) : Parse Token := do
  if (← kind) = k then advance else refuse d

/-- Reads a token of the given kind. -/
def expect (k : Token.Kind) : Parse Token := do
  let t := (← get).current
  expectOr k ⟨.unexpectedToken t.value, t.span⟩

/-- From `start` to the end of the token read last. -/
def spanFrom (start : Position) : Parse Span := return (← get).spanFrom start

/-- Runs a reader that counts its steps with as many as the cursor allows. -/
def within {α : Type} (reader : Nat → Parse α) : Parse α := do
  reader (← get).allowance

/-- Reads with `item` while `goes` allows it, in at most `steps` steps. -/
def many {α : Type} (goes : Parse Bool) (item : Parse α) : (steps : Nat) → Parse (List α)
  | 0 => throw .endless
  | steps + 1 => do
    if ← goes then
      let a ← item
      let rest ← many goes item steps
      return a :: rest
    else
      return []

/-- Reads items divided by commas up to a closing parenthesis, which is not read. A comma may
follow the last item. -/
def listed {α : Type} (item : Parse α) : (steps : Nat) → Parse (List α)
  | 0 => throw .endless
  | steps + 1 => do
    if (← kind) = .closeParen then return []
    let a ← item
    if (← kind) = .comma then
      let _ ← advance
      let rest ← listed item steps
      return a :: rest
    else
      return [a]

end Parse

end ClassLang
