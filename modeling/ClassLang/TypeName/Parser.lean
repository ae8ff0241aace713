import ClassLang.Grammar
import ClassLang.Token.Cursor
import ClassLang.TypeName.Basic

/-!
# Reading types

A type is a name and the suffixes behind it. A bracket belongs to the type only if it is closed
at once, and a star only if no operand follows it: in `x as T * y` the star multiplies.
-/

namespace ClassLang.TypeName

open Parse

/-- The name of a type. -/
def parseNamed : Parse TypeName := do
  let t ← expect .identifier
  return .named t.value t.span

/-- `[]` behind a type. -/
def parseArray (element : TypeName) : Parse TypeName := do
  let _ ← expect .openBracket
  let _ ← expect .closeBracket
  return .array element (← spanFrom element.span.start)

/-- `*` behind a type. -/
def parsePointer (target : TypeName) : Parse TypeName := do
  let _ ← expect .star
  return .pointer target (← spanFrom target.span.start)

/-- Whether the current token, which may be a suffix, goes on with the type. -/
def continues (g : Grammar) (c : Cursor) : Bool :=
  match c.current.kind with
  | .openBracket => c.peek = .closeBracket
  | .star => (g.operand c.peek).isNone
  | _ => true

/-- The suffix rule by which a type goes on at the cursor, if it binds tighter than `power`. -/
def suffixAt? (g : Grammar) (power : Power) (c : Cursor) : Option TypeRule :=
  match g.typeSuffix c.current.kind with
  | some (p, rule) => if power.below p && continues g c then some rule else none
  | none => none

/-- The suffixes behind a type, at most `steps` of them. -/
def parseSuffixes (g : Grammar) (power : Power) : (steps : Nat) → TypeName → Parse TypeName
  | 0, _ => throw .endless
  | steps + 1, type => do
    match suffixAt? g power (← get) with
    | none => return type
    | some .array => parseSuffixes g power steps (← parseArray type)
    | some .pointer => parseSuffixes g power steps (← parsePointer type)

/-- A type, with the suffixes that bind tighter than `power`. -/
def parse (g : Grammar) (power : Power) : Parse TypeName := do
  if g.typeStart (← kind) then
    let type ← parseNamed
    within fun steps => parseSuffixes g power steps type
  else
    unexpected "expected a type"

end ClassLang.TypeName
