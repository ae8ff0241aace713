import ClassLang.TypeName.Parser
import ClassLang.Expr.Basic

/-!
# Reading expressions

An expression is an operand and the operators behind it. Reading with a power takes only the
operators that bind tighter, and the right operand of an operator is read with the operator's own
power; so operators of one power group to the left.

Each rule is given the reader `sub` for the expressions inside. `Expr.parse` ties the knot: inside
another expression, one is read only after a token, so the nesting is bounded by the number of
tokens left.
-/

namespace ClassLang.Expr

open Parse

/-- The greatest number that can be written. -/
def greatestNumber : Nat := 0x8000000000000000

/-- The value of decimal digits; other characters are refused. -/
def digitsValue? (digits : List Char) : Option Nat :=
  if !digits.isEmpty && digits.all Char.isDigit then
    some (digits.foldl (fun n c => 10 * n + (c.toNat - '0'.toNat)) 0)
  else
    none

/-- The value of a number: decimal digits, which a plus sign may precede. -/
def numberValue? (text : String) : Option Nat :=
  let value := match text.toList with
    | '+' :: digits => digitsValue? digits
    | digits => digitsValue? digits
  value.filter fun n => n ≤ greatestNumber

/-- A number. -/
def parseNumber : Parse Expr := do
  let t ← advance
  match numberValue? t.value with
  | some n => return .number n t.span
  | none => refuse ⟨.invalidNumber t.value, t.span⟩

/-- The name and arguments of a call. -/
def parseCall (sub : Power → Parse Expr) (target : Option Expr) : Parse Expr := do
  let name ← expect .identifier
  let _ ← expect .openParen
  let args ← within (listed (sub .lowest))
  let _ ← expect .closeParen
  match target with
  | some e => return .send e name.value args (← spanFrom e.span.start)
  | none => return .call name.value args (← spanFrom name.span.start)

/-- A number, name, call, truth value or `this`. -/
def parsePrimary (sub : Power → Parse Expr) : Parse Expr := do
  match ← kind with
  | .number => parseNumber
  | .identifier =>
    if (← get).peek = .openParen then
      parseCall sub none
    else
      let t ← advance
      return .symbol t.value t.span
  | .kwTrue =>
    let t ← advance
    return .boolean true t.span
  | .kwFalse =>
    let t ← advance
    return .boolean false t.span
  | .kwThis =>
    let t ← advance
    return .this t.span
  | _ => unexpected "expected a literal or a name"

/-- `-` or `not` and its operand. -/
def parseUnary (sub : Power → Parse Expr) : Parse Expr := do
  let t ← advance
  let op : UnaryOp := if t.kind = .kwNot then .not else .negate
  let operand ← sub .unary
  return .unary op operand (t.span.through operand.span)

/-- `&` and its operand. -/
def parseAddressOf (sub : Power → Parse Expr) : Parse Expr := do
  let t ← advance
  let operand ← sub .unary
  return .addressOf operand (← spanFrom t.span.start)

/-- An expression in parentheses. -/
def parseGrouping (sub : Power → Parse Expr) : Parse Expr := do
  let _ ← advance
  let e ← sub .lowest
  let _ ← expect .closeParen
  return e

/-- `new`, a type and a size. -/
def parseArrayNew (g : Grammar) (sub : Power → Parse Expr) : Parse Expr := do
  let t ← advance
  let element ← TypeName.parse g .lowest
  let _ ← expect .openBracket
  let size ← sub .lowest
  let _ ← expect .closeBracket
  return .arrayNew element size (← spanFrom t.span.start)

/-- An operand, by its rule. -/
def parseOperand (g : Grammar) (sub : Power → Parse Expr) : OperandRule → Parse Expr
  | .primary => parsePrimary sub
  | .unary => parseUnary sub
  | .addressOf => parseAddressOf sub
  | .grouping => parseGrouping sub
  | .arrayNew => parseArrayNew g sub

/-- The operator that a kind of token is between two operands. -/
def binaryOp? : Token.Kind → Option BinaryOp
  | .plus => some .add
  | .dash => some .subtract
  | .star => some .multiply
  | .slash => some .divide
  | .percent => some .modulo
  | .less => some .less
  | .lessEquals => some .lessEquals
  | .greater => some .greater
  | .greaterEquals => some .greaterEquals
  | .equals => some .equals
  | .notEquals => some .notEquals
  | .kwAnd => some .and
  | .kwOr => some .or
  | _ => none

/-- An operator and its right operand, behind `left`. -/
def parseBinary (sub : Power → Parse Expr) (power : Power) (left : Expr) : Parse Expr := do
  match binaryOp? (← kind) with
  | none => unexpected "expected a binary operator"
  | some op =>
    let _ ← advance
    let right ← sub power
    return .binary op left right (left.span.through right.span)

/-- `as` and a type, behind `value`. -/
def parseCast (g : Grammar) (value : Expr) : Parse Expr := do
  let _ ← advance
  let target ← TypeName.parse g .lowest
  return .cast value target (← spanFrom value.span.start)

/-- A dot and a field, or a method with its arguments, behind `target`. -/
def parseMember (sub : Power → Parse Expr) (target : Expr) : Parse Expr := do
  let _ ← advance
  if (← get).peek = .openParen then
    parseCall sub (some target)
  else
    let name ← expect .identifier
    return .member target name.value (target.span.through name.span)

/-- An index in brackets, behind `array`. -/
def parseIndex (sub : Power → Parse Expr) (array : Expr) : Parse Expr := do
  let _ ← advance
  let position ← sub .lowest
  let _ ← expect .closeBracket
  return .index array position (← spanFrom array.span.start)

/-- What follows `left`, by its rule and with its power. -/
def parseOperator (g : Grammar) (sub : Power → Parse Expr) (rule : OperatorRule) (power : Power)
    (left : Expr) : Parse Expr :=
  match rule with
  | .binary => parseBinary sub power left
  | .cast => parseCast g left
  | .member => parseMember sub left
  | .index => parseIndex sub left

/-- The operator at a token, if it binds tighter than `power`. -/
def operatorAt? (g : Grammar) (power : Power) (k : Token.Kind) : Option (Power × OperatorRule) :=
  (g.operator k).filter fun entry => power.below entry.1

/-- The operators behind `left` that bind tighter than `power`, at most `steps` of them. -/
def parseOperators (g : Grammar) (sub : Power → Parse Expr) (power : Power) :
    (steps : Nat) → Expr → Parse Expr
  | 0, _ => throw .endless
  | steps + 1, left => do
    match operatorAt? g power (← kind) with
    | none => return left
    | some (p, rule) => parseOperators g sub power steps (← parseOperator g sub rule p left)

/-- An expression nested at most `depth` deep. -/
def parseWithin (g : Grammar) : (depth : Nat) → Power → Parse Expr
  | 0, _ => throw .endless
  | depth + 1, power => do
    match g.operand (← kind) with
    | none => unexpected "expected an expression"
    | some rule =>
      let left ← parseOperand g (parseWithin g depth) rule
      within fun steps => parseOperators g (parseWithin g depth) power steps left

/-- An expression, with the operators that bind tighter than `power`. -/
def parse (g : Grammar) (power : Power) : Parse Expr :=
  within fun depth => parseWithin g depth power

end ClassLang.Expr
