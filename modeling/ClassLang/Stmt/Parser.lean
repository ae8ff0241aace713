import ClassLang.Expr.Parser
import ClassLang.Stmt.Basic

/-!
# Reading statements and blocks

A statement starts with a word of its own or is an expression or assignment. The rules are given
the reader `stmt` for the statements inside, which every rule of the language reads only after a
token.
-/

namespace ClassLang

open Parse

namespace Block

/-- Whether a block that ends with one of the tokens `ends` goes on. -/
def goesOn (ends : List Token.Kind) : Parse Bool := do
  let k ← kind
  if ends.contains k then
    return false
  else if k = .eof then
    unexpected "expected `end` before end of file"
  else
    return true

/-- Statements up to one of the tokens `ends`, which is not read. -/
def parseUntil (stmt : Parse Stmt) (ends : List Token.Kind) : Parse Block := do
  let start := (← get).position
  let body ← within (many (goesOn ends) stmt)
  return .mk body ⟨start, (← get).position⟩

/-- Statements between `do` and `end`. The block's span holds neither word. -/
def parseDo (stmt : Parse Stmt) : Parse Block := do
  let _ ← expect .kwDo
  let block ← parseUntil stmt [.kwEnd]
  let _ ← expect .kwEnd
  return block

end Block

namespace Stmt

/-- The name of a declared variable. -/
def parseName : Parse Token := do
  if (← kind) = .identifier then
    advance
  else
    unexpected "expected identifier during variable declaration"

/-- The value of a declared variable, if there is one. -/
def parseInitial (g : Grammar) : Parse (Option Expr) := do
  if (← kind) = .assignment then
    let _ ← advance
    some <$> Expr.parse g .lowest
  else
    return none

/-- `var`, a name, a type, and perhaps a value. -/
def parseVarDecl (g : Grammar) : Parse Stmt := do
  let word ← advance
  let name ← parseName
  let _ ← expect .colon
  let type ← TypeName.parse g .lowest
  let value ← parseInitial g
  let _ ← expect .semicolon
  return .varDecl name.value type value (← spanFrom word.span.start)

/-- `if`, a condition, `then`, a block, and perhaps `else` and a block. -/
def parseIf (g : Grammar) (stmt : Parse Stmt) : Parse Stmt := do
  let word ← advance
  let condition ← Expr.parse g .lowest
  let _ ← expect .kwThen
  let yes ← Block.parseUntil stmt [.kwElse, .kwEnd]
  if (← kind) = .kwElse then
    let _ ← advance
    let no ← Block.parseUntil stmt [.kwEnd]
    let _ ← expect .kwEnd
    return .ifElse condition yes no (← spanFrom word.span.start)
  else
    let _ ← expect .kwEnd
    return .ifThen condition yes (← spanFrom word.span.start)

/-- `while`, a condition, and a block between `do` and `end`. -/
def parseWhile (g : Grammar) (stmt : Parse Stmt) : Parse Stmt := do
  let word ← advance
  let condition ← Expr.parse g .lowest
  let body ← Block.parseDo stmt
  return .whileDo condition body (← spanFrom word.span.start)

/-- A block between `do` and `end`, whose span holds both words. -/
def parseNested (stmt : Parse Stmt) : Parse Stmt := do
  let start := (← get).position
  let block ← Block.parseDo stmt
  return .nested (.mk block.body (← spanFrom start))

/-- The value that is returned, if there is one before the semicolon. -/
def parseValue (g : Grammar) : Parse (Option Expr) := do
  if (← kind) = .semicolon then
    return none
  else
    some <$> Expr.parse g .lowest

/-- `return` and perhaps a value. -/
def parseReturn (g : Grammar) : Parse Stmt := do
  let word ← advance
  let value ← parseValue g
  let _ ← expect .semicolon
  return .ret value (← spanFrom word.span.start)

/-- An expression or an assignment. -/
def parseSimple (g : Grammar) : Parse Stmt := do
  let expr ← Expr.parse g .lowest
  if (← kind) = .assignment then
    let _ ← advance
    let value ← Expr.parse g .lowest
    let _ ← expect .semicolon
    return .assignment expr value (← spanFrom expr.span.start)
  else
    let _ ← expect .semicolon
    return .expression expr (← spanFrom expr.span.start)

/-- A statement with a word of its own, by its rule. -/
def parseRule (g : Grammar) (stmt : Parse Stmt) : StmtRule → Parse Stmt
  | .varDecl => parseVarDecl g
  | .ifThen => parseIf g stmt
  | .whileDo => parseWhile g stmt
  | .nested => parseNested stmt
  | .ret => parseReturn g
  | .any => stmt

/-- A statement nested at most `depth` deep. -/
def parseWithin (g : Grammar) : (depth : Nat) → Parse Stmt
  | 0 => throw .endless
  | depth + 1 => do
    match g.stmt (← kind) with
    | some rule => parseRule g (parseWithin g depth) rule
    | none => parseSimple g

/-- A statement. -/
def parse (g : Grammar) : Parse Stmt := within (parseWithin g)

end Stmt

end ClassLang
