import ClassLang.Stmt.Parser
import ClassLang.Decl.Basic

/-!
# Reading declarations

A compilation unit is a sequence of classes, which start with `class`, and functions, which start
with their name.
-/

namespace ClassLang

open Parse

/-- A name, a colon and a type. -/
def ArgumentDecl.parse (g : Grammar) : Parse ArgumentDecl := do
  let name ← expect .identifier
  let _ ← expect .colon
  let type ← TypeName.parse g .lowest
  return ⟨name.value, type, ← spanFrom name.span.start⟩

/-- A name, a colon, a type and a semicolon. -/
def FieldDecl.parse (g : Grammar) : Parse FieldDecl := do
  let name ← expect .identifier
  let _ ← expect .colon
  let type ← TypeName.parse g .lowest
  let _ ← expect .semicolon
  return ⟨name.value, type, ← spanFrom name.span.start⟩

namespace MethodDecl

/-- The arguments in parentheses. -/
def parseArguments (g : Grammar) : Parse (List ArgumentDecl) := do
  let _ ← expect .openParen
  let arguments ← within (listed (ArgumentDecl.parse g))
  let _ ← expect .closeParen
  return arguments

/-- A colon and a type, if there is a colon. -/
def parseResult (g : Grammar) : Parse (Option TypeName) := do
  if (← kind) = .colon then
    let _ ← advance
    some <$> TypeName.parse g .lowest
  else
    return none

/-- A block, or a semicolon in its place. -/
def parseBody (g : Grammar) : Parse (Option Block) := do
  match ← kind with
  | .kwDo => some <$> Block.parseDo (Stmt.parse g)
  | .semicolon =>
    let _ ← advance
    return none
  | _ => unexpected "expected `do` or `;` after method signature"

/-- A method or function. -/
def parse (g : Grammar) : Parse MethodDecl := do
  let name ← expect .identifier
  let arguments ← parseArguments g
  let result ← parseResult g
  let body ← parseBody g
  return ⟨name.value, arguments, result, body, ← spanFrom name.span.start⟩

end MethodDecl

/-- A field or a method, told apart by the token after its name. -/
def Feature.parse (g : Grammar) : Parse Feature := do
  if (← kind) = .identifier then
    match (← get).peek with
    | .colon => .field <$> FieldDecl.parse g
    | .openParen => .method <$> MethodDecl.parse g
    | _ =>
      let _ ← advance
      unexpected "expected `:` or `(` after feature name"
  else
    unexpected "expected a field or method declaration"

namespace ClassDecl

/-- Whether the features of a class go on. -/
def goesOn : Parse Bool := return (← kind) ≠ .kwEnd

/-- `class`, a name, the features, and `end`. -/
def parse (g : Grammar) : Parse ClassDecl := do
  let word ← expect .kwClass
  let name ← expect .identifier
  let features ← within (many goesOn (Feature.parse g))
  let _ ← expect .kwEnd
  return ⟨name.value, features, ← spanFrom word.span.start⟩

end ClassDecl

/-- A class or a function. -/
def Decl.parse (g : Grammar) : Parse Decl := do
  match ← kind with
  | .kwClass => .ofClass <$> ClassDecl.parse g
  | .identifier => .ofFunction <$> MethodDecl.parse g
  | _ => unexpected "expected a class or function declaration"

namespace CompilationUnit

/-- Whether there are further declarations. -/
def goesOn : Parse Bool := return (← get).more

/-- All declarations of the text called `file`. -/
def parse (g : Grammar) (file : String) : Parse CompilationUnit := do
  let decls ← within (many goesOn (Decl.parse g))
  return ⟨decls, ⟨.origin file, (← get).position⟩⟩

/-- Reads the tokens of the text called `file`. -/
def ofTokens (file : String) (tokens : List Token) : Except Halt CompilationUnit :=
  match Cursor.ofTokens? file tokens with
  | none => .error .noToken
  | some c =>
    match parse .standard file c with
    | .ok unit _ => .ok unit
    | .error halt _ => .error halt

end CompilationUnit

end ClassLang
