import ClassLang.Expr.Basic

/-!
# Statements and blocks

A block is a list of statements with the span they are written at. An `if` with and one without
an `else` are different statements.
-/

namespace ClassLang

mutual

/-- A statement as it is written in a program. -/
inductive Stmt where
  | expression (expr : Expr) (span : Span)
  | assignment (target value : Expr) (span : Span)
  | ret (value : Option Expr) (span : Span)
  | varDecl (name : String) (type : TypeName) (value : Option Expr) (span : Span)
  | ifElse (condition : Expr) (yes no : Block) (span : Span)
  | ifThen (condition : Expr) (yes : Block) (span : Span)
  | whileDo (condition : Expr) (body : Block) (span : Span)
  | nested (block : Block)

/-- Statements that are done in turn. -/
inductive Block where
  | mk (body : List Stmt) (span : Span)

end

namespace Block

/-- The statements of a block. -/
def body : Block → List Stmt
  | mk body _ => body

/-- Where a block is written. -/
def span : Block → Span
  | mk _ s => s

end Block

/-- Where a statement is written. -/
def Stmt.span : Stmt → Span
  | expression _ s => s
  | assignment _ _ s => s
  | ret _ s => s
  | varDecl _ _ _ s => s
  | ifElse _ _ _ s => s
  | ifThen _ _ s => s
  | whileDo _ _ s => s
  | nested block => block.span

end ClassLang
