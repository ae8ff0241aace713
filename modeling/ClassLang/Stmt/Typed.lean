import ClassLang.Expr.Typed

/-!
# Typed statements and blocks

Statements after resolution. Declarations of variables are gone, and an `if` has both branches.
-/

namespace ClassLang

mutual

/-- A statement after resolution. -/
inductive TypedStmt where
  | assignment (target value : TypedExpr) (span : Span)
  | ret (value : Option TypedExpr) (span : Span)
  | nested (block : TypedBlock)
  | ifElse (condition : TypedExpr) (yes no : TypedBlock) (span : Span)
  | whileDo (condition : TypedExpr) (body : TypedBlock) (span : Span)
  | call (expr : TypedExpr)

/-- Statements that are done in turn, and the scope their names live in. -/
inductive TypedBlock where
  | mk (body : List TypedStmt) (scope : ScopeId) (span : Span)

end

namespace TypedBlock

/-- The statements of a block. -/
def body : TypedBlock → List TypedStmt
  | mk body _ _ => body

/-- The scope of a block. -/
def scope : TypedBlock → ScopeId
  | mk _ scope _ => scope

/-- Where a block is written. -/
def span : TypedBlock → Span
  | mk _ _ s => s

end TypedBlock

/-- Where a statement is written. -/
def TypedStmt.span : TypedStmt → Span
  | assignment _ _ s => s
  | ret _ s => s
  | nested block => block.span
  | ifElse _ _ _ s => s
  | whileDo _ _ s => s
  | call e => e.span

end ClassLang
