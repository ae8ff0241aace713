import ClassLang.Expr.Resolve
import ClassLang.Stmt.Basic

/-!
# Resolving statements and blocks

A block inside another one has a scope of its own. A declared variable is bound from the next
statement on; with a value it becomes an assignment, and without one it leaves no statement. An
`if` without an `else` gets an empty one.
-/

namespace ClassLang

open Resolve

namespace Resolver

/-- An assignment of a value to a place of the same type. -/
def assignment (s : Resolver) (target value : TypedExpr) (span : Span) :
    Except Diagnostic TypedStmt :=
  if !target.isPlace then
    .error (s.notAPlace target)
  else if value.ty ≠ target.ty then
    .error (s.mismatch target.ty value.ty value.span)
  else
    .ok (.assignment target value span)

/-- An expression as a statement, which has to be a call. -/
def callStmt (s : Resolver) (e : TypedExpr) (span : Span) : Except Diagnostic TypedStmt :=
  if e.isCall then .ok (.call e) else .error ⟨.notACall (s.typeName e.ty), span⟩

/-- An expression as a condition, which has to be a truth value. -/
def condition (s : Resolver) (e : TypedExpr) : Except Diagnostic TypedExpr :=
  if e.ty = Native.boolean.id then .ok e else .error (s.mismatch Native.boolean.id e.ty e.span)

/-- A return from a method with the given result type: with nothing if that is nothing, else with a
value of that type. -/
def ret (s : Resolver) (expected : TypeId) (value : Option TypedExpr) (span : Span) :
    Except Diagnostic TypedStmt :=
  let received := (value.map TypedExpr.ty).getD Native.void.id
  let wrong := if expected = Native.void.id then value.isSome else received ≠ expected
  if wrong then
    .error ⟨.invalidReturnType (s.typeName expected) (s.typeName received), span⟩
  else
    .ok (.ret value span)

end Resolver

/-- A condition after resolution. -/
def Expr.resolveCondition (d : Dialect) (scope : ScopeId) (e : Expr) : Resolve TypedExpr := do
  let condition ← e.resolve d scope
  ask fun s => s.condition condition

/-- An expression that may be missing, after resolution. -/
def Expr.resolveOptional (d : Dialect) (scope : ScopeId) :
    Option Expr → Resolve (Option TypedExpr)
  | some e => some <$> e.resolve d scope
  | none => return none

mutual

/-- The statement after resolution, if it leaves one. -/
def Stmt.resolve (d : Dialect) (scope : ScopeId) : Stmt → Resolve (Option TypedStmt)
  | .expression e span => do
    let call ← e.resolve d scope
    some <$> ask fun s => s.callStmt call span
  | .assignment target value span => do
    let target ← target.resolve d scope
    let value ← value.resolve d scope
    some <$> ask fun s => s.assignment target value span
  | .ret value span => do
    let method ← ask Resolver.currentMethod
    let value ← Expr.resolveOptional d scope value
    some <$> ask fun s => s.ret method.result value span
  | .varDecl name type value span => do
    let ty ← type.resolve d scope
    let value ← Expr.resolveOptional d scope value
    let id ← bindVariable scope name ty .localVar span
    match value with
    | some value => some <$> ask fun s => s.assignment (.var id ty span) value span
    | none => return none
  | .ifElse c yes no span => do
    let condition ← c.resolveCondition d scope
    let yes ← yes.resolveNested d scope
    let no ← no.resolveNested d scope
    return some (.ifElse condition yes no span)
  | .ifThen c yes span => do
    let condition ← c.resolveCondition d scope
    let yes ← yes.resolveNested d scope
    let empty ← pushScope .block scope
    return some (.ifElse condition yes (.mk [] empty span) span)
  | .whileDo c body span => do
    let condition ← c.resolveCondition d scope
    let body ← body.resolveNested d scope
    return some (.whileDo condition body span)
  | .nested block => do
    let block ← block.resolveNested d scope
    return some (.nested block)

/-- Statements after resolution. -/
def Stmt.resolveAll (d : Dialect) (scope : ScopeId) : List Stmt → Resolve (List TypedStmt)
  | [] => return []
  | s :: rest => do
    let first ← s.resolve d scope
    let rest ← Stmt.resolveAll d scope rest
    return first.toList ++ rest

/-- A block after resolution, in a scope that is there. -/
def Block.resolve (d : Dialect) (scope : ScopeId) : Block → Resolve TypedBlock
  | .mk body span => do
    let body ← Stmt.resolveAll d scope body
    return .mk body scope span

/-- A block after resolution, in a new scope. -/
def Block.resolveNested (d : Dialect) (parent : ScopeId) : Block → Resolve TypedBlock
  | .mk body span => do
    let scope ← pushScope .block parent
    let body ← Stmt.resolveAll d scope body
    return .mk body scope span

end

/-- An `if` without an `else` has an empty one. -/
theorem Stmt.resolve_ifThen (d : Dialect) (scope : ScopeId) (c : Expr) (yes : Block) (span : Span) :
    (Stmt.ifThen c yes span).resolve d scope =
      (Stmt.ifElse c yes (.mk [] span) span).resolve d scope := by
  simp only [Stmt.resolve, Block.resolveNested, Stmt.resolveAll, bind_assoc, pure_bind]

end ClassLang
