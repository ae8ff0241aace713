import ClassLang.Id
import ClassLang.Source.Position

/-!
# Typed expressions

An expression after resolution: names are replaced by handles, every expression has a type, and
every conversion is written out as a cast. A call on a receiver and a call of a free function are
different expressions.
-/

namespace ClassLang

/-- An expression with its type. -/
inductive TypedExpr where
  | var (id : VariableId) (ty : TypeId) (span : Span)
  | field (target : TypedExpr) (field : VariableId) (ty : TypeId) (span : Span)
  /-- A call of a function. -/
  | call (method : MethodId) (args : List TypedExpr) (ty : TypeId) (span : Span)
  /-- A call of a method on a receiver. -/
  | send (receiver : TypedExpr) (method : MethodId) (args : List TypedExpr) (ty : TypeId)
    (span : Span)
  | unary (operator : MethodId) (operand : TypedExpr) (ty : TypeId) (span : Span)
  | binary (operator : MethodId) (left right : TypedExpr) (ty : TypeId) (span : Span)
  | addressOf (operand : TypedExpr) (ty : TypeId) (span : Span)
  | arrayNew (element : TypeId) (size : TypedExpr) (ty : TypeId) (span : Span)
  | index (array position : TypedExpr) (ty : TypeId) (span : Span)
  | cast (value : TypedExpr) (implicit : Bool) (ty : TypeId) (span : Span)
  | int (value : Int) (ty : TypeId) (span : Span)
  | bool (value : Bool) (ty : TypeId) (span : Span)
  | this (ty : TypeId) (span : Span)

namespace TypedExpr

/-- The type of an expression. -/
def ty : TypedExpr → TypeId
  | var _ t _ => t
  | field _ _ t _ => t
  | call _ _ t _ => t
  | send _ _ _ t _ => t
  | unary _ _ t _ => t
  | binary _ _ _ t _ => t
  | addressOf _ t _ => t
  | arrayNew _ _ t _ => t
  | index _ _ t _ => t
  | cast _ _ t _ => t
  | int _ t _ => t
  | bool _ t _ => t
  | this t _ => t

/-- Where an expression is written. -/
def span : TypedExpr → Span
  | var _ _ s => s
  | field _ _ _ s => s
  | call _ _ _ s => s
  | send _ _ _ _ s => s
  | unary _ _ _ s => s
  | binary _ _ _ _ s => s
  | addressOf _ _ s => s
  | arrayNew _ _ _ s => s
  | index _ _ _ s => s
  | cast _ _ _ s => s
  | int _ _ s => s
  | bool _ _ s => s
  | this _ s => s

/-- Whether an expression denotes a place that can be written to. -/
def isPlace : TypedExpr → Bool
  | var .. => true
  | field .. => true
  | index .. => true
  | _ => false

/-- Whether an expression is a call. -/
def isCall : TypedExpr → Bool
  | call .. => true
  | send .. => true
  | _ => false

end TypedExpr

end ClassLang
