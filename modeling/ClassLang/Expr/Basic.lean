import ClassLang.TypeName.Basic

/-!
# Expressions

The expressions of the language as they are written. A call on a target and a call without one
are different expressions; a parenthesised expression is the expression inside.
-/

namespace ClassLang

/-- Operators between two operands. -/
inductive BinaryOp where
  | add
  | subtract
  | multiply
  | divide
  | modulo
  | less
  | lessEquals
  | greater
  | greaterEquals
  | equals
  | notEquals
  | and
  | or
deriving DecidableEq

/-- How an operator is written. -/
def BinaryOp.symbol : BinaryOp → String
  | add => "+"
  | subtract => "-"
  | multiply => "*"
  | divide => "/"
  | modulo => "%"
  | less => "<"
  | lessEquals => "<="
  | greater => ">"
  | greaterEquals => ">="
  | equals => "=="
  | notEquals => "!="
  | and => "and"
  | or => "or"

/-- Operators before their operand. -/
inductive UnaryOp where
  | negate
  | not
deriving DecidableEq

/-- How an operator is written. -/
def UnaryOp.symbol : UnaryOp → String
  | negate => "-"
  | not => "not"

/-- An expression as it is written in a program. -/
inductive Expr where
  | number (value : Nat) (span : Span)
  | boolean (value : Bool) (span : Span)
  | symbol (name : String) (span : Span)
  /-- `name(args)` -/
  | call (name : String) (args : List Expr) (span : Span)
  /-- `target.name(args)` -/
  | send (target : Expr) (name : String) (args : List Expr) (span : Span)
  | member (target : Expr) (name : String) (span : Span)
  | binary (op : BinaryOp) (left right : Expr) (span : Span)
  | unary (op : UnaryOp) (operand : Expr) (span : Span)
  | addressOf (operand : Expr) (span : Span)
  | arrayNew (element : TypeName) (size : Expr) (span : Span)
  | cast (value : Expr) (target : TypeName) (span : Span)
  | index (array position : Expr) (span : Span)
  | this (span : Span)

/-- Where an expression is written. -/
def Expr.span : Expr → Span
  | number _ s => s
  | boolean _ s => s
  | symbol _ s => s
  | call _ _ s => s
  | send _ _ _ s => s
  | member _ _ s => s
  | binary _ _ _ s => s
  | unary _ _ s => s
  | addressOf _ s => s
  | arrayNew _ _ s => s
  | cast _ _ s => s
  | index _ _ s => s
  | this s => s

end ClassLang
