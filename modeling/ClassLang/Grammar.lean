import ClassLang.Token.Basic

/-!
# The grammar as tables

Expressions, types and statements are read by tables that are looked up with the kind of a
token: by which rule an operand or statement starts at it, and with which binding power and by
which rule it goes on as an operator or suffix behind what has been read. A greater power binds
tighter. The tables are data, so a grammar can be extended by further entries.
-/

namespace ClassLang

/-- How tightly an operator binds. -/
inductive Power where
  | lowest
  | logical
  | relational
  | additive
  | multiplicative
  | cast
  | unary
  | call
  | member
  | primary
deriving DecidableEq

namespace Power

/-- The rank of a power. -/
def rank : Power → Nat
  | lowest => 0
  | logical => 1
  | relational => 2
  | additive => 3
  | multiplicative => 4
  | cast => 5
  | unary => 6
  | call => 7
  | member => 8
  | primary => 9

/-- Whether the first power binds less tightly than the second. -/
def below (p q : Power) : Bool := p.rank < q.rank

end Power

/-- How an expression starts. -/
inductive OperandRule where
  /-- A number, name, call, truth value or `this`. -/
  | primary
  /-- `-` or `not` before an operand. -/
  | unary
  /-- `&` before an operand. -/
  | addressOf
  /-- An expression in parentheses. -/
  | grouping
  /-- `new` with a type and a size. -/
  | arrayNew
deriving DecidableEq

/-- How an expression goes on. -/
inductive OperatorRule where
  /-- An operator and its right operand. -/
  | binary
  /-- `as` and a type. -/
  | cast
  /-- `.` and the name of a field or method. -/
  | member
  /-- An index in brackets. -/
  | index
deriving DecidableEq

/-- How a statement starts that is not an expression or assignment. -/
inductive StmtRule where
  | varDecl
  | ifThen
  | whileDo
  | nested
  | ret
  /-- Any statement, by the table once more. No token is read before, so at a token with this
  rule reading never ends. -/
  | any
deriving DecidableEq

/-- How a type goes on. -/
inductive TypeRule where
  | array
  | pointer
deriving DecidableEq

/-- The tables by which tokens are read. -/
structure Grammar where
  stmt : Token.Kind → Option StmtRule
  operand : Token.Kind → Option OperandRule
  operator : Token.Kind → Option (Power × OperatorRule)
  /-- Whether a type can start, with its name. -/
  typeStart : Token.Kind → Bool
  typeSuffix : Token.Kind → Option (Power × TypeRule)

namespace Grammar

/-- The grammar without entries. -/
def empty : Grammar where
  stmt _ := none
  operand _ := none
  operator _ := none
  typeStart _ := false
  typeSuffix _ := none

/-- The statements of the language. -/
def stmtTable : Token.Kind → Option StmtRule
  | .kwVar => some .varDecl
  | .kwIf => some .ifThen
  | .kwWhile => some .whileDo
  | .kwDo => some .nested
  | .kwReturn => some .ret
  | _ => none

/-- The operands of the language. -/
def operandTable : Token.Kind → Option OperandRule
  | .number => some .primary
  | .identifier => some .primary
  | .kwTrue => some .primary
  | .kwFalse => some .primary
  | .kwThis => some .primary
  | .dash => some .unary
  | .kwNot => some .unary
  | .ampersand => some .addressOf
  | .openParen => some .grouping
  | .kwNew => some .arrayNew
  | _ => none

/-- The operators of the language. -/
def operatorTable : Token.Kind → Option (Power × OperatorRule)
  | .kwAnd => some (.logical, .binary)
  | .kwOr => some (.logical, .binary)
  | .less => some (.relational, .binary)
  | .lessEquals => some (.relational, .binary)
  | .greater => some (.relational, .binary)
  | .greaterEquals => some (.relational, .binary)
  | .equals => some (.relational, .binary)
  | .notEquals => some (.relational, .binary)
  | .plus => some (.additive, .binary)
  | .dash => some (.additive, .binary)
  | .star => some (.multiplicative, .binary)
  | .slash => some (.multiplicative, .binary)
  | .percent => some (.multiplicative, .binary)
  | .kwAs => some (.cast, .cast)
  | .dot => some (.member, .member)
  | .openBracket => some (.member, .index)
  | _ => none

/-- The suffixes of types. -/
def typeSuffixTable : Token.Kind → Option (Power × TypeRule)
  | .openBracket => some (.call, .array)
  | .star => some (.call, .pointer)
  | _ => none

/-- A grammar with the expressions and statements of the language. -/
def withExpressions (g : Grammar) : Grammar :=
  { g with stmt := stmtTable, operand := operandTable, operator := operatorTable }

/-- A grammar with the types of the language. -/
def withTypes (g : Grammar) : Grammar :=
  { g with typeStart := fun k => k = .identifier, typeSuffix := typeSuffixTable }

/-- The grammar of the language. -/
def standard : Grammar := empty.withExpressions.withTypes

/-- Lets statements that start with `k` be read by `rule`. -/
def addStmt (g : Grammar) (k : Token.Kind) (rule : StmtRule) : Grammar :=
  { g with stmt := fun l => if l = k then some rule else g.stmt l }

/-- Lets expressions that start with `k` be read by `rule`. -/
def addOperand (g : Grammar) (k : Token.Kind) (rule : OperandRule) : Grammar :=
  { g with operand := fun l => if l = k then some rule else g.operand l }

/-- Lets expressions go on with `k`, of the given power, by `rule`. -/
def addOperator (g : Grammar) (k : Token.Kind) (power : Power) (rule : OperatorRule) : Grammar :=
  { g with operator := fun l => if l = k then some (power, rule) else g.operator l }

end Grammar

end ClassLang
