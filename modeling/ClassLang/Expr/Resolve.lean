import ClassLang.Types.Conversion
import ClassLang.TypeName.Resolve
import ClassLang.Expr.Basic

/-!
# Resolving expressions

A name is the nearest variable of that name, or else a call of the nearest method of that name
without arguments. Fields, methods and the receiver are found through the method whose body is
being resolved. Arguments, sizes, indices and right operands are converted where the dialect
permits it.

Only pointer and array types, as they are met, are entered on the way.
-/

namespace ClassLang

open Resolve

/-- The greatest integer of 64 bits. -/
def greatestInteger : Nat := 0x7fffffffffffffff

/-- Whether an expression may stand where the type `target` is wanted, by a conversion. -/
def Registry.converts (r : Registry) (t : Conversions) (e : TypedExpr) (target : TypeId) : Bool :=
  let fits := match e with
    | .int value _ _ => r.literalConverts t value target
    | _ => false
  fits || r.widens t e.ty target

/-- A call of `m`, on a target if there is one. -/
def TypedExpr.ofCall (target : Option TypedExpr) (m : MethodId) (args : List TypedExpr)
    (ty : TypeId) (span : Span) : TypedExpr :=
  match target with
  | some e => .send e m args ty span
  | none => .call m args ty span

namespace Resolver

/-- The complaint that nothing has this name. -/
def notFound (name : String) (span : Span) : Diagnostic := ⟨.featureNotFound name, span⟩

/-- The complaint that an expression is no place. -/
def notAPlace (s : Resolver) (e : TypedExpr) : Diagnostic :=
  ⟨.notAnLvalue (s.typeName e.ty), e.span⟩

/-- An expression where the type `target` is wanted, with a cast if it needs one. -/
def coerce (s : Resolver) (d : Dialect) (e : TypedExpr) (target : TypeId) :
    Except Diagnostic TypedExpr :=
  if e.ty = target then
    .ok e
  else if s.registry.converts d.conversions e target then
    .ok (.cast e true target e.span)
  else
    .error (s.mismatch target e.ty e.span)

/-- The receiver of the current method. -/
def receiver (s : Resolver) (span : Span) : Except Diagnostic TypedExpr := do
  match (← s.currentMethod).receiver with
  | some id => return .this (← s.program.getVariable id).ty span
  | none => throw (notFound "this" span)

/-- The receiver of a call of `m` that names none. -/
def implicitReceiver (s : Resolver) (m : MethodId) (span : Span) :
    Except Diagnostic (Option TypedExpr) := do
  match (← s.program.getMethod m).owner with
  | some _ => some <$> s.receiver span
  | none => return none

/-- The types of the arguments and of the result of a method that is called with `count`
arguments. -/
def signature (s : Resolver) (m : MethodId) (count : Nat) (span : Span) :
    Except Diagnostic (List TypeId × TypeId) := do
  let parameters ← s.program.parameterTypes m
  let method ← s.program.getMethod m
  if parameters.length = count then
    return (parameters, method.result)
  else
    throw ⟨.wrongArgumentCount method.name parameters.length count, span⟩

/-- A call of `m` without arguments. -/
def callBare (s : Resolver) (m : MethodId) (target : Option TypedExpr) (span : Span) :
    Except Diagnostic TypedExpr := do
  let (_, result) ← s.signature m 0 span
  return .ofCall target m [] result span

/-- What a variable stands for where its name is used. -/
def useOf (s : Resolver) (id : VariableId) (span : Span) : Except Diagnostic TypedExpr := do
  let v ← s.program.getVariable id
  match v.kind with
  | .field _ _ => return .field (← s.receiver span) id v.ty span
  | .receiver => s.receiver span
  | .localVar => return .var id v.ty span
  | .argument _ => return .var id v.ty span

/-- What a name stands for, as seen from a scope. -/
def name (s : Resolver) (scope : ScopeId) (name : String) (span : Span) :
    Except Diagnostic TypedExpr :=
  match s.scopes.findVariable? scope name, s.scopes.findMethod? scope name with
  | some id, _ => s.useOf id span
  | none, some m => do s.callBare m (← s.implicitReceiver m span) span
  | none, none => .error (notFound name span)

/-- The method of a name, as seen from a scope, and the receiver it is called on. -/
def method (s : Resolver) (scope : ScopeId) (name : String) (span : Span) :
    Except Diagnostic (MethodId × Option TypedExpr) :=
  match s.scopes.findMethod? scope name with
  | some m => do return (m, ← s.implicitReceiver m span)
  | none => .error (notFound name span)

/-- The first member of a type with the given name. -/
def firstCandidate (s : Resolver) (ty : TypeId) (name : String) (span : Span) :
    Except Diagnostic MethodId := do
  match ← s.candidates ty name with
  | m :: _ => return m
  | [] => throw (notFound name span)

/-- The field of a type with the given name. Only classes have fields. -/
def field? (s : Resolver) (ty : TypeId) (name : String) : Except Diagnostic (Option VariableId) :=
  match s.registry.classOf? ty with
  | some c => do return (← s.program.getClass c).fields[name]?
  | none => .ok none

/-- A field of `target`, or a call of its method without arguments. -/
def member (s : Resolver) (target : TypedExpr) (name : String) (span : Span) :
    Except Diagnostic TypedExpr := do
  match ← s.field? target.ty name with
  | some f => return .field target f (← s.program.getVariable f).ty span
  | none => s.callBare (← s.firstCandidate target.ty name span) (some target) span

/-- What an array type holds. -/
def element (s : Resolver) (array : TypedExpr) : Except Diagnostic TypeId :=
  match s.registry.elementOf? array.ty with
  | some ty => .ok ty
  | none => .error ⟨.typeMismatch "array" (s.typeName array.ty), array.span⟩

/-- Which operator a right operand selects. -/
inductive Choice where
  /-- One for the operand as it is. -/
  | exact (operator : MethodId)
  /-- The only one for the operand after a conversion. -/
  | converted (operator : MethodId) (parameter : TypeId)
  | none

/-- Selects among `candidates` the first that takes the operand as it is, or else the only one that
takes it after a conversion. Those seen so far that take it so are `found`. -/
def choose (s : Resolver) (d : Dialect) (right : TypedExpr) :
    (candidates : List MethodId) → (found : List (MethodId × TypeId)) → Except Diagnostic Choice
  | [], [(m, parameter)] => .ok (.converted m parameter)
  | [], _ => .ok .none
  | m :: rest, found => do
    match ← s.program.parameterTypes m with
    | [parameter] =>
      if parameter = right.ty then
        return .exact m
      else if s.registry.converts d.conversions right parameter then
        s.choose d right rest (found ++ [(m, parameter)])
      else
        s.choose d right rest found
    | _ => s.choose d right rest found

/-- An operator between two operands. -/
def binary (s : Resolver) (d : Dialect) (op : BinaryOp) (left right : TypedExpr) (span : Span) :
    Except Diagnostic TypedExpr := do
  match ← s.choose d right (← s.candidates left.ty op.symbol) [] with
  | .exact m => return .binary m left right (← s.program.getMethod m).result span
  | .converted m parameter =>
    let right ← s.coerce d right parameter
    return .binary m left right (← s.program.getMethod m).result span
  | .none =>
    throw ⟨.operatorNotFound op.symbol (s.typeName left.ty) (some (s.typeName right.ty)), span⟩

/-- The first of some methods that takes no arguments. -/
def firstBare (s : Resolver) : List MethodId → Except Diagnostic (Option MethodId)
  | [] => .ok none
  | m :: rest => do
    if (← s.program.getMethod m).arguments.isEmpty then return some m else s.firstBare rest

/-- An operator before its operand. -/
def unary (s : Resolver) (op : UnaryOp) (operand : TypedExpr) (span : Span) :
    Except Diagnostic TypedExpr := do
  match ← s.firstBare (← s.candidates operand.ty op.symbol) with
  | some m => return .unary m operand (← s.program.getMethod m).result span
  | none => throw ⟨.operatorNotFound op.symbol (s.typeName operand.ty) none, span⟩

end Resolver

mutual

/-- The expression after resolution, as seen from a scope. -/
def Expr.resolve (d : Dialect) (scope : ScopeId) : Expr → Resolve TypedExpr
  | .number n span =>
    if n ≤ greatestInteger then
      return .int n Native.integer.id span
    else
      refuse (.invalidNumber n.repr) span
  | .boolean b span => return .bool b Native.boolean.id span
  | .symbol name span => ask fun s => s.name scope name span
  | .this span => ask fun s => s.receiver span
  | .call name args span => do
    let (m, target) ← ask fun s => s.method scope name span
    let (parameters, result) ← ask fun s => s.signature m args.length span
    let args ← Expr.resolveArgs d scope args parameters
    return .ofCall target m args result span
  | .send e name args span => do
    let target ← e.resolve d scope
    let m ← ask fun s => s.firstCandidate target.ty name span
    let (parameters, result) ← ask fun s => s.signature m args.length span
    let args ← Expr.resolveArgs d scope args parameters
    return .send target m args result span
  | .member e name span => do
    let target ← e.resolve d scope
    ask fun s => s.member target name span
  | .binary op a b span => do
    let left ← a.resolve d scope
    let right ← b.resolve d scope
    ask fun s => s.binary d op left right span
  | .unary .negate (.number n numberSpan) span =>
    if n ≤ greatestInteger + 1 then
      return .int (-(n : Int)) Native.integer.id span
    else
      refuse (.invalidNumber n.repr) numberSpan
  | .unary op e span => do
    let operand ← e.resolve d scope
    ask fun s => s.unary op operand span
  | .addressOf e span => do
    let operand ← e.resolve d scope
    if operand.isPlace then
      return .addressOf operand (← intern (.pointer operand.ty)) span
    else
      ask fun s => .error (s.notAPlace operand)
  | .arrayNew element e span => do
    let element ← element.resolve d scope
    let size ← e.resolve d scope
    let size ← ask fun s => s.coerce d size Native.integer.id
    return .arrayNew element size (← intern (.array element)) span
  | .cast e target span => do
    let value ← e.resolve d scope
    return .cast value false (← target.resolve d scope) span
  | .index a i span => do
    let array ← a.resolve d scope
    let element ← ask fun s => s.element array
    let position ← i.resolve d scope
    let position ← ask fun s => s.coerce d position Native.integer.id
    return .index array position element span

/-- Arguments after resolution, each converted to its parameter's type. -/
def Expr.resolveArgs (d : Dialect) (scope : ScopeId) :
    List Expr → List TypeId → Resolve (List TypedExpr)
  | e :: es, parameter :: parameters => do
    let arg ← e.resolve d scope
    let arg ← ask fun s => s.coerce d arg parameter
    let rest ← Expr.resolveArgs d scope es parameters
    return arg :: rest
  | _, _ => return []

end

end ClassLang
