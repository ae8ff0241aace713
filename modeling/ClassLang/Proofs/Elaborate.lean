import ClassLang.Proofs.Mirror
import ClassLang.Proofs.Named

/-!
# Elaboration by names

Resolution once more, as a function of the text: without numbers, tables that grow or a tree of
scopes. What the parts of a unit know of each other is its interface (`Interface`): its types, fields
and signatures by name. A body is elaborated from the interface, its own owner and result, and an
environment that is passed along.

* `Expr.elaborate`, `Stmt.elaborate`, `Block.elaborateNested`: bodies.
* `MethodDecl.elaborateSignature`, `ClassDecl.elaborate`: declarations.
* `CompilationUnit.elaborate`: all declarations are checked in the order of their names, and then
  all bodies.

Each step makes the same checks in the same order as resolution does, so the first fault is the same.
-/

namespace ClassLang

open Resolver (notFound)

/-- **What the parts of a unit know of each other.** -/
structure Interface where
  conversions : Conversions
  /-- What a name means as a type. -/
  type? : String → Option Ty
  /-- The field of a class, by the names of both. -/
  field? : String → String → Option NamedVariable
  /-- The method of a class, by the names of both. -/
  method? : String → String → Option Callee
  function? : String → Option Callee

/-- The type that is written. -/
def TypeName.elaborate (I : Interface) : TypeName → Except Diagnostic Ty
  | named name span =>
    match I.type? name with
    | some T => .ok T
    | none => .error ⟨.unknownType name, span⟩
  | pointer target _ => do return .pointer (← target.elaborate I)
  | array element _ => do return .array (← element.elaborate I)

namespace Ty

/-- The members that a type has under a name. -/
def callees (I : Interface) (T : Ty) (name : String) : List Callee :=
  match T with
  | native k => (k.operatorsNamed name).map fun sig => ⟨⟨none, name, sig.parameters⟩, sig.result⟩
  | ofClass c => (I.method? c name).toList
  | _ => []

/-- The field that a type has under a name. -/
def fieldOf? (I : Interface) : Ty → String → Option NamedVariable
  | ofClass c, name => I.field? c name
  | _, _ => none

end Ty

namespace Callee

/-- A method can be called with `count` arguments. -/
def takes (k : Callee) (count : Nat) (span : Span) : Except Diagnostic Unit :=
  if k.method.parameters.length = count then
    .ok ()
  else
    .error ⟨.wrongArgumentCount k.method.name k.method.parameters.length count, span⟩

/-- A call without arguments. -/
def callBare (k : Callee) (target : Option NamedExpr) (span : Span) :
    Except Diagnostic NamedExpr := do
  k.takes 0 span
  return .ofCall target k.method [] k.result span

/-- What a method takes if it takes one argument. -/
def parameter? (k : Callee) : Option Ty :=
  match k.method.parameters with
  | [P] => some P
  | _ => none

end Callee

/-! ## Steps on expressions -/

namespace NamedExpr

/-- The complaint that an expression is no place. -/
def notAPlace (e : NamedExpr) : Diagnostic := ⟨.notAnLvalue e.ty.text, e.span⟩

/-- Whether an expression may stand where the type `target` is wanted, by a conversion. -/
def converts (t : Conversions) (e : NamedExpr) (target : Ty) : Bool :=
  (match e.literal?, target.native? with
    | some v, some k => t.permitsLiteral v k
    | _, _ => false) ||
  match e.ty.native?, target.native? with
  | some a, some b => t.widens a b
  | _, _ => false

/-- An expression where the type `target` is wanted, with a cast if it needs one. -/
def coerce (t : Conversions) (e : NamedExpr) (target : Ty) : Except Diagnostic NamedExpr :=
  if e.ty = target then
    .ok e
  else if e.converts t target then
    .ok (.cast e true target e.span)
  else
    .error ⟨.typeMismatch target.text e.ty.text, e.span⟩

/-- The first member of the type of a target that has the given name. -/
def callee (I : Interface) (target : NamedExpr) (name : String) (span : Span) :
    Except Diagnostic Callee :=
  match target.ty.callees I name with
  | k :: _ => .ok k
  | [] => .error (notFound name span)

/-- A field of `target`, or a call of its method without arguments. -/
def member (I : Interface) (target : NamedExpr) (name : String) (span : Span) :
    Except Diagnostic NamedExpr :=
  match target.ty.fieldOf? I name with
  | some v => .ok (.field target v v.ty span)
  | none => do (← target.callee I name span).callBare (some target) span

/-- What an array holds. -/
def element (array : NamedExpr) : Except Diagnostic Ty :=
  match array.ty with
  | .array T => .ok T
  | T => .error ⟨.typeMismatch "array" T.text, array.span⟩

/-- Which of some members takes a right operand: the first that takes it as it is, or else the only
one that takes it after a conversion. -/
def choose? (t : Conversions) (right : NamedExpr) (candidates : List Callee) :
    Option (Callee × Ty) :=
  let takers := candidates.filterMap fun k => k.parameter?.map fun P => (k, P)
  match takers.find? fun q => q.2 = right.ty with
  | some q => some q
  | none =>
    match takers.filter fun q => right.converts t q.2 with
    | [q] => some q
    | _ => none

/-- An operator between two operands. -/
def ofBinary (I : Interface) (op : BinaryOp) (left right : NamedExpr) (span : Span) :
    Except Diagnostic NamedExpr :=
  match right.choose? I.conversions (left.ty.callees I op.symbol) with
  | some (k, P) => do
    let right ← right.coerce I.conversions P
    return .binary k.method left right k.result span
  | none => .error ⟨.operatorNotFound op.symbol left.ty.text (some right.ty.text), span⟩

/-- An operator before its operand. -/
def ofUnary (I : Interface) (op : UnaryOp) (operand : NamedExpr) (span : Span) :
    Except Diagnostic NamedExpr :=
  match (operand.ty.callees I op.symbol).find? fun k => k.method.parameters.isEmpty with
  | some k => .ok (.unary k.method operand k.result span)
  | none => .error ⟨.operatorNotFound op.symbol operand.ty.text none, span⟩

end NamedExpr

/-! ## Bodies -/

/-- The variables that a block has bound so far, the last one first. -/
abbrev Names := List (String × NamedVariable)

/-- The variables of the blocks around a place, from the inside out. -/
abbrev Env := List Names

/-- What a name stands for in the nearest block that binds it. -/
def Env.find? (Γ : Env) (name : String) : Option NamedVariable :=
  Γ.findSome? fun names => names.lookup name

/-- What surrounds the body of a method. -/
structure BodyContext where
  interface : Interface
  /-- The class of the method, if it is not a function. -/
  owner : Option String
  result : Ty

namespace BodyContext

variable (x : BodyContext)

/-- The field of the class around. -/
def field? (name : String) : Option NamedVariable := do x.interface.field? (← x.owner) name

/-- The method that a name stands for: one of the class around, or else a function. -/
def method? (name : String) : Option Callee :=
  (x.owner.bind fun c => x.interface.method? c name).or (x.interface.function? name)

/-- The receiver of the method. -/
def receiver (span : Span) : Except Diagnostic NamedExpr :=
  match x.owner with
  | some c => .ok (.this (.ofClass c) span)
  | none => .error (notFound "this" span)

/-- The receiver of a call that names none. -/
def implicitReceiver (k : Callee) (span : Span) : Except Diagnostic (Option NamedExpr) :=
  match k.method.owner with
  | some _ => some <$> x.receiver span
  | none => .ok none

/-- What a variable stands for where its name is used. -/
def useOf (v : NamedVariable) (span : Span) : Except Diagnostic NamedExpr :=
  match v.role with
  | .field _ _ => do return .field (← x.receiver span) v v.ty span
  | .receiver => x.receiver span
  | .localVar => .ok (.var v v.ty span)
  | .argument _ => .ok (.var v v.ty span)

/-- What a name stands for: a variable of the blocks around, a field, or a call without
arguments. -/
def name (Γ : Env) (name : String) (span : Span) : Except Diagnostic NamedExpr :=
  match (Γ.find? name).or (x.field? name), x.method? name with
  | some v, _ => x.useOf v span
  | none, some k => do k.callBare (← x.implicitReceiver k span) span
  | none, none => .error (notFound name span)

/-- The method of a name, and the receiver it is called on. -/
def method (name : String) (span : Span) : Except Diagnostic (Callee × Option NamedExpr) :=
  match x.method? name with
  | some k => do return (k, ← x.implicitReceiver k span)
  | none => .error (notFound name span)

/-- A return: with nothing if the method gives nothing, else with a value of its type. -/
def ret (value : Option NamedExpr) (span : Span) : Except Diagnostic NamedStmt :=
  let received := (value.map NamedExpr.ty).getD (.native .void)
  let wrong := if x.result = .native .void then value.isSome else received ≠ x.result
  if wrong then
    .error ⟨.invalidReturnType x.result.text received.text, span⟩
  else
    .ok (.ret value span)

end BodyContext

namespace NamedExpr

/-- An assignment of a value to a place of the same type. -/
def assign (target value : NamedExpr) (span : Span) : Except Diagnostic NamedStmt :=
  if !target.isPlace then
    .error target.notAPlace
  else if value.ty ≠ target.ty then
    .error ⟨.typeMismatch target.ty.text value.ty.text, value.span⟩
  else
    .ok (.assignment target value span)

/-- An expression as a statement, which has to be a call. -/
def callStmt (e : NamedExpr) (span : Span) : Except Diagnostic NamedStmt :=
  if e.isCall then .ok (.call e) else .error ⟨.notACall e.ty.text, span⟩

/-- An expression as a condition, which has to be a truth value. -/
def condition (e : NamedExpr) : Except Diagnostic NamedExpr :=
  if e.ty = .native .boolean then
    .ok e
  else
    .error ⟨.typeMismatch (Ty.native .boolean).text e.ty.text, e.span⟩

end NamedExpr

mutual

/-- **The expression after elaboration.** -/
def Expr.elaborate (x : BodyContext) (Γ : Env) : Expr → Except Diagnostic NamedExpr
  | .number n span =>
    if n ≤ greatestInteger then
      .ok (.int n (.native .integer) span)
    else
      .error ⟨.invalidNumber n.repr, span⟩
  | .boolean b span => .ok (.bool b (.native .boolean) span)
  | .symbol name span => x.name Γ name span
  | .this span => x.receiver span
  | .call name args span => do
    let (k, target) ← x.method name span
    k.takes args.length span
    let args ← Expr.elaborateArgs x Γ args k.method.parameters
    return .ofCall target k.method args k.result span
  | .send e name args span => do
    let target ← e.elaborate x Γ
    let k ← target.callee x.interface name span
    k.takes args.length span
    let args ← Expr.elaborateArgs x Γ args k.method.parameters
    return .send target k.method args k.result span
  | .member e name span => do
    let target ← e.elaborate x Γ
    target.member x.interface name span
  | .binary op a b span => do
    let left ← a.elaborate x Γ
    let right ← b.elaborate x Γ
    left.ofBinary x.interface op right span
  | .unary .negate (.number n numberSpan) span =>
    if n ≤ greatestInteger + 1 then
      .ok (.int (-(n : Int)) (.native .integer) span)
    else
      .error ⟨.invalidNumber n.repr, numberSpan⟩
  | .unary op e span => do
    let operand ← e.elaborate x Γ
    operand.ofUnary x.interface op span
  | .addressOf e span => do
    let operand ← e.elaborate x Γ
    if operand.isPlace then
      return .addressOf operand (.pointer operand.ty) span
    else
      throw operand.notAPlace
  | .arrayNew element e span => do
    let element ← element.elaborate x.interface
    let size ← e.elaborate x Γ
    let size ← size.coerce x.interface.conversions (.native .integer)
    return .arrayNew element size (.array element) span
  | .cast e target span => do
    let value ← e.elaborate x Γ
    return .cast value false (← target.elaborate x.interface) span
  | .index a i span => do
    let array ← a.elaborate x Γ
    let element ← array.element
    let position ← i.elaborate x Γ
    let position ← position.coerce x.interface.conversions (.native .integer)
    return .index array position element span

/-- Arguments after elaboration, each converted to its parameter's type. -/
def Expr.elaborateArgs (x : BodyContext) (Γ : Env) :
    List Expr → List Ty → Except Diagnostic (List NamedExpr)
  | e :: es, P :: parameters => do
    let arg ← e.elaborate x Γ
    let arg ← arg.coerce x.interface.conversions P
    let rest ← Expr.elaborateArgs x Γ es parameters
    return arg :: rest
  | _, _ => .ok []

end

/-- An operator before its operand, where no number is negated. -/
theorem Expr.elaborate_unary {x : BodyContext} {Γ : Env} {op : UnaryOp} {e : Expr} {span : Span}
    (hn : ¬ op.Folds e) : (Expr.unary op e span).elaborate x Γ =
      e.elaborate x Γ >>= fun N => N.ofUnary x.interface op span := by
  rw [Expr.elaborate]
  rintro n sp rfl rfl
  exact hn trivial

/-- A condition after elaboration. -/
def Expr.elaborateCondition (x : BodyContext) (Γ : Env) (e : Expr) :
    Except Diagnostic NamedExpr := do
  (← e.elaborate x Γ).condition

/-- An expression that may be missing, after elaboration. -/
def Expr.elaborateOptional (x : BodyContext) (Γ : Env) :
    Option Expr → Except Diagnostic (Option NamedExpr)
  | some e => some <$> e.elaborate x Γ
  | none => .ok none

mutual

/-- **The statement after elaboration**, if it leaves one, and the names that its block binds then. -/
def Stmt.elaborate (x : BodyContext) (names : Names) (Γ : Env) :
    Stmt → Except Diagnostic (Option NamedStmt × Names)
  | .expression e span => do
    let call ← e.elaborate x (names :: Γ)
    return (some (← call.callStmt span), names)
  | .assignment target value span => do
    let target ← target.elaborate x (names :: Γ)
    let value ← value.elaborate x (names :: Γ)
    return (some (← target.assign value span), names)
  | .ret value span => do
    let value ← Expr.elaborateOptional x (names :: Γ) value
    return (some (← x.ret value span), names)
  | .varDecl name type value span => do
    let T ← type.elaborate x.interface
    let value ← Expr.elaborateOptional x (names :: Γ) value
    if (names.lookup name).isSome then throw ⟨.duplicateVariable name, span⟩
    let v : NamedVariable := ⟨name, .localVar, T, span⟩
    match value with
    | some value => return (some (← (NamedExpr.var v T span).assign value span), (name, v) :: names)
    | none => return (none, (name, v) :: names)
  | .ifElse c yes no span => do
    let condition ← c.elaborateCondition x (names :: Γ)
    let yes ← yes.elaborateNested x (names :: Γ)
    let no ← no.elaborateNested x (names :: Γ)
    return (some (.ifElse condition yes no span), names)
  | .ifThen c yes span => do
    let condition ← c.elaborateCondition x (names :: Γ)
    let yes ← yes.elaborateNested x (names :: Γ)
    return (some (.ifElse condition yes (.mk [] span) span), names)
  | .whileDo c body span => do
    let condition ← c.elaborateCondition x (names :: Γ)
    let body ← body.elaborateNested x (names :: Γ)
    return (some (.whileDo condition body span), names)
  | .nested block => do
    let block ← block.elaborateNested x (names :: Γ)
    return (some (.nested block), names)

/-- Statements after elaboration, one after the other. -/
def Stmt.elaborateAll (x : BodyContext) (names : Names) (Γ : Env) :
    List Stmt → Except Diagnostic (List NamedStmt)
  | [] => .ok []
  | st :: rest => do
    let (first, names) ← st.elaborate x names Γ
    let rest ← Stmt.elaborateAll x names Γ rest
    return first.toList ++ rest

/-- A block after elaboration, which binds nothing at its start. -/
def Block.elaborateNested (x : BodyContext) (Γ : Env) : Block → Except Diagnostic NamedBlock
  | .mk body span => do return .mk (← Stmt.elaborateAll x [] Γ body) span

end

/-- An `if` without an `else` has an empty one. -/
theorem Stmt.elaborate_ifThen (x : BodyContext) (names : Names) (Γ : Env) (c : Expr) (yes : Block)
    (span : Span) : (Stmt.ifThen c yes span).elaborate x names Γ =
      (Stmt.ifElse c yes (.mk [] span) span).elaborate x names Γ := by
  rw [Stmt.elaborate, Stmt.elaborate, Block.elaborateNested, Stmt.elaborateAll]
  rfl

/-! ## Declarations -/

/-- An argument of a method, after the names `taken` and the arguments before it. -/
def ArgumentDecl.elaborate (I : Interface) (taken : List String) (before : List ArgumentDecl)
    (a : ArgumentDecl) : Except Diagnostic NamedVariable := do
  let T ← a.type.elaborate I
  if a.name ∈ taken ++ before.map ArgumentDecl.name then
    throw ⟨.duplicateVariable a.name, a.span⟩
  else
    return ⟨a.name, .argument before.length, T, a.span⟩

/-- A field of a class, after the fields before it. -/
def FieldDecl.elaborate (I : Interface) (owner : String) (before : List FieldDecl) (f : FieldDecl) :
    Except Diagnostic NamedVariable :=
  if f.name ∈ before.map FieldDecl.name then
    .error ⟨.duplicateField owner f.name, f.span⟩
  else do
    return ⟨f.name, .field owner before.length, ← f.type.elaborate I, f.span⟩

namespace MethodDecl

/-- What a method gives. -/
def elaborateResult (I : Interface) (m : MethodDecl) : Except Diagnostic Ty :=
  match m.result with
  | some type => type.elaborate I
  | none => .ok (.native .void)

/-- The receiver of a method of a class. -/
def receiverOf (m : MethodDecl) (owner : String) : NamedVariable :=
  ⟨"this", .receiver, .ofClass owner, m.span⟩

/-- **A method without its body**, in a class or as a function. -/
def elaborateSignature (I : Interface) (owner : Option String) (m : MethodDecl) :
    Except Diagnostic NamedMethod := do
  let arguments ← inTurn (ArgumentDecl.elaborate I (owner.toList.map fun _ => "this")) [] m.arguments
  let result ← m.elaborateResult I
  let method : MethodName := ⟨owner, m.name, arguments.map NamedVariable.ty⟩
  let external := m.body.isNone
  return ⟨method, result, arguments, owner.map m.receiverOf, external, m.span,
    method.linkage external, none⟩

/-- The names that a body starts with: the receiver and the arguments. -/
def names (g : NamedMethod) : Names :=
  (g.receiver.toList.map fun v => ("this", v)) ++ g.arguments.map fun v => (v.name, v)

/-- The body of a method, if it has one. -/
def elaborateBody (I : Interface) (owner : Option String) (m : MethodDecl) (g : NamedMethod) :
    Except Diagnostic (Option NamedBlock) :=
  match m.body with
  | none => .ok none
  | some (.mk body span) => do
    let body ← Stmt.elaborateAll ⟨I, owner, g.result⟩ (names g) [] body
    return some (.mk body span)

/-- **A method with its body.** -/
def elaborate (I : Interface) (owner : Option String) (m : MethodDecl) :
    Except Diagnostic NamedMethod := do
  let g ← m.elaborateSignature I owner
  return { g with body := ← m.elaborateBody I owner g }

end MethodDecl

/-- The signature of a method of a class, after the methods before it. -/
def MethodDecl.elaborateMember (I : Interface) (owner : String) (before : List MethodDecl)
    (m : MethodDecl) : Except Diagnostic NamedMethod :=
  if m.name ∈ before.map MethodDecl.name then
    .error ⟨.duplicateMethod m.name, m.span⟩
  else
    m.elaborateSignature I (some owner)

/-- **A class with its fields**, and its signatures in order. -/
def ClassDecl.elaborate (I : Interface) (c : ClassDecl) : Except Diagnostic NamedClass := do
  let fields ← inTurn (FieldDecl.elaborate I c.name) [] c.fields
  let _ ← inTurn (MethodDecl.elaborateMember I c.name) [] c.methods
  return ⟨c.name, c.span, fields⟩

/-! ## Units -/

/-- Things in the order of their names. -/
def byName {α : Type} (name : α → String) (l : List α) : List α :=
  (Std.TreeMap.ofList (l.map fun a => (name a, a))).values

section

variable (d : Dialect) (u : CompilationUnit)

/-- A method as those see it who call it. -/
def MethodDecl.callee? (owner : Option String) (m : MethodDecl) : Option Callee :=
  (m.signature? d u).map fun sig => ⟨⟨owner, m.name, sig.parameters⟩, sig.result⟩

/-- A field of a class with its position. -/
def FieldDecl.named? (owner : String) (f : FieldDecl × Nat) : Option NamedVariable :=
  (f.1.type.denoted? d u).map fun T => ⟨f.1.name, .field owner f.2, T, f.1.span⟩

/-- The field of a name. -/
def ClassDecl.namedField? (c : ClassDecl) (name : String) : Option NamedVariable :=
  (c.fields.zipIdx.find? fun f => f.1.name = name).bind (FieldDecl.named? d u c.name)

/-- **The interface of a unit**, read off its declarations. -/
def CompilationUnit.interface : Interface where
  conversions := d.conversions
  type? name := (TypeName.named name .nowhere).denoted? d u
  field? c name := (u.classNamed? c).bind fun decl => decl.namedField? d u name
  method? c name := (u.classNamed? c).bind fun decl =>
    (decl.methodNamed? name).bind fun m => m.callee? d u (some c)
  function? name := (u.functionNamed? name).bind fun f => f.callee? d u none

/-- The methods of a unit in the order in which their bodies are resolved: those of its classes, and
then its functions, all in the order of their names. -/
def CompilationUnit.inOrder : List (Option String × MethodDecl) :=
  ((byName ClassDecl.name u.classes).flatMap fun c =>
    (byName MethodDecl.name c.methods).map fun m => (some c.name, m)) ++
  (byName MethodDecl.name u.functions).map fun f => (none, f)

/-- The classes of a unit, when all its declarations are in order. -/
def CompilationUnit.elaborateSignatures : Except Diagnostic (List NamedClass) := do
  let classes ← (byName ClassDecl.name u.classes).mapM fun c => c.elaborate (u.interface d)
  let _ ← (byName MethodDecl.name u.functions).mapM fun f =>
    f.elaborateSignature (u.interface d) none
  return classes

/-- **A unit after elaboration**: all declarations are checked before the first body is. -/
def CompilationUnit.elaborate : Except Diagnostic NamedProgram := do
  let classes ← u.elaborateSignatures d
  let methods ← u.inOrder.mapM fun (owner, m) => m.elaborate (u.interface d) owner
  return ⟨classes, methods⟩

end

end ClassLang
