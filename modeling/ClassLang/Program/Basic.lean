import ClassLang.Program.Scope
import ClassLang.Stmt.Typed

/-!
# Programs after resolution

A program numbers its classes, methods and variables. Native operators are methods too; they have
no owner, and the type of their left operand lists them as members.
-/

namespace ClassLang

/-- What a variable is. -/
inductive VariableKind where
  | localVar
  | argument (index : Nat)
  | field (owner : ClassId) (index : Nat)
  | receiver
deriving DecidableEq

/-- A variable, argument, field or receiver. -/
structure Variable where
  name : String
  ty : TypeId
  kind : VariableKind
  /-- The place a code generator has given it. -/
  storage : Option Nat
  span : Span

/-- Whether a variable is a field of a class. -/
def Variable.isField (v : Variable) : Bool :=
  match v.kind with
  | .field _ _ => true
  | _ => false

/-- A class with its members. -/
structure ClassInfo where
  name : String
  ty : TypeId
  fields : Std.TreeMap String VariableId
  /-- The fields in the order in which they are declared. -/
  fieldOrder : List VariableId
  methods : Std.TreeMap String MethodId
  scope : ScopeId
  span : Span

/-- What a method is. -/
inductive MethodKind where
  | user
  /-- Declared without a body and defined elsewhere. -/
  | external
  | operator (symbol : String) (operand : TypeId)
deriving DecidableEq

/-- A method, function or operator. -/
structure Method where
  name : String
  owner : Option ClassId
  result : TypeId
  arguments : List VariableId
  receiver : Option VariableId
  scope : Option ScopeId
  body : Option TypedBlock
  kind : MethodKind
  span : Span

namespace Method

/-- Whether a method is declared without a body. -/
def isExternal (m : Method) : Bool := m.kind = .external

/-- Whether a method is a native operator. -/
def isOperator (m : Method) : Bool :=
  match m.kind with
  | .operator _ _ => true
  | _ => false

end Method

/-- All that a program declares. -/
structure Program where
  classes : Array ClassInfo
  methods : Array Method
  vars : Array Variable
  scopes : ScopeTree
  classNames : Std.TreeMap String ClassId
  functions : Std.TreeMap String MethodId

namespace Program

/-- A program that declares nothing. -/
def initial : Program := ⟨#[], #[], #[], .initial, ∅, ∅⟩

/-- The complaint that nothing of this sort has this number. -/
def missing (sort : String) (index : Nat) : Diagnostic :=
  .internal (sort ++ " " ++ index.repr ++ " does not exist") .nowhere

/-- The number the next class will have. -/
def nextClass (p : Program) : ClassId := ⟨p.classes.size⟩

/-- Adds a class. -/
def addClass (p : Program) (c : ClassInfo) : ClassId × Program :=
  (p.nextClass,
    { p with classes := p.classes.push c, classNames := p.classNames.insert c.name p.nextClass })

/-- Adds a method. -/
def addMethod (p : Program) (m : Method) : MethodId × Program :=
  (⟨p.methods.size⟩, { p with methods := p.methods.push m })

/-- Adds a function. -/
def addFunction (p : Program) (m : Method) : MethodId × Program :=
  (⟨p.methods.size⟩,
    { p with
      methods := p.methods.push m
      functions := p.functions.insert m.name ⟨p.methods.size⟩ })

/-- Adds a variable. -/
def addVariable (p : Program) (v : Variable) : VariableId × Program :=
  (⟨p.vars.size⟩, { p with vars := p.vars.push v })

/-- A class, which has to be there. -/
def getClass (p : Program) (id : ClassId) : Except Diagnostic ClassInfo :=
  match p.classes[id.index]? with
  | some c => .ok c
  | none => .error (missing "class" id.index)

/-- A method, which has to be there. -/
def getMethod (p : Program) (id : MethodId) : Except Diagnostic Method :=
  match p.methods[id.index]? with
  | some m => .ok m
  | none => .error (missing "method" id.index)

/-- A variable, which has to be there. -/
def getVariable (p : Program) (id : VariableId) : Except Diagnostic Variable :=
  match p.vars[id.index]? with
  | some v => .ok v
  | none => .error (missing "variable" id.index)

/-- Changes a class, which has to be there. -/
def updateClass (p : Program) (id : ClassId) (f : ClassInfo → ClassInfo) :
    Except Diagnostic Program := do
  let c ← p.getClass id
  return { p with classes := p.classes.setIfInBounds id.index (f c) }

/-- Changes a method, which has to be there. -/
def updateMethod (p : Program) (id : MethodId) (f : Method → Method) :
    Except Diagnostic Program := do
  let m ← p.getMethod id
  return { p with methods := p.methods.setIfInBounds id.index (f m) }

/-- Changes a variable, which has to be there. -/
def updateVariable (p : Program) (id : VariableId) (f : Variable → Variable) :
    Except Diagnostic Program := do
  let v ← p.getVariable id
  return { p with vars := p.vars.setIfInBounds id.index (f v) }

/-- The class of a name. -/
def classNamed? (p : Program) (name : String) : Option ClassId := p.classNames[name]?

/-- The function of a name. -/
def functionNamed? (p : Program) (name : String) : Option MethodId := p.functions[name]?

/-- The method of a name in the class of a name. -/
def methodOf? (p : Program) (className name : String) : Option MethodId := do
  let id ← p.classNamed? className
  let c ← p.classes[id.index]?
  c.methods[name]?

/-- The types of a method's arguments. -/
def parameterTypes (p : Program) (id : MethodId) : Except Diagnostic (List TypeId) := do
  (← p.getMethod id).arguments.mapM fun v => do return (← p.getVariable v).ty

end Program

end ClassLang
