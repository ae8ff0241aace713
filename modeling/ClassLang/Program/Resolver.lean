import ClassLang.Types.Shape
import ClassLang.Program.Basic

/-!
# The state of resolution

Resolution enters types into a registry and declarations into a program, and knows which method's
body it is in. It stops at the first fault; what it had entered by then stays.

What only looks at the state is a function of it, in the namespace `Resolver`. What changes the
state is a `Resolve`.
-/

namespace ClassLang

/-- What resolution has found out so far. -/
structure Resolver where
  registry : Registry
  program : Program
  /-- The method whose body is being resolved. -/
  current : Option MethodId

namespace Resolver

/-- Nothing but the native types and the global scope. -/
def initial : Resolver := ⟨.initial, .initial, none⟩

/-- The scopes of the program. -/
def scopes (s : Resolver) : ScopeTree := s.program.scopes

/-- The name of a type. -/
def typeName (s : Resolver) (ty : TypeId) : String := s.registry.typeName ty

/-- The complaint that one type stands where another is wanted. -/
def mismatch (s : Resolver) (expected received : TypeId) (span : Span) : Diagnostic :=
  ⟨.typeMismatch (s.typeName expected) (s.typeName received), span⟩

/-- The members of a type that have the given name. -/
def candidates (s : Resolver) (ty : TypeId) (name : String) : Except Diagnostic (List MethodId) :=
  do return (← s.registry.entry ty).candidates name

/-- The method whose body is being resolved. -/
def currentMethod (s : Resolver) : Except Diagnostic Method :=
  match s.current with
  | some id => s.program.getMethod id
  | none => .error (.internal "statement lowered outside of a method" .nowhere)

end Resolver

/-- Resolution that may stop with a diagnostic. -/
abbrev Resolve (α : Type) := EStateM Diagnostic Resolver α

namespace Resolve

/-- An answer from the state, or its fault. -/
def ask {α : Type} (f : Resolver → Except Diagnostic α) : Resolve α := do
  match f (← get) with
  | .ok a => return a
  | .error d => throw d

/-- Stops with a diagnostic. -/
def refuse {α : Type} (cause : Cause) (span : Span) : Resolve α := throw ⟨cause, span⟩

/-- Enters a type. -/
def intern (kind : TypeKind) : Resolve TypeId := do
  let s ← get
  let (id, registry) := s.registry.intern kind
  set { s with registry := registry }
  return id

/-- Names a class and enters its type. -/
def internClass (id : ClassId) (name : String) : Resolve TypeId := do
  let s ← get
  let (ty, registry) := s.registry.internClass id name
  set { s with registry := registry }
  return ty

/-- Adds a member to a type. -/
def addMember (id : TypeId) (name : String) (m : MethodId) : Resolve Unit := do
  let registry ← ask fun s => s.registry.addMember id name m
  modify fun s => { s with registry := registry }

/-- Changes the program, or fails without a change. -/
def updateProgram (f : Program → Except Diagnostic Program) : Resolve Unit := do
  let p ← ask fun s => f s.program
  modify fun s => { s with program := p }

/-- Changes the scopes, and keeps what the change has made of them also where it fails. -/
def updateScopes (change : EStateM Diagnostic ScopeTree Unit) : Resolve Unit := do
  let s ← get
  match change s.program.scopes with
  | .ok () scopes => set { s with program := { s.program with scopes := scopes } }
  | .error d scopes =>
    set { s with program := { s.program with scopes := scopes } }
    throw d

/-- A new scope inside another one. -/
def pushScope (kind : ScopeKind) (parent : ScopeId) : Resolve ScopeId := do
  let s ← get
  let (id, scopes) := s.program.scopes.push kind parent
  set { s with program := { s.program with scopes := scopes } }
  return id

/-- Adds a class. -/
def addClass (c : ClassInfo) : Resolve ClassId := do
  let s ← get
  let (id, program) := s.program.addClass c
  set { s with program := program }
  return id

/-- Adds a method. -/
def addMethod (m : Method) : Resolve MethodId := do
  let s ← get
  let (id, program) := s.program.addMethod m
  set { s with program := program }
  return id

/-- Adds a function. -/
def addFunction (m : Method) : Resolve MethodId := do
  let s ← get
  let (id, program) := s.program.addFunction m
  set { s with program := program }
  return id

/-- Adds a variable. -/
def addVariable (name : String) (ty : TypeId) (kind : VariableKind) (span : Span) :
    Resolve VariableId := do
  let s ← get
  let (id, program) := s.program.addVariable ⟨name, ty, kind, none, span⟩
  set { s with program := program }
  return id

/-- Adds a variable and binds its name in a scope. -/
def bindVariable (scope : ScopeId) (name : String) (ty : TypeId) (kind : VariableKind)
    (span : Span) : Resolve VariableId := do
  let id ← addVariable name ty kind span
  updateScopes (ScopeTree.declareVariable scope name id span)
  return id

/-- A class. -/
def getClass (id : ClassId) : Resolve ClassInfo := ask fun s => s.program.getClass id

/-- A method. -/
def getMethod (id : MethodId) : Resolve Method := ask fun s => s.program.getMethod id

end Resolve

end ClassLang
