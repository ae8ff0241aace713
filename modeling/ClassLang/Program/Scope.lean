import Std.Data.TreeMap
import ClassLang.Id
import ClassLang.Native.Dialect
import ClassLang.Types.Registry

/-!
# Scopes

A scope binds names to variables, methods and types, each sort for itself, and stands inside
another scope, up to the global one. A name means what the nearest scope says that binds it. The
names of native types belong to the global scope and come before the program's own.
-/

namespace ClassLang

/-- What a scope belongs to. -/
inductive ScopeKind where
  | global
  | ofClass (id : ClassId)
  | block
deriving DecidableEq

/-- Names and what they stand for. -/
structure Scope where
  kind : ScopeKind
  parent : Option ScopeId
  vars : Std.TreeMap String VariableId
  methods : Std.TreeMap String MethodId
  types : Std.TreeMap String TypeId

namespace Scope

/-- A scope that binds nothing. -/
def empty (kind : ScopeKind) (parent : Option ScopeId) : Scope := ⟨kind, parent, ∅, ∅, ∅⟩

/-- The variable a scope itself binds to a name. -/
def findVariable? (s : Scope) (name : String) : Option VariableId := s.vars[name]?

/-- The method a scope itself binds to a name. -/
def findMethod? (s : Scope) (name : String) : Option MethodId := s.methods[name]?

/-- The type of the program that a scope itself binds to a name. -/
def findUserType? (s : Scope) (name : String) : Option TypeId := s.types[name]?

/-- The type a scope gives a name, with the native types in the global scope. -/
def findType? (s : Scope) (catalog : Catalog) (name : String) : Option TypeId :=
  match s.kind with
  | .global => ((catalog.find? name).map Native.id).or (s.findUserType? name)
  | _ => s.findUserType? name

/-- One sort of the names that a scope binds. -/
structure Names (α : Type) where
  /-- What the names of this sort stand for. -/
  table : Scope → Std.TreeMap String α
  /-- The scope with other names of this sort. -/
  replace : Scope → Std.TreeMap String α → Scope
  /-- The complaint that a name is bound already. -/
  taken : String → Cause

/-- The names of variables. -/
def Names.ofVariables : Names VariableId :=
  ⟨vars, fun s names => { s with vars := names }, .duplicateVariable⟩

/-- The names of methods. -/
def Names.ofMethods : Names MethodId :=
  ⟨methods, fun s names => { s with methods := names }, .duplicateMethod⟩

/-- The names of types. -/
def Names.ofTypes : Names TypeId :=
  ⟨types, fun s names => { s with types := names }, .duplicateClass⟩

end Scope

/-- All scopes of a program. -/
structure ScopeTree where
  scopes : Array Scope

namespace ScopeTree

/-- The global scope alone. -/
def initial : ScopeTree := ⟨#[.empty .global none]⟩

/-- The global scope. -/
def globalId : ScopeId := ⟨0⟩

/-- How many scopes there are. -/
def size (t : ScopeTree) : Nat := t.scopes.size

/-- A new scope inside another one. -/
def push (t : ScopeTree) (kind : ScopeKind) (parent : ScopeId) : ScopeId × ScopeTree :=
  (⟨t.scopes.size⟩, ⟨t.scopes.push (.empty kind (some parent))⟩)

/-- A scope, which has to be there. -/
def get (t : ScopeTree) (id : ScopeId) : Except Diagnostic Scope :=
  match t.scopes[id.index]? with
  | some s => .ok s
  | none => .error (.internal ("scope " ++ id.index.repr ++ " does not exist") .nowhere)

/-- A changed scope. -/
def set (t : ScopeTree) (id : ScopeId) (s : Scope) : ScopeTree :=
  ⟨t.scopes.setIfInBounds id.index s⟩

/-- A scope of the tree at hand, which has to be there. -/
def ask (id : ScopeId) : EStateM Diagnostic ScopeTree Scope := do
  match (← MonadState.get).get id with
  | .ok s => return s
  | .error d => throw d

/-- Binds a name of one sort in a scope that does not bind it yet. -/
def declare {α : Type} (names : Scope.Names α) (id : ScopeId) (name : String) (a : α)
    (span : Span) : EStateM Diagnostic ScopeTree Unit := do
  let s ← ask id
  if (names.table s).contains name then throw ⟨names.taken name, span⟩
  modify fun t => t.set id (names.replace s ((names.table s).insert name a))

/-- Binds a variable in a scope that does not bind the name yet. -/
def declareVariable (id : ScopeId) (name : String) (v : VariableId) (span : Span) :
    EStateM Diagnostic ScopeTree Unit := declare .ofVariables id name v span

/-- Binds a method in a scope that does not bind the name yet. -/
def declareMethod (id : ScopeId) (name : String) (m : MethodId) (span : Span) :
    EStateM Diagnostic ScopeTree Unit := declare .ofMethods id name m span

/-- Binds a type in a scope that does not bind the name yet. -/
def declareType (id : ScopeId) (name : String) (ty : TypeId) (span : Span) :
    EStateM Diagnostic ScopeTree Unit := declare .ofTypes id name ty span

/-- A scope and those around it, from the inside out, at most `depth` of them. -/
def chainWithin (t : ScopeTree) : (depth : Nat) → ScopeId → List Scope
  | 0, _ => []
  | depth + 1, id =>
    match t.scopes[id.index]? with
    | none => []
    | some s =>
      match s.parent with
      | some parent => s :: t.chainWithin depth parent
      | none => [s]

/-- A scope and all around it, from the inside out. A way outward that does not come back to where
it was passes each scope at most once. -/
def chain (t : ScopeTree) (id : ScopeId) : List Scope := t.chainWithin t.size id

/-- What a name means as a variable. -/
def findVariable? (t : ScopeTree) (id : ScopeId) (name : String) : Option VariableId :=
  (t.chain id).findSome? fun s => s.findVariable? name

/-- What a name means as a method. -/
def findMethod? (t : ScopeTree) (id : ScopeId) (name : String) : Option MethodId :=
  (t.chain id).findSome? fun s => s.findMethod? name

/-- What a name means as a type. -/
def findType? (t : ScopeTree) (catalog : Catalog) (id : ScopeId) (name : String) : Option TypeId :=
  (t.chain id).findSome? fun s => s.findType? catalog name

end ScopeTree

end ClassLang
