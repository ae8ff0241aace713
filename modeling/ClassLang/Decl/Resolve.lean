import ClassLang.Program.Operators
import ClassLang.Stmt.Resolve
import ClassLang.Decl.Basic

/-!
# Resolving declarations

Resolution goes through the declarations three times: it declares classes and functions by name,
in the order in which they are written; it resolves the fields and signatures, class after class
and function after function in the order of their names; and it resolves the bodies in the order
of the signatures, where the methods of a class are ordered by name. So a declaration may be used
before the place where it is written.
-/

namespace ClassLang

/-- What a compilation unit declares, by name. -/
structure Declarations where
  classes : Std.TreeMap String (ClassId × ClassDecl)
  functions : Std.TreeMap String (MethodId × MethodDecl)

/-- No declarations. -/
def Declarations.empty : Declarations := ⟨∅, ∅⟩

/-- What a method with this declaration is. -/
def MethodDecl.kind (m : MethodDecl) : MethodKind :=
  match m.body with
  | some _ => .user
  | none => .external

/-- A declared method, about whose signature nothing is known yet. -/
def MethodDecl.announce (m : MethodDecl) (owner : Option ClassId) : Method :=
  ⟨m.name, owner, Native.void.id, [], none, none, none, m.kind, m.span⟩

namespace Resolve

/-- Declares a class. Its name may not be taken by another class or a native type. -/
def declareClass (d : Dialect) (known : Declarations) (c : ClassDecl) : Resolve ClassId := do
  if known.classes.contains c.name || d.catalog.contains c.name then
    refuse (.duplicateClass c.name) c.span
  let id := (← get).program.nextClass
  let ty ← internClass id c.name
  updateScopes (ScopeTree.declareType ScopeTree.globalId c.name ty c.span)
  let scope ← pushScope (.ofClass id) ScopeTree.globalId
  addClass ⟨c.name, ty, ∅, [], ∅, scope, c.span⟩

/-- Declares a function. Its name may not be taken by another function. -/
def declareFunction (known : Declarations) (f : MethodDecl) : Resolve MethodId := do
  if known.functions.contains f.name then
    refuse (.duplicateMethod f.name) f.span
  let id ← addFunction (f.announce none)
  updateScopes (ScopeTree.declareMethod ScopeTree.globalId f.name id f.span)
  return id

/-- Declares one class or function after the `known` ones. -/
def declareOne (d : Dialect) (known : Declarations) : Decl → Resolve Declarations
  | .ofClass c => do
    let id ← declareClass d known c
    return { known with classes := known.classes.insert c.name (id, c) }
  | .ofFunction f => do
    let id ← declareFunction known f
    return { known with functions := known.functions.insert f.name (id, f) }

/-- Declares the classes and functions of a unit. -/
def declare (d : Dialect) (u : CompilationUnit) : Resolve Declarations :=
  u.decls.foldlM (declareOne d) .empty

/-- Resolves the field of a class that stands at `index` among its fields. -/
def resolveField (d : Dialect) (c : ClassDecl) (id : ClassId) (scope : ScopeId) (f : FieldDecl)
    (index : Nat) : Resolve Unit := do
  if (← getClass id).fields.contains f.name then
    refuse (.duplicateField c.name f.name) f.span
  let ty ← f.type.resolve d scope
  let v ← bindVariable scope f.name ty (.field id index) f.span
  updateProgram fun p => p.updateClass id fun info =>
    { info with fields := info.fields.insert f.name v, fieldOrder := info.fieldOrder ++ [v] }

/-- Resolves the fields of a class. -/
def resolveFields (d : Dialect) (c : ClassDecl) (id : ClassId) : Resolve Unit := do
  let scope := (← getClass id).scope
  c.fields.zipIdx.forM fun (f, index) => resolveField d c id scope f index

/-- Resolves the argument at `index` of a method. -/
def resolveArgument (d : Dialect) (scope : ScopeId) (a : ArgumentDecl) (index : Nat) :
    Resolve VariableId := do
  let ty ← a.type.resolve d scope
  bindVariable scope a.name ty (.argument index) a.span

/-- The scope in which the members of a class are named, or the functions if there is none. -/
def homeScope : Option ClassId → Resolve ScopeId
  | some c => do return (← getClass c).scope
  | none => return ScopeTree.globalId

/-- Binds the receiver of a method, if it has an owner. -/
def bindReceiver (scope : ScopeId) (m : MethodDecl) : Option ClassId → Resolve (Option VariableId)
  | some c => do
    let ty := (← getClass c).ty
    some <$> bindVariable scope "this" ty .receiver m.span
  | none => return none

/-- Resolves the type a method gives, which is nothing if none is written. -/
def resolveResult (d : Dialect) (scope : ScopeId) : Option TypeName → Resolve TypeId
  | some type => type.resolve d scope
  | none => return Native.void.id

/-- Resolves the signature of a declared method, in a new scope. -/
def resolveSignature (d : Dialect) (id : MethodId) (m : MethodDecl) : Resolve Unit := do
  let owner := (← getMethod id).owner
  let scope ← pushScope .block (← homeScope owner)
  let receiver ← bindReceiver scope m owner
  let arguments ← m.arguments.zipIdx.mapM fun (a, index) => resolveArgument d scope a index
  let result ← resolveResult d scope m.result
  updateProgram fun p => p.updateMethod id fun info =>
    { info with
      result := result, arguments := arguments, receiver := receiver, scope := some scope }

/-- Declares a method of a class and resolves its signature. -/
def declareMethod (d : Dialect) (id : ClassId) (m : MethodDecl) : Resolve MethodId := do
  let c ← getClass id
  if c.methods.contains m.name then
    refuse (.duplicateMethod m.name) m.span
  let method ← addMethod (m.announce (some id))
  updateScopes (ScopeTree.declareMethod c.scope m.name method m.span)
  updateProgram fun p => p.updateClass id fun info =>
    { info with methods := info.methods.insert m.name method }
  addMember c.ty m.name method
  resolveSignature d method m
  return method

/-- Resolves the fields and signatures of a class, and gives its methods by name. -/
def resolveClass (d : Dialect) (id : ClassId) (c : ClassDecl) :
    Resolve (List (MethodId × MethodDecl)) := do
  resolveFields d c id
  let methods ← c.methods.mapM fun m => do return (m.name, (← declareMethod d id m), m)
  return (Std.TreeMap.ofList methods).values

/-- Resolves all fields and signatures, and gives the methods in the order in which their bodies
are resolved. -/
def resolveSignatures (d : Dialect) (decls : Declarations) :
    Resolve (List (MethodId × MethodDecl)) := do
  let methods ← decls.classes.values.mapM fun (id, c) => resolveClass d id c
  let functions ← decls.functions.values.mapM fun (id, f) => do
    resolveSignature d id f
    return (id, f)
  return methods.flatten ++ functions

/-- Resolves the body of a method, if it has one. -/
def resolveBody (d : Dialect) (id : MethodId) (m : MethodDecl) : Resolve Unit := do
  match m.body with
  | none => return
  | some body =>
    match (← getMethod id).scope with
    | none => throw (.internal ("method " ++ m.name ++ " has no scope") m.span)
    | some scope =>
      modify fun s => { s with current := some id }
      let block ← body.resolve d scope
      updateProgram fun p => p.updateMethod id fun info => { info with body := some block }

/-- Resolves the bodies of methods in turn. -/
def resolveBodies (d : Dialect) (bodies : List (MethodId × MethodDecl)) : Resolve Unit := do
  bodies.forM fun (id, m) => resolveBody d id m
  modify fun s => { s with current := none }

/-- Resolves a compilation unit from the native operators on. -/
def resolveUnit (d : Dialect) (u : CompilationUnit) : Resolve Unit := do
  installOperators
  let decls ← declare d u
  let bodies ← resolveSignatures d decls
  resolveBodies d bodies

end Resolve

/-- A compilation unit after resolution: its types and its program. -/
def CompilationUnit.resolve (d : Dialect) (u : CompilationUnit) :
    Except Diagnostic (Registry × Program) :=
  match Resolve.resolveUnit d u .initial with
  | .ok _ s => .ok (s.registry, s.program)
  | .error fault _ => .error fault

end ClassLang
