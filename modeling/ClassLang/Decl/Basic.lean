import ClassLang.Stmt.Basic

/-!
# Declarations

A compilation unit declares classes and functions. A class has fields and methods; a function is
a method outside of any class. A method without a body is defined elsewhere.
-/

namespace ClassLang

/-- A named value that a method is given. -/
structure ArgumentDecl where
  name : String
  type : TypeName
  span : Span

/-- A field of a class. -/
structure FieldDecl where
  name : String
  type : TypeName
  span : Span

/-- A method of a class, or a function. -/
structure MethodDecl where
  name : String
  arguments : List ArgumentDecl
  result : Option TypeName
  body : Option Block
  span : Span

/-- What a class declares. -/
inductive Feature where
  | field (decl : FieldDecl)
  | method (decl : MethodDecl)

/-- What `take` gets out of a list is that from which `make` made an element of it. -/
theorem mem_filterMap_iff {α β : Type} {take : α → Option β} {make : β → α}
    (h : ∀ a b, take a = some b ↔ a = make b) {l : List α} {b : β} :
    b ∈ l.filterMap take ↔ make b ∈ l := by
  rw [List.mem_filterMap]
  constructor
  · rintro ⟨a, ha, hb⟩
    rwa [← (h a b).1 hb]
  · exact fun hb => ⟨make b, hb, (h (make b) b).2 rfl⟩

/-- A class. -/
structure ClassDecl where
  name : String
  features : List Feature
  span : Span

namespace ClassDecl

/-- The fields of a class in the order in which they are written. -/
def fields (c : ClassDecl) : List FieldDecl :=
  c.features.filterMap fun
    | .field f => some f
    | .method _ => none

/-- The methods of a class in the order in which they are written. -/
def methods (c : ClassDecl) : List MethodDecl :=
  c.features.filterMap fun
    | .field _ => none
    | .method m => some m

theorem mem_fields {c : ClassDecl} {f : FieldDecl} : f ∈ c.fields ↔ .field f ∈ c.features :=
  mem_filterMap_iff fun g f => by cases g <;> simp

theorem mem_methods {c : ClassDecl} {m : MethodDecl} : m ∈ c.methods ↔ .method m ∈ c.features :=
  mem_filterMap_iff fun g m => by cases g <;> simp

end ClassDecl

/-- What a compilation unit declares. -/
inductive Decl where
  | ofClass (decl : ClassDecl)
  | ofFunction (decl : MethodDecl)

/-- All declarations of one text. -/
structure CompilationUnit where
  decls : List Decl
  span : Span

namespace CompilationUnit

/-- The classes of a unit in the order in which they are written. -/
def classes (u : CompilationUnit) : List ClassDecl :=
  u.decls.filterMap fun
    | .ofClass c => some c
    | .ofFunction _ => none

/-- The functions of a unit in the order in which they are written. -/
def functions (u : CompilationUnit) : List MethodDecl :=
  u.decls.filterMap fun
    | .ofClass _ => none
    | .ofFunction f => some f

theorem mem_classes {u : CompilationUnit} {c : ClassDecl} : c ∈ u.classes ↔ .ofClass c ∈ u.decls :=
  mem_filterMap_iff fun d c => by cases d <;> simp

theorem mem_functions {u : CompilationUnit} {f : MethodDecl} :
    f ∈ u.functions ↔ .ofFunction f ∈ u.decls :=
  mem_filterMap_iff fun d f => by cases d <;> simp

end CompilationUnit

end ClassLang
