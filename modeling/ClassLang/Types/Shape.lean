import ClassLang.Types.Registry

/-!
# Types spelled out

The shape of a type is the type with the numbers of other types replaced by those types, down to
a native type or a class. Names of types in messages and in linkage names are read off the shape.
-/

namespace ClassLang

/-- A type down to what is not a pointer or array. -/
inductive Shape where
  | native (kind : Native)
  | ofClass (id : ClassId)
  | pointer (target : Shape)
  | array (element : Shape)
  /-- A number that leads to no type. -/
  | unknown (id : TypeId)
deriving DecidableEq

/-- The shape of a type, if at most `depth` types are passed on the way. -/
def Registry.shapeWithin (r : Registry) : (depth : Nat) → TypeId → Shape
  | 0, id => .unknown id
  | depth + 1, id =>
    match r.kind? id with
    | some (.native k) => .native k
    | some (.ofClass c) => .ofClass c
    | some (.pointer target) => .pointer (r.shapeWithin depth target)
    | some (.array element) => .array (r.shapeWithin depth element)
    | none => .unknown id

/-- The shape of a type. A way that does not come back to where it was passes each type at most
once. -/
def Registry.shape (r : Registry) (id : TypeId) : Shape := r.shapeWithin (r.types.size + 1) id

/-- The name of a type, given the names of classes. -/
def Shape.name (classes : ClassId → Option String) : Shape → String
  | native k => k.name
  | ofClass c => (classes c).getD ("<class " ++ c.index.repr ++ ">")
  | pointer target => target.name classes ++ "*"
  | array element => element.name classes ++ "[]"
  | unknown id => "<unknown " ++ id.text ++ ">"

/-- The name of a type. -/
def Registry.typeName (r : Registry) (id : TypeId) : String := (r.shape id).name r.className?

end ClassLang
