import ClassLang.Types.Shape
import ClassLang.Program.Basic

/-!
# Linkage names

A linkage name tells a linker which method is meant. It holds the names of the owner and of the
method, each behind its length in bytes, and then the types of the arguments: a letter for a native
type, `C` and a name for a class, `P` before the target of a pointer, `A` before the element of an
array, and `v` alone if there are no arguments. A function that is defined elsewhere keeps its name.
-/

namespace ClassLang

/-- A name behind its length in bytes. -/
def sized (name : String) : String := name.utf8ByteSize.repr ++ name

/-- The linkage text of a type, given the names of classes. Where the type is not known to its end
it stops short, and a fault tells why. -/
def Shape.linkage (classes : ClassId → Option String) : Shape → String × Option Diagnostic
  | native k => (String.singleton k.letter, none)
  | ofClass c =>
    match classes c with
    | some name => ("C" ++ sized name, none)
    | none => ("", some (.internal ("class " ++ c.index.repr ++ " has no name") .nowhere))
  | pointer target => ("P" ++ (target.linkage classes).1, (target.linkage classes).2)
  | array element => ("A" ++ (element.linkage classes).1, (element.linkage classes).2)
  | unknown id => ("", some (Registry.unregistered id))

namespace Registry

/-- The linkage text of a type, and what is wrong with it. -/
def typeLinkage (r : Registry) (id : TypeId) : String × Option Diagnostic :=
  (r.shape id).linkage r.className?

/-- The linkage text of a type. -/
def typeLinkageName (r : Registry) (id : TypeId) : Except Diagnostic String :=
  match r.typeLinkage id with
  | (text, none) => .ok text
  | (_, some d) => .error d

end Registry

namespace Program

/-- The part of a linkage name for the owner of a method. -/
def ownerLinkage (p : Program) (m : Method) : Except Diagnostic String :=
  match m.owner with
  | some c => do return sized (← p.getClass c).name
  | none => .ok ""

/-- The linkage name of a method. -/
def linkageName (p : Program) (r : Registry) (id : MethodId) : Except Diagnostic String := do
  let m ← p.getMethod id
  if m.owner.isNone && m.isExternal then return m.name
  let owner ← p.ownerLinkage m
  let parameters ← p.parameterTypes id
  let types ← parameters.mapM r.typeLinkageName
  return "_M" ++ owner ++ sized m.name ++ (if types.isEmpty then "v" else String.join types)

end Program

end ClassLang
