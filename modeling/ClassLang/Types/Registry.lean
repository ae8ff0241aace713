import Std.Data.TreeMap
import ClassLang.Id
import ClassLang.Native.Basic
import ClassLang.Diagnostic.Report

/-!
# The types of a program

A registry numbers the types of a program, and it keeps the number of each type to look it up. Equal
types have equal numbers: a type is entered only if it has no number yet. The native types come
first, in their order. Each type has members, the methods and operators that can be applied to a
value of it, in the order in which they were added.
-/

namespace ClassLang

/-- What a type is, in terms of other types. -/
inductive TypeKind where
  | native (kind : Native)
  | ofClass (id : ClassId)
  | pointer (target : TypeId)
  | array (element : TypeId)
deriving DecidableEq

/-- A number of its own for each of the things that a type can be. -/
def TypeKind.code : TypeKind → Nat
  | native k => 4 * k.index
  | ofClass c => 4 * c.index + 1
  | pointer t => 4 * t.index + 2
  | array t => 4 * t.index + 3

/-- A type with its members. -/
structure TypeEntry where
  kind : TypeKind
  members : List (String × MethodId)

/-- The members of a type that have the given name. -/
def TypeEntry.candidates (e : TypeEntry) (name : String) : List MethodId :=
  e.members.filterMap fun m => if m.1 = name then some m.2 else none

/-- The number of a native type. -/
def Native.id (k : Native) : TypeId := ⟨k.index⟩

/-- The types of a program, the number of each of them, and the names of the classes. -/
structure Registry where
  types : Array TypeEntry
  ids : Std.TreeMap TypeKind TypeId (compareOn TypeKind.code)
  classNames : Std.TreeMap Nat String

namespace Registry

/-- The type of a number. -/
def entry? (r : Registry) (id : TypeId) : Option TypeEntry := r.types[id.index]?

/-- The complaint that no type has this number. -/
def unregistered (id : TypeId) : Diagnostic :=
  .internal ("type id " ++ id.text ++ " is not registered") .nowhere

/-- The type of a number, which has to be there. -/
def entry (r : Registry) (id : TypeId) : Except Diagnostic TypeEntry :=
  match r.entry? id with
  | some e => .ok e
  | none => .error (unregistered id)

/-- What the type of a number is. -/
def kind? (r : Registry) (id : TypeId) : Option TypeKind := (r.entry? id).map TypeEntry.kind

/-- The number of a type, if it is entered. -/
def find? (r : Registry) (kind : TypeKind) : Option TypeId := r.ids[kind]?

/-- Enters a type unless it is there, and gives its number. -/
def intern (r : Registry) (kind : TypeKind) : TypeId × Registry :=
  match r.find? kind with
  | some id => (id, r)
  | none =>
    let id := ⟨r.types.size⟩
    (id, { r with types := r.types.push ⟨kind, []⟩, ids := r.ids.insert kind id })

/-- The native types, without members. -/
def initial : Registry := Native.all.foldl (fun r k => (r.intern (.native k)).2) ⟨#[], ∅, ∅⟩

/-- Names a class and enters its type. -/
def internClass (r : Registry) (id : ClassId) (name : String) : TypeId × Registry :=
  { r with classNames := r.classNames.insert id.index name }.intern (.ofClass id)

/-- The name of a class. -/
def className? (r : Registry) (id : ClassId) : Option String := r.classNames[id.index]?

/-- The class that is a type, if it is one. -/
def classOf? (r : Registry) (id : TypeId) : Option ClassId :=
  match r.kind? id with
  | some (.ofClass c) => some c
  | _ => none

/-- What an array type holds, if it is one. -/
def elementOf? (r : Registry) (id : TypeId) : Option TypeId :=
  match r.kind? id with
  | some (.array e) => some e
  | _ => none

/-- The native type that a type is, if it is one. -/
def nativeOf? (r : Registry) (id : TypeId) : Option Native :=
  match r.kind? id with
  | some (.native k) => some k
  | _ => none

/-- Adds a member to a type. -/
def addMember (r : Registry) (id : TypeId) (name : String) (method : MethodId) :
    Except Diagnostic Registry :=
  match r.entry? id with
  | some e =>
    let extended := { e with members := e.members ++ [(name, method)] }
    .ok { r with types := r.types.setIfInBounds id.index extended }
  | none => .error (unregistered id)

end Registry

end ClassLang
