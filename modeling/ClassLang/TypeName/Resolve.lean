import ClassLang.Program.Resolver
import ClassLang.TypeName.Basic

/-!
# Resolving written types

A written type is resolved from its name outward; each suffix enters a type of its own.
-/

namespace ClassLang

open Resolve

/-- What a name means as a type, as seen from a scope. -/
def Resolver.typeNamed (s : Resolver) (d : Dialect) (scope : ScopeId) (name : String)
    (span : Span) : Except Diagnostic TypeId :=
  match s.scopes.findType? d.catalog scope name with
  | some ty => .ok ty
  | none => .error ⟨.unknownType name, span⟩

/-- The type that is written, as seen from a scope. -/
def TypeName.resolve (d : Dialect) (scope : ScopeId) : TypeName → Resolve TypeId
  | named name span => ask fun s => s.typeNamed d scope name span
  | pointer target _ => do
    let ty ← target.resolve d scope
    intern (.pointer ty)
  | array element _ => do
    let ty ← element.resolve d scope
    intern (.array ty)

end ClassLang
