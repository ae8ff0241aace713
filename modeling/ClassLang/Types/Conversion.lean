import ClassLang.Native.Dialect
import ClassLang.Types.Registry

/-!
# Conversions between the types of a program

Only native types are converted, as the dialect permits.
-/

namespace ClassLang.Registry

/-- Whether values of the first type become values of the second. -/
def widens (r : Registry) (t : Conversions) (source target : TypeId) : Bool :=
  match r.nativeOf? source, r.nativeOf? target with
  | some a, some b => t.widens a b
  | _, _ => false

/-- Whether the literal `value` becomes a value of the type. -/
def literalConverts (r : Registry) (t : Conversions) (value : Int) (target : TypeId) : Bool :=
  match r.nativeOf? target with
  | some k => t.permitsLiteral value k
  | none => false

end ClassLang.Registry
