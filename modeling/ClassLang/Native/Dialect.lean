import Std.Data.TreeMap
import ClassLang.Native.Basic

/-!
# Dialects

A dialect says under which names a program finds the native types, and which conversions between
them need not be written. Conversions are of two sorts: between two types, whatever the value, and
of a literal to an integer type that has room for it.
-/

namespace ClassLang

/-- The names of native types. Several names may stand for one type. -/
structure Catalog where
  names : Std.TreeMap String Native

namespace Catalog

/-- No names. -/
def empty : Catalog := ⟨∅⟩

/-- A further name; it replaces what the name stood for. -/
def add (c : Catalog) (name : String) (kind : Native) : Catalog := ⟨c.names.insert name kind⟩

/-- What a name stands for. -/
def find? (c : Catalog) (name : String) : Option Native := c.names[name]?

/-- Whether a name is in use. -/
def contains (c : Catalog) (name : String) : Bool := c.names.contains name

/-- All names in their order, with what they stand for. -/
def toList (c : Catalog) : List (String × Native) := c.names.toList

/-- Every native type under its own name. -/
def standard : Catalog := Native.all.foldl (fun c k => c.add k.name k) empty

end Catalog

/-- The conversions that need not be written. -/
structure Conversions where
  /-- Whether a value of the first type becomes one of the second. -/
  widens : Native → Native → Bool
  /-- Whether a literal becomes a value of any integer type with room for it. -/
  literals : Bool

namespace Conversions

/-- No conversions. -/
def exact : Conversions := ⟨fun _ _ => false, false⟩

/-- One conversion more. -/
def allow (t : Conversions) (source target : Native) : Conversions :=
  { t with widens := fun a b => (a = source && b = target) || t.widens a b }

/-- Literals converted or not. -/
def withLiterals (t : Conversions) (enabled : Bool) : Conversions := { t with literals := enabled }

/-- Whether the literal `value` becomes a value of the type `target`. -/
def permitsLiteral (t : Conversions) (value : Int) (target : Native) : Bool :=
  t.literals && target.isInteger && target.holds value

/-- All permitted pairs of types, by the first and then by the second. -/
def pairs (t : Conversions) : List (Native × Native) :=
  Native.all.flatMap fun a => (Native.all.filter (t.widens a)).map fun b => (a, b)

/-- Conversions from each of some types to all that come after it. -/
def allowUpward (t : Conversions) : List Native → Conversions
  | [] => t
  | source :: targets => (targets.foldl (fun t target => t.allow source target) t).allowUpward targets

/-- From each sized integer to the wider ones, from those below 64 bits to the plain integer, and
literals to where there is room. -/
def standard : Conversions :=
  ((((exact.withLiterals true).allowUpward [.int8, .int16, .int32, .int64]).allow .int8 .integer).allow
    .int16 .integer).allow .int32 .integer

end Conversions

/-- Names and conversions of the native types. -/
structure Dialect where
  catalog : Catalog
  conversions : Conversions

/-- The dialect of a program about which nothing else is said. -/
def Dialect.standard : Dialect := ⟨.standard, .standard⟩

end ClassLang
