/-!
# Native types

The types that need no declaration: nothing, truth values, and signed integers of several widths.
-/

namespace ClassLang

/-- A native type. -/
inductive Native where
  | void
  | boolean
  | integer
  | int8
  | int16
  | int32
  | int64
deriving DecidableEq

namespace Native

/-- All native types, in their order. -/
def all : List Native := [void, boolean, integer, int8, int16, int32, int64]

/-- The place of a native type in their order. -/
def index : Native → Nat
  | void => 0
  | boolean => 1
  | integer => 2
  | int8 => 3
  | int16 => 4
  | int32 => 5
  | int64 => 6

/-- The name of a native type. -/
def name : Native → String
  | void => "Void"
  | boolean => "Boolean"
  | integer => "Integer"
  | int8 => "Int8"
  | int16 => "Int16"
  | int32 => "Int32"
  | int64 => "Int64"

/-- The width of an integer type in bits. -/
def width? : Native → Option Nat
  | void => none
  | boolean => none
  | integer => some 64
  | int8 => some 8
  | int16 => some 16
  | int32 => some 32
  | int64 => some 64

/-- Whether a native type is one of the integers. -/
def isInteger (k : Native) : Bool := k.width?.isSome

/-- Whether an integer type has room for `value`, in two's complement. The values asked about have
64 bits, so there is nothing to check for a type of that width. -/
def holds (k : Native) (value : Int) : Bool :=
  match k.width? with
  | some 64 => true
  | some bits => -(Int.pow 2 (bits - 1)) ≤ value && value ≤ Int.pow 2 (bits - 1) - 1
  | none => false

/-- The letter of a native type in linkage names. -/
def letter : Native → Char
  | void => 'v'
  | boolean => 'b'
  | integer => 'i'
  | int8 => 'a'
  | int16 => 's'
  | int32 => 'l'
  | int64 => 'x'

end Native

end ClassLang
