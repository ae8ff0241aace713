/-!
# Handles

Types, classes, methods, variables and scopes are numbered in the order in which they are created,
from zero. A handle is such a number; handles of different sorts are not mixed. A program is taken
to have fewer than 4294967296 of each sort, so that every handle fits in 32 bits.
-/

namespace ClassLang

/-- The number of a type. -/
structure TypeId where
  index : Nat
deriving DecidableEq

/-- The number of a class. -/
structure ClassId where
  index : Nat
deriving DecidableEq

/-- The number of a method, function or operator. -/
structure MethodId where
  index : Nat
deriving DecidableEq

/-- The number of a variable. -/
structure VariableId where
  index : Nat
deriving DecidableEq

/-- The number of a scope. -/
structure ScopeId where
  index : Nat
deriving DecidableEq

/-- A type's number as it is written in messages. -/
def TypeId.text (id : TypeId) : String := "#" ++ id.index.repr

end ClassLang
