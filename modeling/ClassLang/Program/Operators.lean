import ClassLang.Program.Resolver

/-!
# Native operators

Each integer type has arithmetic, comparisons and a negation of its own; truth values have their
connectives and can be compared. The right operand has the type of the left one.
-/

namespace ClassLang

/-- A native operator on a type. -/
structure NativeOperator where
  symbol : String
  /-- Whether there is a right operand. -/
  binary : Bool
  result : Native

/-- The operators of a native type, in their order. -/
def Native.operators (k : Native) : List NativeOperator :=
  if k.isInteger then
    ["+", "-", "*", "/", "%"].map (fun symbol => ⟨symbol, true, k⟩) ++
      ["<", "<=", ">", ">=", "==", "!="].map (fun symbol => ⟨symbol, true, .boolean⟩) ++
      [⟨"-", false, k⟩]
  else if k = .boolean then
    ["and", "or", "==", "!="].map (fun symbol => ⟨symbol, true, .boolean⟩) ++
      [⟨"not", false, .boolean⟩]
  else
    []

namespace Resolve

/-- Adds an operator to the members of a native type. -/
def addOperator (k : Native) (op : NativeOperator) : Resolve Unit := do
  let arguments ←
    if op.binary then do
      let rhs ← addVariable "rhs" k.id (.argument 0) .nowhere
      pure [rhs]
    else
      pure []
  let m ← addMethod ⟨op.symbol, none, op.result.id, arguments, none, none, none,
    .operator op.symbol k.id, .nowhere⟩
  addMember k.id op.symbol m

/-- Adds the operators of all native types. -/
def installOperators : Resolve Unit :=
  Native.all.forM fun k => k.operators.forM (addOperator k)

end Resolve

end ClassLang
