import Mathlib.Algebra.Group.Nat.Defs
import ClassLang.Proofs.CorrespondenceUnit
import ClassLang.Proofs.Nodes

/-!
# Literals keep their values

The literals of a body, from left to right, are its numbers, negated where a number is the operand of a
minus sign. What the body becomes has just these integers, in the same order.

* `Literal`: a number and whether it is negated.
* `Expr.literals`, `Stmt.literals`, `Block.literals`: the literals in what is written.
* `TypedBlock.integers`: the integers in what it becomes.
* `Expr.Becomes.integers`, `Block.Becomes.integersIn_nodes`: **they are the same.**
* `Expr.resolve_number`, `Expr.resolve_negative`: a single literal, in every state.
-/

namespace ClassLang

/-! ## Literals -/

/-- A number, which may be the operand of a minus sign. -/
structure Literal where
  magnitude : Nat
  negated : Bool

/-- The integer that a literal stands for. -/
def Literal.value (l : Literal) : Int := if l.negated then -(l.magnitude : Int) else l.magnitude

mutual

/-- The literals in an expression, from left to right. -/
def Expr.literals : Expr → List Literal
  | .number n _ => [⟨n, false⟩]
  | .boolean _ _ => []
  | .symbol _ _ => []
  | .call _ args _ => Expr.literalsAll args
  | .send e _ args _ => e.literals ++ Expr.literalsAll args
  | .member e _ _ => e.literals
  | .binary _ a b _ => a.literals ++ b.literals
  | .unary .negate (.number n _) _ => [⟨n, true⟩]
  | .unary _ e _ => e.literals
  | .addressOf e _ => e.literals
  | .arrayNew _ e _ => e.literals
  | .cast e _ _ => e.literals
  | .index a i _ => a.literals ++ i.literals
  | .this _ => []

/-- The literals in some expressions. -/
def Expr.literalsAll : List Expr → List Literal
  | [] => []
  | e :: es => e.literals ++ Expr.literalsAll es

end

/-- The literals in an expression that may be missing. -/
def Expr.literalsOptional : Option Expr → List Literal
  | none => []
  | some e => e.literals

mutual

/-- The literals in a statement. -/
def Stmt.literals : Stmt → List Literal
  | .expression e _ => e.literals
  | .assignment a b _ => a.literals ++ b.literals
  | .ret value _ => Expr.literalsOptional value
  | .varDecl _ _ value _ => Expr.literalsOptional value
  | .ifElse c yes no _ => c.literals ++ yes.literals ++ no.literals
  | .ifThen c yes _ => c.literals ++ yes.literals
  | .whileDo c body _ => c.literals ++ body.literals
  | .nested block => block.literals

/-- The literals in some statements. -/
def Stmt.literalsAll : List Stmt → List Literal
  | [] => []
  | st :: sts => st.literals ++ Stmt.literalsAll sts

/-- The literals in a block. -/
def Block.literals : Block → List Literal
  | .mk body _ => Stmt.literalsAll body

end

/-- Only the sign in front of a number belongs to the literal. -/
theorem Expr.literals_unary {op : UnaryOp} {e : Expr} {span : Span} (h : ¬ op.Folds e) :
    (Expr.unary op e span).literals = e.literals := by
  rw [Expr.literals]
  rintro n sp rfl rfl
  exact h trivial

/-! ## Integers -/

/-- The value of an integer. -/
def TypedExpr.integer? : TypedExpr → Option Int
  | .int v _ _ => some v
  | _ => none

/-- The integers among some expressions. -/
def integersIn (nodes : List TypedExpr) : List Int := nodes.filterMap TypedExpr.integer?

/-- The integers in a block, from left to right. -/
def TypedBlock.integers (b : TypedBlock) : List Int := integersIn b.nodes

theorem integersIn_append (l l' : List TypedExpr) :
    integersIn (l ++ l') = integersIn l ++ integersIn l' := List.filterMap_append

theorem integersIn_cons {e : TypedExpr} (h : e.integer? = none) (l : List TypedExpr) :
    integersIn (e :: l) = integersIn l := List.filterMap_cons_none h

/-- A conversion adds no integer. -/
theorem TypedExpr.Converts.integers {t t' : TypedExpr} (h : t.Converts t') :
    integersIn t'.nodes = integersIn t.nodes := by
  rcases h with rfl | ⟨ty, rfl⟩
  · rfl
  · rw [TypedExpr.nodes, integersIn_cons rfl]

/-! ## What literals become -/

section

variable {r : Registry} {p : Program} {d : Dialect} {u : CompilationUnit}

mutual

/-- **The integers in what an expression becomes** are its literals. -/
theorem Expr.Becomes.integers {e : Expr} {t : TypedExpr} (h : e.Becomes r p d u t) :
    integersIn t.nodes = e.literals.map Literal.value := by
  cases h with
    simp only [TypedExpr.nodes, TypedExpr.nodesAll, Expr.literals, List.map_append, List.append_nil]
  | number => rfl
  | negative => rfl
  | boolean => rfl
  | «variable» _ => rfl
  | field _ => rfl
  | bareMethod _ _ => rfl
  | bareFunction _ _ => rfl
  | receiverName => rfl
  | receiver => rfl
  | callMethod _ _ hargs => rw [integersIn_cons rfl, integersIn_append, hargs.integers]; rfl
  | callFunction _ _ hargs => rw [integersIn_cons rfl, hargs.integers]
  | send he _ hargs => rw [integersIn_cons rfl, integersIn_append, he.integers, hargs.integers]
  | memberField he _ => rw [integersIn_cons rfl, he.integers]
  | memberMethod he _ => rw [integersIn_cons rfl, he.integers]
  | binary ha hb hconv _ =>
    rw [integersIn_cons rfl, integersIn_append, ha.integers, hconv.integers, hb.integers]
  | unary hfolds he _ => rw [integersIn_cons rfl, he.integers, Expr.literals_unary hfolds]
  | addressOf he => rw [integersIn_cons rfl, he.integers]
  | arrayNew _ he hconv => rw [integersIn_cons rfl, hconv.integers, he.integers]
  | cast he _ => rw [integersIn_cons rfl, he.integers]
  | index ha hi hconv =>
    rw [integersIn_cons rfl, integersIn_append, ha.integers, hconv.integers, hi.integers]

/-- The integers in what arguments become. -/
theorem Expr.BecomesArgs.integers {es : List Expr} {ts : List TypedExpr}
    (h : Expr.BecomesArgs r p d u es ts) :
    integersIn (TypedExpr.nodesAll ts) = (Expr.literalsAll es).map Literal.value := by
  cases h with
  | nil => rw [TypedExpr.nodesAll, Expr.literalsAll]; rfl
  | cons he hconv hrest =>
    rw [TypedExpr.nodesAll, integersIn_append, hconv.integers, he.integers, hrest.integers,
      Expr.literalsAll, List.map_append]

end

/-- The integers in what is returned or assigned at first. -/
theorem Expr.BecomesOptional.integers {value : Option Expr} {t : Option TypedExpr}
    (h : Expr.BecomesOptional r p d u value t) (span : Span) :
    integersIn (TypedStmt.ret t span).nodes = (Expr.literalsOptional value).map Literal.value := by
  cases h with
  | none => rw [TypedStmt.nodes]; rfl
  | some he => rw [TypedStmt.nodes, he.integers]; rfl

mutual

/-- The integers in what a statement becomes, if it leaves anything. -/
theorem Stmt.Becomes.integers {st : Stmt} {o : Option TypedStmt} {ds : List Declaration}
    (h : st.Becomes r p d u o ds) :
    integersIn (TypedStmt.nodesAll o.toList) = st.literals.map Literal.value := by
  rw [TypedStmt.nodesAll_eq]
  cases h with
    simp only [Option.toList_some, List.flatMap_singleton, Stmt.literals, List.map_append]
  | expression he => rw [TypedStmt.nodes, he.integers]
  | assignment ha hb => rw [TypedStmt.nodes, integersIn_append, ha.integers, hb.integers]
  | ret hvalue => exact hvalue.integers _
  | varDecl _ => rfl
  | varInit _ _ he =>
    rw [TypedStmt.nodes, integersIn_append, he.integers, TypedExpr.nodes]
    rfl
  | ifElse hc hyes hno =>
    rw [TypedStmt.nodes, integersIn_append, integersIn_append, hc.integers, hyes.integersIn_nodes,
      hno.integersIn_nodes]
  | ifThen hc hyes =>
    rw [TypedStmt.nodes, integersIn_append, integersIn_append, hc.integers, hyes.integersIn_nodes,
      TypedBlock.nodes, TypedStmt.nodesAll]
    exact List.append_nil _
  | whileDo hc hbody =>
    rw [TypedStmt.nodes, integersIn_append, hc.integers, hbody.integersIn_nodes]
  | nested hblock => rw [TypedStmt.nodes, hblock.integersIn_nodes]

/-- The integers in what statements become. -/
theorem Stmt.BecomesAll.integers {sts : List Stmt} {ts : List TypedStmt} {ds : List Declaration}
    (h : Stmt.BecomesAll r p d u sts ts ds) :
    integersIn (TypedStmt.nodesAll ts) = (Stmt.literalsAll sts).map Literal.value := by
  cases h with
  | nil => rw [TypedStmt.nodesAll, Stmt.literalsAll]; rfl
  | @cons st o rest ts ds ds' hst hrest =>
    rw [TypedStmt.nodesAll_eq, List.flatMap_append, integersIn_append, ← TypedStmt.nodesAll_eq,
      ← TypedStmt.nodesAll_eq, hst.integers, hrest.integers, Stmt.literalsAll, List.map_append]

/-- **The integers in what a block becomes** are its literals. -/
theorem Block.Becomes.integersIn_nodes {block : Block} {b : TypedBlock} {ds : List Declaration}
    (h : block.Becomes r p d u b ds) :
    integersIn b.nodes = block.literals.map Literal.value := by
  cases h with
  | mk hbody => rw [TypedBlock.nodes, hbody.integers, Block.literals]

end

end

/-! ## Single literals -/

/-- **A number** is an integer of 64 bits or refused, whatever the state. -/
theorem Expr.resolve_number (d : Dialect) (scope : ScopeId) (s : Resolver) (n : Nat) (span : Span) :
    (Expr.number n span).resolve d scope s =
      if n < 2 ^ 63 then .ok (.int n Native.integer.id span) s
      else .error ⟨.invalidNumber n.repr, span⟩ s := by
  rw [Expr.resolve]
  have hiff : n ≤ greatestInteger ↔ n < 2 ^ 63 := by
    unfold greatestInteger
    omega
  by_cases hn : n < 2 ^ 63
  · rw [if_pos (hiff.2 hn), if_pos hn]
    rfl
  · rw [if_neg (fun h => hn (hiff.1 h)), if_neg hn]
    rfl

/-- **A negated number** may be one greater. -/
theorem Expr.resolve_negative (d : Dialect) (scope : ScopeId) (s : Resolver) (n : Nat)
    (span span' : Span) :
    (Expr.unary .negate (.number n span') span).resolve d scope s =
      if n ≤ 2 ^ 63 then .ok (.int (-(n : Int)) Native.integer.id span) s
      else .error ⟨.invalidNumber n.repr, span'⟩ s := by
  rw [Expr.resolve]
  have hiff : n ≤ greatestInteger + 1 ↔ n ≤ 2 ^ 63 := by
    unfold greatestInteger
    omega
  by_cases hn : n ≤ 2 ^ 63
  · rw [if_pos (hiff.2 hn), if_pos hn]
    rfl
  · rw [if_neg (fun h => hn (hiff.1 h)), if_neg hn]
    rfl

end ClassLang
