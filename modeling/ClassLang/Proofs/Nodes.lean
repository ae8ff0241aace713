import ClassLang.Proofs.WellTyped

/-!
# The expressions in a typed tree

All expressions in a typed tree as a list, each before its parts and the parts from left to right. What
holds of every well-typed expression holds of every expression in a well-typed body.

* `TypedBlock.nodes`: all expressions in a block.
* `TypedBlock.WellTyped.nodes`: in a well-typed block, they are well typed.
-/

namespace ClassLang

mutual

/-- All expressions in an expression, itself first. -/
def TypedExpr.nodes : TypedExpr → List TypedExpr
  | .var v ty sp => [.var v ty sp]
  | .field target f ty sp => .field target f ty sp :: target.nodes
  | .call m args ty sp => .call m args ty sp :: TypedExpr.nodesAll args
  | .send e m args ty sp => .send e m args ty sp :: (e.nodes ++ TypedExpr.nodesAll args)
  | .unary m e ty sp => .unary m e ty sp :: e.nodes
  | .binary m a b ty sp => .binary m a b ty sp :: (a.nodes ++ b.nodes)
  | .addressOf e ty sp => .addressOf e ty sp :: e.nodes
  | .arrayNew element size ty sp => .arrayNew element size ty sp :: size.nodes
  | .index a i ty sp => .index a i ty sp :: (a.nodes ++ i.nodes)
  | .cast e implicit ty sp => .cast e implicit ty sp :: e.nodes
  | .int v ty sp => [.int v ty sp]
  | .bool b ty sp => [.bool b ty sp]
  | .this ty sp => [.this ty sp]

/-- All expressions in some expressions. -/
def TypedExpr.nodesAll : List TypedExpr → List TypedExpr
  | [] => []
  | e :: es => e.nodes ++ TypedExpr.nodesAll es

end

mutual

/-- All expressions in a statement. -/
def TypedStmt.nodes : TypedStmt → List TypedExpr
  | .assignment a b _ => a.nodes ++ b.nodes
  | .ret none _ => []
  | .ret (some e) _ => e.nodes
  | .nested b => b.nodes
  | .ifElse c yes no _ => c.nodes ++ yes.nodes ++ no.nodes
  | .whileDo c body _ => c.nodes ++ body.nodes
  | .call e => e.nodes

/-- All expressions in some statements. -/
def TypedStmt.nodesAll : List TypedStmt → List TypedExpr
  | [] => []
  | st :: sts => st.nodes ++ TypedStmt.nodesAll sts

/-- All expressions in a block. -/
def TypedBlock.nodes : TypedBlock → List TypedExpr
  | .mk body _ _ => TypedStmt.nodesAll body

end

theorem TypedExpr.nodesAll_eq (es : List TypedExpr) : nodesAll es = es.flatMap TypedExpr.nodes := by
  induction es with
  | nil => rw [nodesAll]; rfl
  | cons e es ih => rw [nodesAll, ih, List.flatMap_cons]

theorem TypedStmt.nodesAll_eq (sts : List TypedStmt) :
    nodesAll sts = sts.flatMap TypedStmt.nodes := by
  induction sts with
  | nil => rw [nodesAll]; rfl
  | cons st sts ih => rw [nodesAll, ih, List.flatMap_cons]

/-! ## Nodes of well-typed trees -/

section

variable {t : Conversions} {r : Registry} {p : Program} {this : Option TypeId} {result : TypeId}

/-- **All expressions in a well-typed expression are well typed.** -/
theorem TypedExpr.WellTyped.nodes {e : TypedExpr} (he : e.WellTyped t r p this) :
    ∀ n ∈ e.nodes, n.WellTyped t r p this := by
  -- all arguments of a call
  have all : ∀ {args : List TypedExpr}, (∀ a ∈ args, ∀ n ∈ a.nodes, n.WellTyped t r p this) →
      ∀ n ∈ TypedExpr.nodesAll args, n.WellTyped t r p this := by
    intro args ih n hn
    rw [TypedExpr.nodesAll_eq] at hn
    obtain ⟨a, ha, hn⟩ := List.mem_flatMap.1 hn
    exact ih a ha n hn
  induction he with simp only [TypedExpr.nodes, List.forall_mem_cons, List.forall_mem_append]
  | var hx hk => exact ⟨.var hx hk, nofun⟩
  | field he hx hk hc ih => exact ⟨.field he hx hk hc, ih⟩
  | call hg ho hargs htypes ih => exact ⟨.call hg ho hargs htypes, all ih⟩
  | send he hg hl hargs htypes ih ihs => exact ⟨.send he hg hl hargs htypes, ih, all ihs⟩
  | unary he hg hl hargs ih => exact ⟨.unary he hg hl hargs, ih⟩
  | binary ha hb hg hl htypes iha ihb => exact ⟨.binary ha hb hg hl htypes, iha, ihb⟩
  | addressOf he hplace hk ih => exact ⟨.addressOf he hplace hk, ih⟩
  | arrayNew hsize hty hk ih => exact ⟨.arrayNew hsize hty hk, ih⟩
  | index ha hi hk hty iha ihi => exact ⟨.index ha hi hk hty, iha, ihi⟩
  | cast he hty ih => exact ⟨.cast he hty, ih⟩
  | implicit he hty hne hconv ih => exact ⟨.implicit he hty hne hconv, ih⟩
  | int hlow hhigh => exact ⟨.int hlow hhigh, nofun⟩
  | bool => exact ⟨.bool, nofun⟩
  | this hty => exact ⟨.this hty, nofun⟩

mutual

/-- All expressions in a well-typed statement are well typed. -/
theorem TypedStmt.WellTyped.nodes {st : TypedStmt} (hst : st.WellTyped t r p this result) :
    ∀ n ∈ st.nodes, n.WellTyped t r p this := by
  cases hst with simp only [TypedStmt.nodes, List.forall_mem_append]
  | assignment ha hb _ _ => exact ⟨ha.nodes, hb.nodes⟩
  | ret _ => exact nofun
  | retValue _ he _ => exact he.nodes
  | nested hb => exact hb.nodes
  | ifElse hc _ hy hn => exact ⟨⟨hc.nodes, hy.nodes⟩, hn.nodes⟩
  | whileDo hc _ hb => exact ⟨hc.nodes, hb.nodes⟩
  | call he _ => exact he.nodes

/-- **All expressions in a well-typed block are well typed.** -/
theorem TypedBlock.WellTyped.nodes {b : TypedBlock} (hb : b.WellTyped t r p this result) :
    ∀ n ∈ b.nodes, n.WellTyped t r p this := by
  cases hb with
  | mk _ _ hall =>
    rw [TypedBlock.nodes, TypedStmt.nodesAll_eq]
    intro n hn
    obtain ⟨st, hst, hn⟩ := List.mem_flatMap.1 hn
    exact (hall st hst).nodes n hn

end

end

end ClassLang
