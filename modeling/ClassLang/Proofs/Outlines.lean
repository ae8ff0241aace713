import ClassLang.Decl.Basic
import ClassLang.Proofs.Layout

/-!
# Outlines of trees

The outline of a tree keeps the span of every node, and under it the outlines of its parts in the
order in which they are written.

* `Outline.Nested`: **spans that nest**. Every span goes forward, the parts of a node lie within its
  span, and none of them reaches into the next.
* `Row p os q`: outlines that nest and stand one behind the other, between the places `p` and `q`.
* `Row.append`, `Row.enclose`: rows are put together, and a node is drawn around a row.
* `Expr.outline`, `Stmt.outline`, `CompilationUnit.outline` and the like: outlines of trees.
-/

namespace ClassLang

/-- The spans of a tree. -/
inductive Outline where
  | node (span : Span) (parts : List Outline)

namespace Outline

/-- The span of the outermost node. -/
def span : Outline → Span
  | node s _ => s

/-- **Spans that nest**, in every node. -/
inductive Nested : Outline → Prop where
  | node {s : Span} {parts : List Outline} (forward : s.start ≤ s.stop)
      (within : ∀ o ∈ parts, s.start ≤ o.span.start ∧ o.span.stop ≤ s.stop)
      (apart : parts.Pairwise fun o o' => o.span.stop ≤ o'.span.start)
      (nested : ∀ o ∈ parts, Nested o) : Nested (.node s parts)

theorem Nested.forward {o : Outline} (h : o.Nested) : o.span.start ≤ o.span.stop := by
  cases h with
  | node forward _ _ _ => exact forward

end Outline

/-! ## Rows -/

/-- **Outlines in a row**: they nest, and they stand one behind the other between two places. -/
inductive Row : Position → List Outline → Position → Prop where
  | nil {p q : Position} (h : p ≤ q) : Row p [] q
  | cons {p q : Position} {o : Outline} {os : List Outline} (hstart : p ≤ o.span.start)
      (hnested : o.Nested) (hrest : Row o.span.stop os q) : Row p (o :: os) q

namespace Row

variable {p p' q q' r : Position} {o o' : Outline} {os os' : List Outline}

theorem le (h : Row p os q) : p ≤ q := by
  induction h with
  | nil hle => exact hle
  | cons hstart hnested hrest ih =>
    exact Position.le_trans hstart (Position.le_trans hnested.forward ih)

/-- A row may start earlier, -/
theorem since (hp : p' ≤ p) (h : Row p os q) : Row p' os q := by
  cases h with
  | nil hle => exact .nil (Position.le_trans hp hle)
  | cons hstart hnested hrest => exact .cons (Position.le_trans hp hstart) hnested hrest

/-- and end later. -/
theorem upTo (h : Row p os q) (hq : q ≤ q') : Row p os q' := by
  induction h with
  | nil hle => exact .nil (Position.le_trans hle hq)
  | cons hstart hnested hrest ih => exact .cons hstart hnested (ih hq)

theorem append (h : Row p os q) (h' : Row q os' r) : Row p (os ++ os') r := by
  induction h with
  | nil hle => exact h'.since hle
  | cons hstart hnested hrest ih => exact .cons hstart hnested (ih h')

theorem within (h : Row p os q) : ∀ o ∈ os, p ≤ o.span.start ∧ o.span.stop ≤ q := by
  induction h with
  | nil hle => exact List.forall_mem_nil _
  | cons hstart hnested hrest ih =>
    rw [List.forall_mem_cons]
    refine ⟨⟨hstart, hrest.le⟩, fun o' ho' => ⟨?_, (ih o' ho').2⟩⟩
    have hpast : _ ≤ o'.span.start := (ih o' ho').1
    exact Position.le_trans (Position.le_trans hstart hnested.forward) hpast

theorem apart (h : Row p os q) : os.Pairwise fun o o' => o.span.stop ≤ o'.span.start := by
  induction h with
  | nil hle => exact List.Pairwise.nil
  | cons hstart hnested hrest ih =>
    exact List.pairwise_cons.2 ⟨fun o' ho' => (hrest.within o' ho').1, ih⟩

theorem nested (h : Row p os q) : ∀ o ∈ os, o.Nested := by
  induction h with
  | nil hle => exact List.forall_mem_nil _
  | cons hstart hnested hrest ih => exact List.forall_mem_cons.2 ⟨hnested, ih⟩

theorem of_apart (hle : p ≤ q) (hwithin : ∀ o ∈ os, p ≤ o.span.start ∧ o.span.stop ≤ q)
    (hapart : os.Pairwise fun o o' => o.span.stop ≤ o'.span.start) (hnested : ∀ o ∈ os, o.Nested) :
    Row p os q := by
  induction os generalizing p with
  | nil => exact .nil hle
  | cons o os ih =>
    rw [List.forall_mem_cons] at hwithin hnested
    rw [List.pairwise_cons] at hapart
    have hbehind : ∀ o' ∈ os, o.span.stop ≤ o'.span.start ∧ o'.span.stop ≤ q :=
      fun o' ho' => ⟨hapart.1 o' ho', (hwithin.2 o' ho').2⟩
    exact .cons hwithin.1.1 hnested.1 (ih hwithin.1.2 hbehind hapart.2 hnested.2)

/-- **A node nests if and only if its parts stand in a row** from its start to its end. -/
theorem nested_node_iff {s : Span} : (Outline.node s os).Nested ↔ Row s.start os s.stop := by
  constructor
  · intro h
    cases h with
    | node forward within apart nested => exact of_apart forward within apart nested
  · intro h
    exact .node h.le h.within h.apart h.nested

/-- A node is drawn around a row, -/
theorem enclose (h : Row p os q) : Row p [.node ⟨p, q⟩ os] q := by
  have hnode : (Outline.node ⟨p, q⟩ os).Nested := nested_node_iff.2 h
  exact .cons (Position.le_refl p) hnode (.nil (Position.le_refl q))

/-- and taken away again. -/
theorem disclose {s : Span} (h : Row p [.node s os] q) : Row p os q := by
  have hparts : Row s.start os s.stop := nested_node_iff.1 (h.nested _ List.mem_cons_self)
  obtain ⟨hstart, hstop⟩ := h.within _ List.mem_cons_self
  exact (hparts.since hstart).upTo hstop

/-- A row may start where its first outline starts, -/
theorem since_head (h : Row p (o :: os) q) : p ≤ o.span.start ∧ Row o.span.start (o :: os) q := by
  cases h with
  | cons hstart hnested hrest => exact ⟨hstart, .cons (Position.le_refl _) hnested hrest⟩

/-- and end where its last one ends. -/
theorem upTo_last (h : Row p (os ++ [o]) q) : Row p (os ++ [o]) o.span.stop ∧ o.span.stop ≤ q := by
  have hlast : o.span.stop ≤ q := (h.within o (by simp)).2
  refine ⟨?_, hlast⟩
  generalize hos : os ++ [o] = all at h
  induction h generalizing os with
  | nil hle => exact absurd hos (by simp)
  | @cons p q o' rest hstart hnested hrest ih =>
    cases os with
    | nil =>
      obtain ⟨rfl, rfl⟩ := List.cons.inj hos
      exact .cons hstart hnested (.nil (Position.le_refl _))
    | cons a os =>
      obtain ⟨rfl, htail⟩ := List.cons.inj hos
      exact .cons hstart hnested (ih hlast htail)

end Row

/-! ## Outlines of trees -/

/-- The outline of a type. -/
def TypeName.outline : TypeName → Outline
  | .named _ span => .node span []
  | .pointer target span => .node span [target.outline]
  | .array element span => .node span [element.outline]

mutual

/-- The outline of an expression. -/
def Expr.outline : Expr → Outline
  | .number _ span => .node span []
  | .boolean _ span => .node span []
  | .symbol _ span => .node span []
  | .this span => .node span []
  | .call _ args span => .node span (Expr.outlines args)
  | .send target _ args span => .node span (target.outline :: Expr.outlines args)
  | .member target _ span => .node span [target.outline]
  | .binary _ left right span => .node span [left.outline, right.outline]
  | .unary _ operand span => .node span [operand.outline]
  | .addressOf operand span => .node span [operand.outline]
  | .arrayNew element size span => .node span [element.outline, size.outline]
  | .cast value target span => .node span [value.outline, target.outline]
  | .index array position span => .node span [array.outline, position.outline]

/-- The outlines of expressions. -/
def Expr.outlines : List Expr → List Outline
  | [] => []
  | e :: es => e.outline :: Expr.outlines es

end

mutual

/-- The outline of a statement. A block that stands as a statement is one node. -/
def Stmt.outline : Stmt → Outline
  | .expression expr span => .node span [expr.outline]
  | .assignment target value span => .node span [target.outline, value.outline]
  | .ret value span => .node span (value.toList.map Expr.outline)
  | .varDecl _ type value span => .node span (type.outline :: value.toList.map Expr.outline)
  | .ifElse condition yes no span => .node span [condition.outline, yes.outline, no.outline]
  | .ifThen condition yes span => .node span [condition.outline, yes.outline]
  | .whileDo condition body span => .node span [condition.outline, body.outline]
  | .nested block => block.outline

/-- The outlines of statements. -/
def Stmt.outlines : List Stmt → List Outline
  | [] => []
  | s :: rest => s.outline :: Stmt.outlines rest

/-- The outline of a block. -/
def Block.outline : Block → Outline
  | .mk body span => .node span (Stmt.outlines body)

end

/-- The outline of an argument. -/
def ArgumentDecl.outline (a : ArgumentDecl) : Outline := .node a.span [a.type.outline]

/-- The outline of a field. -/
def FieldDecl.outline (f : FieldDecl) : Outline := .node f.span [f.type.outline]

/-- The outline of a method. -/
def MethodDecl.outline (m : MethodDecl) : Outline :=
  .node m.span (m.arguments.map ArgumentDecl.outline ++ m.result.toList.map TypeName.outline ++
    m.body.toList.map Block.outline)

/-- The outline of a feature. -/
def Feature.outline : Feature → Outline
  | .field f => f.outline
  | .method m => m.outline

/-- The outline of a class. -/
def ClassDecl.outline (c : ClassDecl) : Outline := .node c.span (c.features.map Feature.outline)

/-- The outline of a declaration. -/
def Decl.outline : Decl → Outline
  | .ofClass c => c.outline
  | .ofFunction f => f.outline

/-- The outline of a unit. -/
def CompilationUnit.outline (u : CompilationUnit) : Outline :=
  .node u.span (u.decls.map Decl.outline)

theorem TypeName.span_outline (t : TypeName) : t.outline.span = t.span := by
  cases t <;> rfl

theorem Expr.span_outline (e : Expr) : e.outline.span = e.span := by
  cases e <;> rfl

theorem Expr.outlines_eq (es : List Expr) : outlines es = es.map outline := by
  induction es with
  | nil => rfl
  | cons e es ih => rw [outlines, ih, List.map_cons]

theorem Stmt.outlines_eq (stmts : List Stmt) : outlines stmts = stmts.map outline := by
  induction stmts with
  | nil => rfl
  | cons s rest ih => rw [outlines, ih, List.map_cons]

end ClassLang
