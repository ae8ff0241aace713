import ClassLang.Proofs.TraceExpr

/-!
# The steps of resolving a body

The path of a body notes the written types in it, in the order in which they are written, and no
method. A fault is at the span of some part of the body.

* `Stmt.Traced`, `Stmt.TracedAll`, `Block.Traced`: what is to be shown of them, with one lemma for each
  kind of statement.
* `Block.resolve_traces`: it holds of all bodies.
-/

namespace ClassLang

open Resolver Resolve

/-! ## Parts of a statement -/

/-- **Resolving the statement notes its written types.** -/
def Stmt.Traced (d : Dialect) (c : Stmt) : Prop :=
  ∀ ⦃j : ScopeId⦄ ⦃s : Resolver⦄ ⦃spans : List Span⦄, c.spans ⊆ spans →
    Traces d (c.resolve d j) s spans fun _ log => Notes log c.types []

/-- **Resolving statements notes their written types.** -/
def Stmt.TracedAll (d : Dialect) (cs : List Stmt) : Prop :=
  ∀ ⦃j : ScopeId⦄ ⦃s : Resolver⦄ ⦃spans : List Span⦄, Stmt.spansAll cs ⊆ spans →
    Traces d (Stmt.resolveAll d j cs) s spans fun _ log => Notes log (Stmt.typesAll cs) []

/-- **Resolving the block notes its written types.** -/
def Block.Traced (d : Dialect) (b : Block) : Prop :=
  ∀ ⦃j : ScopeId⦄ ⦃s : Resolver⦄ ⦃spans : List Span⦄, b.spans ⊆ spans →
    Traces d (b.resolveNested d j) s spans fun _ log => Notes log b.types []

section Parts

variable {d : Dialect} {j : ScopeId} {s : Resolver} {spans : List Span}

theorem Expr.resolveCondition_traces {e : Expr} (he : e.spans ⊆ spans) :
    Traces d (e.resolveCondition d j) s spans fun _ log => Notes log e.types [] := by
  refine e.traced.seq he fun t s' log ht hlog => ?_
  refine Traces.ask ((condition_isAt ht).post (fun _ _ => ?_))
  rwa [List.append_nil]

theorem Expr.resolveOptional_traces (e : Option Expr) (he : e.elim [] Expr.spans ⊆ spans) :
    Traces d (Expr.resolveOptional d j e) s spans fun t log =>
      (∀ t', t = some t' → t'.span ∈ spans) ∧ Notes log (e.elim [] Expr.types) [] := by
  cases e with
  | none => exact Traces.pure ⟨nofun, Notes.nil⟩
  | some e =>
    refine Traces.map ((e.resolve_traces he).post ?_)
    rintro t log ⟨hspan, hlog⟩
    refine ⟨?_, hlog⟩
    rintro _ ⟨⟩
    rw [hspan]
    exact he e.span_mem_spans

/-- A question about the state at the end, when all types have been noted. -/
theorem Stmt.ask_traces {f : Resolver → Except Diagnostic TypedStmt}
    (hf : Yields (f s) (fun _ => True) (Diagnostic.IsAt spans)) {P : List Event → Prop}
    (hP : P []) : Traces d (some <$> ask f) s spans fun _ log => P log :=
  Traces.map (Traces.ask (hf.post (fun _ _ => hP)))

end Parts

/-! ## Statement by statement -/

namespace Stmt

variable {d : Dialect} {c : Stmt} {cs body : List Stmt} {e a b : Expr} {yes no inner : Block}
  {value : Option Expr} {n : String} {type : TypeName} {span : Span}

theorem Traced.expression : (Stmt.expression e span).Traced d := by
  intro j s spans h
  rw [Stmt.spans, List.cons_subset] at h
  rw [Stmt.resolve, Stmt.types]
  refine e.traced.seq h.2 fun t s' log _ hlog => Stmt.ask_traces (callStmt_isAt h.1 t) ?_
  rwa [List.append_nil]

theorem Traced.assignment : (Stmt.assignment a b span).Traced d := by
  intro j s spans h
  rw [Stmt.spans, List.cons_subset, List.append_subset] at h
  rw [Stmt.resolve, Stmt.types]
  refine a.traced.seq h.2.1 fun ta s₁ log hta hlog => ?_
  refine b.traced.seq h.2.2 fun tb s₂ log' htb hlog' => ?_
  refine Stmt.ask_traces (assignment_isAt span hta htb) ?_
  rw [List.append_nil]
  exact hlog.append hlog'

theorem Traced.ret : (Stmt.ret value span).Traced d := by
  intro j s spans h
  rw [Stmt.spans, List.cons_subset] at h
  rw [Stmt.resolve, Stmt.types]
  refine Traces.ask_seq currentMethod_isAt fun g _ => ?_
  refine (Expr.resolveOptional_traces value h.2).seq fun v s' log _ hlog => ?_
  refine Stmt.ask_traces (ret_isAt h.1 g.result v) ?_
  rw [List.append_nil]
  exact hlog.2

theorem Traced.varDecl : (Stmt.varDecl n type value span).Traced d := by
  intro j s spans h
  rw [Stmt.spans, List.cons_subset, List.append_subset] at h
  rw [Stmt.resolve, Stmt.types]
  refine (TypeName.resolve_traces h.2.1).seq fun ty s₁ log _ hlog => ?_
  refine (Expr.resolveOptional_traces value h.2.2).seq fun v s₂ log' _ hlog' => ?_
  refine (bindVariable_traces h.1).seq fun id s₃ log'' _ hlog'' => ?_
  subst hlog''
  have hall := hlog.append hlog'.2
  cases v with
  | none =>
    refine Traces.pure ?_
    rwa [List.append_nil, List.append_nil]
  | some v =>
    have hplace : (TypedExpr.var id ty span).span ∈ spans := h.1
    refine Stmt.ask_traces (assignment_isAt span hplace (hlog'.1 v rfl)) ?_
    rwa [List.append_nil, List.append_nil]

theorem Traced.ifElse (hyes : yes.Traced d) (hno : no.Traced d) :
    (Stmt.ifElse e yes no span).Traced d := by
  intro j s spans h
  rw [Stmt.spans, List.cons_subset, List.append_subset, List.append_subset] at h
  obtain ⟨-, ⟨he, hs⟩, hs'⟩ := h
  rw [Stmt.resolve, Stmt.types]
  refine (Expr.resolveCondition_traces he).seq fun _ s₁ log _ hlog => ?_
  refine (hyes hs).seq fun _ s₂ log' _ hlog' => ?_
  refine (hno hs').seq fun _ s₃ log'' _ hlog'' => Traces.pure ?_
  rw [List.append_nil, ← List.append_assoc]
  exact (hlog.append hlog').append hlog''

theorem Traced.ifThen (hyes : yes.Traced d) : (Stmt.ifThen e yes span).Traced d := by
  intro j s spans h
  rw [Stmt.spans, List.cons_subset, List.append_subset] at h
  rw [Stmt.resolve, Stmt.types]
  refine (Expr.resolveCondition_traces h.2.1).seq fun _ s₁ log _ hlog => ?_
  refine (hyes h.2.2).seq fun _ s₂ log' _ hlog' => ?_
  refine pushScope_traces.seq fun _ s₃ log'' _ hlog'' => Traces.pure ?_
  rw [hlog'', List.append_nil, List.append_nil]
  exact hlog.append hlog'

theorem Traced.whileDo (hinner : inner.Traced d) : (Stmt.whileDo e inner span).Traced d := by
  intro j s spans h
  rw [Stmt.spans, List.cons_subset, List.append_subset] at h
  rw [Stmt.resolve, Stmt.types]
  refine (Expr.resolveCondition_traces h.2.1).seq fun _ s₁ log _ hlog => ?_
  refine (hinner h.2.2).seq fun _ s₂ log' _ hlog' => Traces.pure ?_
  rw [List.append_nil]
  exact hlog.append hlog'

theorem Traced.nested (hinner : inner.Traced d) : (Stmt.nested inner).Traced d := by
  intro j s spans h
  rw [Stmt.spans_nested] at h
  rw [Stmt.resolve, Stmt.types_nested]
  refine (hinner h).seq fun _ s₁ log _ hlog => Traces.pure ?_
  rwa [List.append_nil]

theorem TracedAll.nil : TracedAll d [] := by
  intro j s spans h
  rw [Stmt.resolveAll, Stmt.typesAll]
  exact Traces.pure Notes.nil

theorem TracedAll.cons (hc : c.Traced d) (hcs : TracedAll d cs) : TracedAll d (c :: cs) := by
  intro j s spans h
  rw [Stmt.spansAll, List.append_subset] at h
  rw [Stmt.resolveAll, Stmt.typesAll]
  refine (hc h.1).seq fun _ s₁ log _ hlog => ?_
  refine (hcs h.2).seq fun _ s₂ log' _ hlog' => Traces.pure ?_
  rw [List.append_nil]
  exact hlog.append hlog'

theorem TracedAll.block (hbody : TracedAll d body) : (Block.mk body span).Traced d := by
  intro j s spans h
  rw [Block.spans, List.cons_subset] at h
  rw [Block.resolveNested, Block.types]
  refine pushScope_traces.seq fun scope s₁ log _ hlog => ?_
  subst hlog
  refine (hbody h.2).seq fun _ s₂ log' _ hlog' => Traces.pure ?_
  rwa [List.append_nil]

end Stmt

/-! ## All statements -/

variable {d : Dialect}

mutual

theorem Stmt.traced : (c : Stmt) → c.Traced d
  | .expression _ _ => .expression
  | .assignment _ _ _ => .assignment
  | .ret _ _ => .ret
  | .varDecl _ _ _ _ => .varDecl
  | .ifElse _ yes no _ => .ifElse (Block.traced yes) (Block.traced no)
  | .ifThen _ yes _ => .ifThen (Block.traced yes)
  | .whileDo _ body _ => .whileDo (Block.traced body)
  | .nested block => .nested (Block.traced block)

theorem Stmt.tracedAll : (cs : List Stmt) → Stmt.TracedAll d cs
  | [] => .nil
  | c :: cs => .cons (Stmt.traced c) (Stmt.tracedAll cs)

theorem Block.traced : (b : Block) → b.Traced d
  | .mk body _ => (Stmt.tracedAll body).block

end

/-- **The steps of a body.** -/
theorem Block.resolve_traces (b : Block) (j : ScopeId) (s : Resolver) {spans : List Span}
    (h : b.spans ⊆ spans) :
    Traces d (b.resolve d j) s spans fun _ log => Notes log b.types [] := by
  obtain ⟨body, span⟩ := b
  rw [Block.spans, List.cons_subset] at h
  rw [Block.resolve, Block.types]
  refine (Stmt.tracedAll body h.2).seq fun _ s₁ log _ hlog => Traces.pure ?_
  rwa [List.append_nil]

end ClassLang
