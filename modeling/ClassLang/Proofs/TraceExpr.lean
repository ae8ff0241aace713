import ClassLang.Proofs.FaultPlaces

/-!
# The steps of resolving an expression

The path of an expression notes the written types in it, in the order in which they are written, and
no method. A fault is at the span of some part of the expression.

* `Expr.Traced`: what is to be shown of an expression, with one lemma for each kind of node.
* `Expr.resolve_traces`: it holds of all expressions.
-/

namespace ClassLang

open Resolver Resolve

/-! ## Parts of an expression -/

/-- **Resolving the expression notes its written types**, and what it is resolved to keeps its
span. -/
def Expr.Traced (d : Dialect) (j : ScopeId) (e : Expr) : Prop :=
  ∀ ⦃s : Resolver⦄ ⦃spans : List Span⦄, e.spans ⊆ spans →
    Traces d (e.resolve d j) s spans fun t log => t.span = e.span ∧ Notes log e.types []

/-- **Resolving arguments notes their written types**, if there is a parameter for each. -/
def Expr.TracedArgs (d : Dialect) (j : ScopeId) (es : List Expr) : Prop :=
  ∀ ⦃s : Resolver⦄ ⦃spans : List Span⦄ ⦃tys : List TypeId⦄, tys.length = es.length →
    Expr.spansAll es ⊆ spans →
    Traces d (Expr.resolveArgs d j es tys) s spans fun _ log => Notes log (Expr.typesAll es) []

namespace Expr

variable {d : Dialect} {j : ScopeId} {s : Resolver} {spans : List Span} {span : Span}

section Parts

variable {e : Expr} {α : Type} {Q : α → List Event → Prop}

/-- An operand that is resolved first. Its span is known to the operations that follow. -/
theorem Traced.seq (he : e.Traced d j) {k : TypedExpr → Resolve α} (hspans : e.spans ⊆ spans)
    (hk : ∀ t s' log, t.span ∈ spans → Notes log e.types [] →
      Traces d (k t) s' spans fun a log' => Q a (log ++ log')) :
    Traces d (e.resolve d j >>= k) s spans Q := by
  refine Traces.seq (he hspans) fun t s' log _ hlog => hk t s' log ?_ hlog.2
  rw [hlog.1]
  exact hspans e.span_mem_spans

/-- A question about the state at the end, when all types have been noted. -/
theorem ask_traces {f : Resolver → Except Diagnostic TypedExpr}
    (hf : Yields (f s) (fun t => t.span = span) (Diagnostic.IsAt spans)) {P : List Event → Prop}
    (hP : P []) : Traces d (ask f) s spans fun t log => t.span = span ∧ P log :=
  Traces.ask (hf.post (fun _ ht => ⟨ht, hP⟩))

end Parts

/-! ## Node by node -/

variable {e a b i : Expr} {args es : List Expr} {n : String} {type : TypeName} {op : UnaryOp}

theorem Traced.number (v : Nat) : (Expr.number v span).Traced d j := by
  intro s spans h
  rw [Expr.resolve]
  split
  · exact Traces.pure ⟨rfl, Notes.nil⟩
  · exact Traces.refuse (h List.mem_cons_self)

theorem Traced.boolean (v : Bool) : (Expr.boolean v span).Traced d j := by
  intro s spans h
  rw [Expr.resolve]
  exact Traces.pure ⟨rfl, Notes.nil⟩

theorem Traced.symbol : (Expr.symbol n span).Traced d j := by
  intro s spans h
  rw [Expr.resolve]
  exact ask_traces (name_isAt (h List.mem_cons_self) j) Notes.nil

theorem Traced.receiver : (Expr.this span).Traced d j := by
  intro s spans h
  rw [Expr.resolve]
  exact ask_traces (receiver_isAt (h List.mem_cons_self)) Notes.nil

theorem Traced.call (hargs : TracedArgs d j args) : (Expr.call n args span).Traced d j := by
  intro s spans h
  rw [Expr.spans, List.cons_subset] at h
  rw [Expr.resolve, Expr.types]
  refine Traces.ask_seq (method_isAt h.1 j) ?_
  rintro ⟨m, target⟩ -
  refine Traces.ask_seq (signature_isAt h.1 m args.length) ?_
  rintro ⟨parameters, result⟩ hlen
  refine (hargs hlen h.2).seq fun ts s' log _ hlog => Traces.pure ⟨TypedExpr.span_ofCall, ?_⟩
  rwa [List.append_nil]

theorem Traced.send (he : e.Traced d j) (hargs : TracedArgs d j args) :
    (Expr.send e n args span).Traced d j := by
  intro s spans h
  rw [Expr.spans, List.cons_subset, List.append_subset] at h
  rw [Expr.resolve, Expr.types]
  refine he.seq h.2.1 fun t s' log _ hlog => ?_
  refine Traces.ask_seq (firstCandidate_isAt h.1 t.ty) fun m _ => ?_
  refine Traces.ask_seq (signature_isAt h.1 m args.length) ?_
  rintro ⟨parameters, result⟩ hlen
  refine (hargs hlen h.2.2).seq fun ts s'' log' _ hlog' => Traces.pure ⟨rfl, ?_⟩
  rw [List.append_nil]
  exact hlog.append hlog'

theorem Traced.member (he : e.Traced d j) : (Expr.member e n span).Traced d j := by
  intro s spans h
  rw [Expr.spans, List.cons_subset] at h
  rw [Expr.resolve, Expr.types]
  refine he.seq h.2 fun t s' log _ hlog => ask_traces (member_isAt h.1 t) ?_
  rwa [List.append_nil]

theorem Traced.binary {op : BinaryOp} (ha : a.Traced d j) (hb : b.Traced d j) :
    (Expr.binary op a b span).Traced d j := by
  intro s spans h
  rw [Expr.spans, List.cons_subset, List.append_subset] at h
  rw [Expr.resolve, Expr.types]
  refine ha.seq h.2.1 fun left s' log _ hlog => ?_
  refine hb.seq h.2.2 fun right s'' log' hright hlog' => ask_traces (binary_isAt h.1 hright) ?_
  rw [List.append_nil]
  exact hlog.append hlog'

/-- A number behind a minus sign that is too great is a fault at the number. -/
theorem Traced.negated (v : Nat) (numberSpan : Span) :
    (Expr.unary .negate (.number v numberSpan) span).Traced d j := by
  intro s spans h
  rw [Expr.spans, List.cons_subset] at h
  rw [Expr.resolve, Expr.types]
  split
  · exact Traces.pure ⟨rfl, Notes.nil⟩
  · exact Traces.refuse (h.2 List.mem_cons_self)

theorem Traced.unary (he : e.Traced d j) (hn : ¬ op.Folds e) :
    (Expr.unary op e span).Traced d j := by
  intro s spans h
  rw [Expr.spans, List.cons_subset] at h
  rw [Expr.resolve_unary hn, Expr.types_unary]
  refine he.seq h.2 fun t s' log _ hlog => ask_traces (unary_isAt h.1) ?_
  rwa [List.append_nil]

theorem Traced.addressOf (he : e.Traced d j) : (Expr.addressOf e span).Traced d j := by
  intro s spans h
  rw [Expr.spans, List.cons_subset] at h
  rw [Expr.resolve, Expr.types]
  refine he.seq h.2 fun t s' log ht hlog => ?_
  split
  · refine (intern_traces rfl).seq fun id s'' log' _ hlog' => Traces.pure ⟨rfl, ?_⟩
    rwa [hlog', List.append_nil, List.append_nil]
  · exact Traces.ask (Yields.error (.inr ht))

theorem Traced.arrayNew (he : e.Traced d j) : (Expr.arrayNew type e span).Traced d j := by
  intro s spans h
  rw [Expr.spans, List.cons_subset, List.append_subset] at h
  rw [Expr.resolve, Expr.types]
  refine (TypeName.resolve_traces h.2.1).seq fun ty s₁ log _ hlog => ?_
  refine he.seq h.2.2 fun size s₂ log' hsize hlog' => ?_
  refine Traces.ask_seq (coerce_isAt hsize) fun size' _ => ?_
  refine (intern_traces rfl).seq fun id s₃ log'' _ hlog'' => Traces.pure ⟨rfl, ?_⟩
  rw [hlog'', List.append_nil, List.append_nil]
  exact hlog.append hlog'

theorem Traced.cast (he : e.Traced d j) : (Expr.cast e type span).Traced d j := by
  intro s spans h
  rw [Expr.spans, List.cons_subset, List.append_subset] at h
  rw [Expr.resolve, Expr.types]
  refine he.seq h.2.1 fun value s₁ log _ hlog => ?_
  refine (TypeName.resolve_traces h.2.2).seq fun ty s₂ log' _ hlog' => Traces.pure ⟨rfl, ?_⟩
  rw [List.append_nil]
  exact hlog.append hlog'

theorem Traced.index (ha : a.Traced d j) (hi : i.Traced d j) :
    (Expr.index a i span).Traced d j := by
  intro s spans h
  rw [Expr.spans, List.cons_subset, List.append_subset] at h
  rw [Expr.resolve, Expr.types]
  refine ha.seq h.2.1 fun array s₁ log harray hlog => ?_
  refine Traces.ask_seq (element_isAt harray) fun ty _ => ?_
  refine hi.seq h.2.2 fun position s₂ log' hposition hlog' => ?_
  refine Traces.ask_seq (coerce_isAt hposition) fun position' _ => Traces.pure ⟨rfl, ?_⟩
  rw [List.append_nil]
  exact hlog.append hlog'

theorem TracedArgs.nil : TracedArgs d j [] := by
  intro s spans tys hlen h
  rw [Expr.resolveArgs, Expr.typesAll]
  · exact Traces.pure Notes.nil
  · simp

theorem TracedArgs.cons (he : e.Traced d j) (hes : TracedArgs d j es) :
    TracedArgs d j (e :: es) := by
  intro s spans tys hlen h
  obtain ⟨ty, tys, rfl⟩ := List.exists_cons_of_length_eq_add_one hlen
  rw [Expr.spansAll, List.append_subset] at h
  rw [Expr.resolveArgs, Expr.typesAll]
  refine he.seq h.1 fun t s₁ log ht hlog => ?_
  refine Traces.ask_seq (coerce_isAt ht) fun arg _ => ?_
  refine (hes (Nat.succ.inj hlen) h.2).seq fun ts s₂ log' _ hlog' => Traces.pure ?_
  rw [List.append_nil]
  exact hlog.append hlog'

end Expr

/-! ## All expressions -/

variable {d : Dialect} {j : ScopeId}

mutual

/-- **Every expression** notes its types. -/
theorem Expr.traced : (e : Expr) → e.Traced d j
  | .number n _ => .number n
  | .boolean b _ => .boolean b
  | .symbol _ _ => .symbol
  | .this _ => .receiver
  | .call _ args _ => .call (Expr.tracedArgs args)
  | .send e _ args _ => .send (Expr.traced e) (Expr.tracedArgs args)
  | .member e _ _ => .member (Expr.traced e)
  | .binary _ a b _ => .binary (Expr.traced a) (Expr.traced b)
  | .unary op e _ => by
    by_cases hn : op.Folds e
    · match op, e, hn with
      | .negate, .number n numberSpan, _ => exact .negated n numberSpan
    · exact .unary (Expr.traced e) hn
  | .addressOf e _ => .addressOf (Expr.traced e)
  | .arrayNew _ e _ => .arrayNew (Expr.traced e)
  | .cast e _ _ => .cast (Expr.traced e)
  | .index a i _ => .index (Expr.traced a) (Expr.traced i)

theorem Expr.tracedArgs : (es : List Expr) → TracedArgs d j es
  | [] => .nil
  | e :: es => .cons (Expr.traced e) (Expr.tracedArgs es)

end

/-- **The steps of an expression.** -/
theorem Expr.resolve_traces (e : Expr) {s : Resolver} {spans : List Span} (h : e.spans ⊆ spans) :
    Traces d (e.resolve d j) s spans fun t log => t.span = e.span ∧ Notes log e.types [] :=
  e.traced h

end ClassLang
