import ClassLang.Proofs.Trace

/-!
# Where questions about the state fail

Resolving an expression asks the state for names, methods, members, types and the like. A question
that fails does so with an internal fault, or at the span it was asked for. What is answered with an
expression is answered with one at that span.

* `Resolver.coerce_isAt`, `Resolver.name_isAt`, `Resolver.signature_isAt`, `Resolver.binary_isAt` and
  the like: one lemma for each question.
-/

namespace ClassLang

theorem TypedExpr.span_ofCall {target : Option TypedExpr} {m : MethodId} {args : List TypedExpr}
    {ty : TypeId} {span : Span} : (TypedExpr.ofCall target m args ty span).span = span := by
  cases target <;> rfl

namespace Resolver

variable {s : Resolver} {d : Dialect} {spans : List Span} {span : Span} {n : String}

theorem coerce_isAt {e : TypedExpr} {ty : TypeId} (he : e.span ∈ spans) :
    Yields (s.coerce d e ty) (fun t => t.span = e.span) (Diagnostic.IsAt spans) := by
  unfold coerce
  split
  · exact Yields.ok rfl
  · split
    · exact Yields.ok rfl
    · exact Yields.error (.inr he)

theorem currentMethod_isAt : Yields s.currentMethod (fun _ => True) (Diagnostic.IsAt spans) := by
  unfold currentMethod
  cases s.current with
  | some m => exact (Program.getMethod_isAt s.program m).post (fun _ _ => trivial)
  | none => exact Yields.error (Diagnostic.internal_isAt _ _)

theorem receiver_isAt (h : span ∈ spans) :
    Yields (s.receiver span) (fun t => t.span = span) (Diagnostic.IsAt spans) := by
  unfold receiver
  refine currentMethod_isAt.seq fun g _ => ?_
  cases g.receiver with
  | some v =>
    exact (Program.getVariable_isAt s.program v).seq fun x _ => Yields.pure rfl
  | none => exact Yields.throw (.inr h)

theorem implicitReceiver_isAt (h : span ∈ spans) (m : MethodId) :
    Yields (s.implicitReceiver m span) (fun _ => True) (Diagnostic.IsAt spans) := by
  unfold implicitReceiver
  refine (Program.getMethod_isAt s.program m).seq fun g _ => ?_
  cases g.owner with
  | some c => exact Yields.map ((receiver_isAt h).post (fun _ _ => trivial))
  | none => exact Yields.pure trivial

theorem parameterTypes_isAt (p : Program) (m : MethodId) :
    Yields (p.parameterTypes m) (fun _ => True) (Diagnostic.IsAt spans) := by
  unfold Program.parameterTypes
  refine (Program.getMethod_isAt p m).seq fun g _ => ?_
  induction g.arguments with
  | nil => rw [List.mapM_nil]; exact Yields.pure trivial
  | cons v vs ih =>
    rw [List.mapM_cons]
    refine Yields.seq (Q := fun _ => True) ?_ fun ty _ =>
      ih.seq fun tys _ => Yields.pure trivial
    exact (Program.getVariable_isAt p v).seq fun x _ => Yields.pure trivial

theorem signature_isAt (h : span ∈ spans) (m : MethodId) (count : Nat) :
    Yields (s.signature m count span) (fun sig => sig.1.length = count)
      (Diagnostic.IsAt spans) := by
  unfold signature
  refine (parameterTypes_isAt s.program m).seq fun tys _ => ?_
  refine (Program.getMethod_isAt s.program m).seq fun g _ => ?_
  split
  · rename_i hlen
    exact Yields.pure hlen
  · exact Yields.throw (.inr h)

theorem callBare_isAt (h : span ∈ spans) (m : MethodId) (target : Option TypedExpr) :
    Yields (s.callBare m target span) (fun t => t.span = span) (Diagnostic.IsAt spans) :=
  (signature_isAt h m 0).seq fun _ _ => Yields.pure TypedExpr.span_ofCall

theorem useOf_isAt (h : span ∈ spans) (v : VariableId) :
    Yields (s.useOf v span) (fun t => t.span = span) (Diagnostic.IsAt spans) := by
  unfold useOf
  refine (Program.getVariable_isAt s.program v).seq fun x _ => ?_
  cases x.kind with
  | field c index => exact (receiver_isAt h).seq fun _ _ => Yields.pure rfl
  | receiver => exact receiver_isAt h
  | localVar => exact Yields.pure rfl
  | argument index => exact Yields.pure rfl

theorem name_isAt (h : span ∈ spans) (j : ScopeId) :
    Yields (s.name j n span) (fun t => t.span = span) (Diagnostic.IsAt spans) := by
  unfold name
  split
  · exact useOf_isAt h _
  · rename_i m _ _
    exact (implicitReceiver_isAt h m).seq fun target _ => callBare_isAt h m target
  · exact Yields.error (.inr h)

theorem method_isAt (h : span ∈ spans) (j : ScopeId) :
    Yields (s.method j n span) (fun _ => True) (Diagnostic.IsAt spans) := by
  unfold method
  split
  · rename_i m _
    exact (implicitReceiver_isAt h m).seq fun _ _ => Yields.pure trivial
  · exact Yields.error (.inr h)

theorem candidates_isAt (ty : TypeId) :
    Yields (s.candidates ty n) (fun _ => True) (Diagnostic.IsAt spans) := by
  unfold candidates Registry.entry
  cases s.registry.entry? ty with
  | some e => exact Yields.pure trivial
  | none => exact Yields.error (Diagnostic.internal_isAt _ _)

theorem firstCandidate_isAt (h : span ∈ spans) (ty : TypeId) :
    Yields (s.firstCandidate ty n span) (fun _ => True) (Diagnostic.IsAt spans) := by
  unfold firstCandidate
  refine (candidates_isAt ty).seq fun ms _ => ?_
  cases ms with
  | nil => exact Yields.throw (.inr h)
  | cons m ms => exact Yields.pure trivial

theorem field?_isAt (ty : TypeId) :
    Yields (s.field? ty n) (fun _ => True) (Diagnostic.IsAt spans) := by
  unfold field?
  cases s.registry.classOf? ty with
  | some c =>
    exact (Program.getClass_isAt s.program c).seq fun _ _ => Yields.pure trivial
  | none => exact Yields.ok trivial

theorem member_isAt (h : span ∈ spans) (target : TypedExpr) :
    Yields (s.member target n span) (fun t => t.span = span) (Diagnostic.IsAt spans) := by
  unfold member
  refine (field?_isAt target.ty).seq fun f _ => ?_
  cases f with
  | some f =>
    exact (Program.getVariable_isAt s.program f).seq fun _ _ => Yields.pure rfl
  | none =>
    exact (firstCandidate_isAt h target.ty).seq fun m _ =>
      callBare_isAt h m (some target)

theorem element_isAt {array : TypedExpr} (h : array.span ∈ spans) :
    Yields (s.element array) (fun _ => True) (Diagnostic.IsAt spans) := by
  unfold element
  cases s.registry.elementOf? array.ty with
  | some ty => exact Yields.ok trivial
  | none => exact Yields.error (.inr h)

/-- A choice fails only inside the expression. -/
theorem choose_isAt (right : TypedExpr) : ∀ (ms : List MethodId) (found : List (MethodId × TypeId)),
    Yields (s.choose d right ms found) (fun _ => True) (Diagnostic.IsAt spans) := by
  intro ms
  induction ms with
  | nil =>
    intro found
    rcases found with _ | ⟨f, _ | ⟨f', fs⟩⟩ <;> exact Yields.ok trivial
  | cons m ms ih =>
    intro found
    rw [choose]
    refine (parameterTypes_isAt s.program m).seq fun tys _ => ?_
    split
    · split
      · exact Yields.pure trivial
      · split
        · exact ih _
        · exact ih _
    · exact ih _

theorem binary_isAt (h : span ∈ spans) {op : BinaryOp} {left right : TypedExpr}
    (hright : right.span ∈ spans) :
    Yields (s.binary d op left right span) (fun t => t.span = span) (Diagnostic.IsAt spans) := by
  unfold binary
  refine (candidates_isAt left.ty).seq fun ms _ => ?_
  refine (choose_isAt right ms []).seq fun choice _ => ?_
  cases choice with
  | exact m =>
    exact (Program.getMethod_isAt s.program m).seq fun _ _ => Yields.pure rfl
  | converted m parameter =>
    refine (coerce_isAt hright).seq fun _ _ => ?_
    exact (Program.getMethod_isAt s.program m).seq fun _ _ => Yields.pure rfl
  | none => exact Yields.throw (.inr h)

theorem firstBare_isAt : ∀ ms : List MethodId,
    Yields (s.firstBare ms) (fun _ => True) (Diagnostic.IsAt spans) := by
  intro ms
  induction ms with
  | nil => exact Yields.ok trivial
  | cons m ms ih =>
    refine (Program.getMethod_isAt s.program m).seq fun g _ => ?_
    split
    · exact Yields.pure trivial
    · exact ih

theorem unary_isAt (h : span ∈ spans) {op : UnaryOp} {operand : TypedExpr} :
    Yields (s.unary op operand span) (fun t => t.span = span) (Diagnostic.IsAt spans) := by
  unfold unary
  refine (candidates_isAt operand.ty).seq fun ms _ => ?_
  refine (firstBare_isAt ms).seq fun m _ => ?_
  cases m with
  | some m =>
    exact (Program.getMethod_isAt s.program m).seq fun _ _ => Yields.pure rfl
  | none => exact Yields.throw (.inr h)

theorem assignment_isAt (span : Span) {target value : TypedExpr} (ht : target.span ∈ spans)
    (hv : value.span ∈ spans) :
    Yields (s.assignment target value span) (fun _ => True) (Diagnostic.IsAt spans) := by
  unfold assignment
  split
  · exact Yields.error (.inr ht)
  · split
    · exact Yields.error (.inr hv)
    · exact Yields.ok trivial

theorem callStmt_isAt (h : span ∈ spans) (e : TypedExpr) :
    Yields (s.callStmt e span) (fun _ => True) (Diagnostic.IsAt spans) :=
  Yields.ite (Yields.ok trivial) (Yields.error (.inr h))

theorem ret_isAt (h : span ∈ spans) (ty : TypeId) (value : Option TypedExpr) :
    Yields (s.ret ty value span) (fun _ => True) (Diagnostic.IsAt spans) :=
  Yields.ite (Yields.error (.inr h)) (Yields.ok trivial)

theorem condition_isAt {e : TypedExpr} (h : e.span ∈ spans) :
    Yields (s.condition e) (fun _ => True) (Diagnostic.IsAt spans) :=
  Yields.ite (Yields.ok trivial) (Yields.error (.inr h))

end Resolver

end ClassLang
