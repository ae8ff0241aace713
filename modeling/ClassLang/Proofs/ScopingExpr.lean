import ClassLang.Proofs.Scoping

/-!
# Expressions are scoped lexically

An expression that is resolved becomes a tree in which each name stands for what the environment
says, and of the program nothing changes: only types are entered.

* `Resolver.member_form`, `Resolver.binary_form` and the like: what the answers of the state look like.
* `Resolver.Lexical`: names mean what the environment says, as seen from a scope.
* `Expr.Scoped`: what is to be shown of an expression, with one lemma for each kind of node.
* `Expr.resolve_lowers`: it holds of all expressions.
-/

namespace ClassLang

/-! ## The form of what is resolved -/

namespace Resolver

variable {s s' s'' : Resolver} {d : Dialect} {j : ScopeId} {M : Members} {Δ : List Locals}
  {n : String} {span : Span} {m : MethodId} {t r : TypedExpr} {o : Option TypedExpr}

theorem receiver_form (s : Resolver) (span : Span) :
    Yields (s.receiver span) (fun t => ∃ ty, t = .this ty span) fun _ => True := by
  unfold receiver
  refine Yields.any_seq fun g => ?_
  cases g.receiver with
  | none => exact Yields.throw trivial
  | some id =>
    refine Yields.any_seq fun v => ?_
    exact Yields.pure ⟨v.ty, rfl⟩

theorem callBare_form (s : Resolver) (m : MethodId) (o : Option TypedExpr) (span : Span) :
    Yields (s.callBare m o span) (fun t => ∃ ty, t = .ofCall o m [] ty span) fun _ => True := by
  unfold callBare
  refine Yields.any_seq fun q => ?_
  exact Yields.pure ⟨q.2, rfl⟩

theorem signature_form (s : Resolver) (m : MethodId) (count : Nat) (span : Span) :
    Yields (s.signature m count span) (fun q => q.1.length = count) fun _ => True := by
  unfold signature
  refine Yields.any_seq fun tys => ?_
  refine Yields.any_seq fun g => ?_
  split
  · rename_i hlen; exact Yields.pure hlen
  · exact Yields.throw trivial

theorem coerce_form (s : Resolver) (d : Dialect) (t : TypedExpr) (ty : TypeId) :
    Yields (s.coerce d t ty) t.Converts fun _ => True := by
  unfold coerce
  exact Yields.ite (Yields.ok (.inl rfl)) (Yields.ite (Yields.ok (.inr ⟨ty, rfl⟩))
    (Yields.error trivial))

theorem member_form (s : Resolver) (t : TypedExpr) (n : String) (span : Span) :
    Yields (s.member t n span) (fun r => (∃ f ty, r = .field t f ty span) ∨
      ∃ m ty, r = .send t m [] ty span) fun _ => True := by
  unfold member
  refine Yields.any_seq fun f => ?_
  cases f with
  | some f =>
    refine Yields.any_seq fun v => ?_
    exact Yields.pure (.inl ⟨f, v.ty, rfl⟩)
  | none =>
    refine Yields.any_seq fun m => ?_
    exact (s.callBare_form m (some t) span).post (fun _ ⟨ty, hr⟩ => .inr ⟨m, ty, hr⟩)

theorem binary_form (s : Resolver) (d : Dialect) (op : BinaryOp) (l r : TypedExpr) (span : Span) :
    Yields (s.binary d op l r span) (fun t => ∃ m r' ty, r.Converts r' ∧ t = .binary m l r' ty span)
      fun _ => True := by
  unfold binary
  refine Yields.any_seq fun ms => ?_
  refine Yields.any_seq fun choice => ?_
  cases choice with
  | exact m =>
    refine Yields.any_seq fun g => ?_
    exact Yields.pure ⟨m, r, g.result, .inl rfl, rfl⟩
  | converted m ty =>
    refine (s.coerce_form d r ty).seq fun r' hr' => ?_
    refine Yields.any_seq fun g => ?_
    exact Yields.pure ⟨m, r', g.result, hr', rfl⟩
  | none => exact Yields.throw trivial

theorem unary_form (s : Resolver) (op : UnaryOp) (t : TypedExpr) (span : Span) :
    Yields (s.unary op t span) (fun r => ∃ m ty, r = .unary m t ty span) fun _ => True := by
  unfold unary
  refine Yields.any_seq fun ms => ?_
  refine Yields.any_seq fun found => ?_
  cases found with
  | some m =>
    refine Yields.any_seq fun g => ?_
    exact Yields.pure ⟨m, g.result, rfl⟩
  | none => exact Yields.throw trivial

/-! ## Expressions enter types only -/

/-- The program and the current method stay as they are. -/
def KeepsProgram (s s' : Resolver) : Prop := s'.program = s.program ∧ s'.current = s.current

theorem KeepsProgram.refl (s : Resolver) : s.KeepsProgram s := ⟨rfl, rfl⟩

theorem KeepsProgram.trans (h : s.KeepsProgram s') (h' : s'.KeepsProgram s'') :
    s.KeepsProgram s'' := ⟨h'.1.trans h.1, h'.2.trans h.2⟩

/-- **Names mean what the environment says**, as seen from the scope `j`. -/
structure Lexical (s : Resolver) (M : Members) (j : ScopeId) (Δ : List Locals) : Prop where
  name : ∀ n span, n ≠ "this" → Yields (s.name j n span)
    (fun t => ∃ q, M.target? Δ n = some q ∧ q.Node span t) fun _ => True
  method : ∀ n span, Yields (s.method j n span)
    (fun q => (M.method? n = some q.1 ∧ ∃ ty, q.2 = some (.this ty span)) ∨
      (M.method? n = none ∧ M.function? n = some q.1 ∧ q.2 = none)) fun _ => True

theorem Lexical.keep (h : s.Lexical M j Δ) (hk : s.KeepsProgram s') : s'.Lexical M j Δ := by
  obtain ⟨r, p, c⟩ := s
  obtain ⟨r', p', c'⟩ := s'
  obtain ⟨rfl, rfl⟩ := hk
  exact ⟨h.name, h.method⟩

end Resolver

open Resolver Resolve

variable {d : Dialect} {j : ScopeId} {M : Members} {Δ : List Locals}

theorem Resolve.intern_keeps (kind : TypeKind) (s : Resolver) :
    Gives (intern kind) s (fun _ s' => s.KeepsProgram s') := KeepsProgram.refl s

theorem TypeName.resolve_keeps (type : TypeName) (s : Resolver) :
    Gives (type.resolve d j) s (fun _ s' => s.KeepsProgram s') := by
  induction type with
  | named n span =>
    exact ask_leads (Yields.of_forall fun _ => KeepsProgram.refl s)
  | pointer target span ih | array element span ih =>
    refine ih.seq fun ty s₁ h₁ => ?_
    exact (intern_keeps _ s₁).post (fun _ _ h₂ => h₁.trans h₂)

/-! ## Parts of an expression -/

variable (d j) in
/-- **The expression becomes a tree whose names stand for what the environment says**, if that is what
they mean in the state. The program stays as it is in any case. -/
def Expr.Scoped (e : Expr) : Prop :=
  ∀ s : Resolver, Gives (e.resolve d j) s fun t s' =>
    s.KeepsProgram s' ∧ ∀ ⦃M Δ⦄, s.Lexical M j Δ → e.Lowers M Δ t

variable (d j) in
/-- The same of arguments, if there are as many as parameters. -/
def Expr.ScopedArgs (es : List Expr) : Prop :=
  ∀ (s : Resolver) (parameters : List TypeId), Gives (Expr.resolveArgs d j es parameters) s
    fun ts s' => s.KeepsProgram s' ∧
      ∀ ⦃M Δ⦄, s.Lexical M j Δ → parameters.length = es.length → Expr.LowersArgs M Δ es ts

namespace Expr

variable {e a b i : Expr} {args es : List Expr} {n : String} {type : TypeName} {op : UnaryOp}
  {sp : Span}

/-- An operand that is resolved first. -/
theorem Scoped.seq {s : Resolver} {α : Type} {k : TypedExpr → Resolve α}
    {Q : α → Resolver → Prop} (he : e.Scoped d j)
    (hk : ∀ t s', s.KeepsProgram s' → (∀ ⦃M Δ⦄, s.Lexical M j Δ → e.Lowers M Δ t) →
      Gives (k t) s' Q) :
    Gives (e.resolve d j >>= k) s Q :=
  (he s).seq fun t s' h => hk t s' h.1 h.2

/-! ## Node by node -/

theorem Scoped.number (v : Nat) : (Expr.number v sp).Scoped d j := by
  intro s
  rw [Expr.resolve]
  split
  · exact Leads.pure ⟨.refl s, fun _ _ _ => .number⟩
  · exact refuse_leads trivial

theorem Scoped.boolean (v : Bool) : (Expr.boolean v sp).Scoped d j := by
  intro s
  rw [Expr.resolve]
  exact Leads.pure ⟨.refl s, fun _ _ _ => .boolean⟩

/-- A bare name. The name `this` is the receiver wherever it is written. -/
theorem Scoped.symbol : (Expr.symbol n sp).Scoped d j := by
  intro s
  rw [Expr.resolve]
  by_cases hn : n = "this"
  · subst hn
    exact ask_leads (Yields.of_forall fun _ => ⟨.refl s, fun _ _ _ => .receiverName⟩)
  · refine ask_leads (Yields.known.post fun t ht => ⟨.refl s, fun M Δ h => ?_⟩)
    obtain ⟨q, hq, hnode⟩ := (h.name n sp hn).of_ok ht
    exact .name hn hq hnode

theorem Scoped.receiver : (Expr.this sp).Scoped d j := by
  intro s
  rw [Expr.resolve]
  refine ask_leads ((s.receiver_form sp).post ?_)
  rintro _ ⟨ty, rfl⟩
  exact ⟨.refl s, fun _ _ _ => .receiver⟩

/-- A call without a receiver: a method of the class goes before a function. -/
theorem Scoped.call (hargs : ScopedArgs d j args) : (Expr.call n args sp).Scoped d j := by
  intro s
  rw [Expr.resolve]
  refine ask_seq Yields.known ?_
  rintro ⟨m, o⟩ hcallee
  refine ask_seq (s.signature_form m args.length sp) ?_
  rintro ⟨tys, ty⟩ hlen
  refine (hargs s tys).seq ?_
  rintro ts s₁ ⟨h₁, hts⟩
  refine Leads.pure ⟨h₁, fun M Δ h => ?_⟩
  rcases (h.method n sp).of_ok hcallee with ⟨hm, own, rfl⟩ | ⟨hnone, hm, rfl⟩
  · exact .callMethod hm (hts h hlen)
  · exact .callFunction hnone hm (hts h hlen)

theorem Scoped.send (he : e.Scoped d j) (hargs : ScopedArgs d j args) :
    (Expr.send e n args sp).Scoped d j := by
  intro s
  rw [Expr.resolve]
  refine he.seq fun t s₁ h₁ ht => ?_
  refine ask_any fun m => ?_
  refine ask_seq (s₁.signature_form m args.length sp) ?_
  rintro ⟨tys, ty⟩ hlen
  refine (hargs s₁ tys).seq ?_
  rintro ts s₂ ⟨h₂, hts⟩
  exact Leads.pure ⟨h₁.trans h₂, fun _ _ h => .send (ht h) (hts (h.keep h₁) hlen)⟩

theorem Scoped.member (he : e.Scoped d j) : (Expr.member e n sp).Scoped d j := by
  intro s
  rw [Expr.resolve]
  refine he.seq fun t s₁ h₁ ht => ask_leads ((s₁.member_form t n sp).post ?_)
  rintro _ (⟨f, ty, rfl⟩ | ⟨m, ty, rfl⟩)
  · exact ⟨h₁, fun _ _ h => .memberField (ht h)⟩
  · exact ⟨h₁, fun _ _ h => .memberMethod (ht h)⟩

theorem Scoped.binary {op : BinaryOp} (ha : a.Scoped d j) (hb : b.Scoped d j) :
    (Expr.binary op a b sp).Scoped d j := by
  intro s
  rw [Expr.resolve]
  refine ha.seq fun l s₁ h₁ hl => hb.seq fun r s₂ h₂ hr => ?_
  refine ask_leads ((s₂.binary_form d op l r sp).post ?_)
  rintro _ ⟨m, r', ty, hr', rfl⟩
  exact ⟨h₁.trans h₂, fun _ _ h => .binary (hl h) (hr (h.keep h₁)) hr'⟩

theorem Scoped.negated (v : Nat) (sp' : Span) :
    (Expr.unary .negate (.number v sp') sp).Scoped d j := by
  intro s
  rw [Expr.resolve]
  split
  · exact Leads.pure ⟨.refl s, fun _ _ _ => .negative⟩
  · exact refuse_leads trivial

theorem Scoped.unary (he : e.Scoped d j) (hn : ¬ op.Folds e) :
    (Expr.unary op e sp).Scoped d j := by
  intro s
  rw [Expr.resolve_unary hn]
  refine he.seq fun t s₁ h₁ ht => ask_leads ((s₁.unary_form op t sp).post ?_)
  rintro _ ⟨m, ty, rfl⟩
  exact ⟨h₁, fun _ _ h => .unary (ht h)⟩

theorem Scoped.addressOf (he : e.Scoped d j) : (Expr.addressOf e sp).Scoped d j := by
  intro s
  rw [Expr.resolve]
  refine he.seq fun t s₁ h₁ ht => ?_
  split
  · refine (intern_keeps _ s₁).seq fun ty s₂ h₂ => ?_
    exact Leads.pure ⟨h₁.trans h₂, fun _ _ h => .addressOf (ht h)⟩
  · exact ask_leads (Yields.error trivial)

theorem Scoped.arrayNew (he : e.Scoped d j) : (Expr.arrayNew type e sp).Scoped d j := by
  intro s
  rw [Expr.resolve]
  refine (type.resolve_keeps s).seq fun element s₁ h₁ => he.seq fun t s₂ h₂ ht => ?_
  refine ask_seq (s₂.coerce_form d t _) fun t' ht' => ?_
  refine (intern_keeps _ s₂).seq fun ty s₃ h₃ => ?_
  exact Leads.pure ⟨(h₁.trans h₂).trans h₃, fun _ _ h => .arrayNew (ht (h.keep h₁)) ht'⟩

theorem Scoped.cast (he : e.Scoped d j) : (Expr.cast e type sp).Scoped d j := by
  intro s
  rw [Expr.resolve]
  refine he.seq fun t s₁ h₁ ht => (type.resolve_keeps s₁).seq fun ty s₂ h₂ => ?_
  exact Leads.pure ⟨h₁.trans h₂, fun _ _ h => .cast (ht h)⟩

theorem Scoped.index (ha : a.Scoped d j) (hi : i.Scoped d j) :
    (Expr.index a i sp).Scoped d j := by
  intro s
  rw [Expr.resolve]
  refine ha.seq fun l s₁ h₁ hl => ask_any fun element => hi.seq fun r s₂ h₂ hr => ?_
  refine ask_seq (s₂.coerce_form d r _) fun r' hr' => ?_
  exact Leads.pure ⟨h₁.trans h₂, fun _ _ h => .index (hl h) (hr (h.keep h₁)) hr'⟩

theorem ScopedArgs.nil : ScopedArgs d j [] := by
  intro s parameters
  rw [Expr.resolveArgs.eq_def]
  exact Leads.pure ⟨.refl s, fun _ _ _ _ => .nil⟩

theorem ScopedArgs.cons (he : e.Scoped d j) (hes : ScopedArgs d j es) :
    ScopedArgs d j (e :: es) := by
  intro s parameters
  cases parameters with
  | nil =>
    rw [Expr.resolveArgs.eq_def]
    exact Leads.pure ⟨.refl s, fun _ _ _ => nofun⟩
  | cons P parameters =>
    rw [Expr.resolveArgs]
    refine he.seq fun t s₁ h₁ ht => ?_
    refine ask_seq (s₁.coerce_form d t P) fun t' ht' => ?_
    refine (hes s₁ parameters).seq ?_
    rintro ts s₂ ⟨h₂, hts⟩
    exact Leads.pure ⟨h₁.trans h₂, fun _ _ h hlen =>
      .cons (ht h) ht' (hts (h.keep h₁) (Nat.succ.inj hlen))⟩

end Expr

/-! ## All expressions -/

mutual

/-- **Every expression** is read in the environment. -/
theorem Expr.scoped : (e : Expr) → e.Scoped d j
  | .number n _ => .number n
  | .boolean b _ => .boolean b
  | .symbol _ _ => .symbol
  | .this _ => .receiver
  | .call _ args _ => .call (Expr.scopedArgs args)
  | .send e _ args _ => .send (Expr.scoped e) (Expr.scopedArgs args)
  | .member e _ _ => .member (Expr.scoped e)
  | .binary _ a b _ => .binary (Expr.scoped a) (Expr.scoped b)
  | .unary op e _ => by
    by_cases hn : op.Folds e
    · match op, e, hn with
      | .negate, .number n sp', _ => exact .negated n sp'
    · exact .unary (Expr.scoped e) hn
  | .addressOf e _ => .addressOf (Expr.scoped e)
  | .arrayNew _ e _ => .arrayNew (Expr.scoped e)
  | .cast e _ _ => .cast (Expr.scoped e)
  | .index a i _ => .index (Expr.scoped a) (Expr.scoped i)

theorem Expr.scopedArgs : (es : List Expr) → ScopedArgs d j es
  | [] => .nil
  | e :: es => .cons (Expr.scoped e) (Expr.scopedArgs es)

end

/-- **What an expression is resolved to.** -/
theorem Expr.resolve_lowers (e : Expr) {s : Resolver} (h : s.Lexical M j Δ) :
    Gives (e.resolve d j) s (fun t s' => s.KeepsProgram s' ∧ e.Lowers M Δ t) :=
  (e.scoped s).post fun _ _ hr => ⟨hr.1, hr.2 h⟩

/-- **Resolving an expression enters types and does nothing else.** -/
theorem Expr.resolve_keeps (e : Expr) (s : Resolver) :
    Gives (e.resolve d j) s fun _ s' => s.KeepsProgram s' :=
  (e.scoped s).post fun _ _ hr => hr.1

end ClassLang
