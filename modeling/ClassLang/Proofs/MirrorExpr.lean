import ClassLang.Proofs.MirrorSteps

/-!
# Resolving an expression mirrors its elaboration

Inside a body, an expression is resolved to what its elaboration gives, once the numbers are taken
away; where one of them finds a fault, the other finds the same.

* `TypeName.resolve_mirrors`: the same of written types.
* `Expr.Mirrored`: what is to be shown of an expression; `Mirrored.seq` goes on behind an operand, and
  there is one lemma for each kind of node.
* `Expr.resolve_mirrors`: it holds of all expressions.
-/

namespace ClassLang

open Resolver Resolve

/-- **A written type** is resolved to what it means. -/
theorem TypeName.resolve_mirrors {u : CompilationUnit} {d : Dialect} {j : ScopeId} (t : TypeName)
    {s : Resolver} {sc : Scope} (hs : s.Sound) (hu : s.KnowsClasses u)
    (hj : s.program.scopeAt? j = some sc) :
    Mirrors (t.resolve d j) s (fun id s' T => (Frame s s' none none none ∧ s'.Sound ∧
      t.denoted? d u = some T) ∧ s'.registry.meaning? id = some T)
      (t.elaborate (u.interface d)) := by
  induction t with
  | named n span =>
    have hfind := hu.findType? hs hj d n .nowhere
    unfold TypeName.resolve TypeName.elaborate
    refine (ask_mirrors (R := fun id T => (Frame s s none none none ∧ s.Sound ∧
      (TypeName.named n span).denoted? d u = some T) ∧ s.registry.meaning? id = some T) ?_).imp ?_
    · unfold typeNamed
      cases hty : s.scopes.findType? d.catalog j n with
      | none =>
        rw [hty, Option.bind_none] at hfind
        rw [show (u.interface d).type? n = none from hfind.symm]
        exact .error
      | some ty =>
        obtain ⟨T, hT⟩ := hs.meaning?_isSome (hs.has_of_findType? hj hty)
        rw [hty, Option.bind_some, hT] at hfind
        rw [show (u.interface d).type? n = some T from hfind.symm]
        exact ⟨⟨.refl s none none none, hs, hfind.symm⟩, hT⟩
    · rintro _ _ _ ⟨rfl, h⟩
      exact h
  | pointer t _ ih =>
    refine ih.seq ?_
    rintro ty s₁ T ⟨⟨hf₁, hs₁, ht⟩, hT⟩
    refine Mirrors.of_leads ((intern_leads hs₁ rfl hT).post ?_)
    rintro id s₂ ⟨hf₂, hs₂, hk, hT₂⟩
    refine ⟨⟨hf₁.trans hf₂, hs₂, ?_⟩, Registry.meaning?_pointer hs₂.registry hk hT₂⟩
    rw [denoted?, ht]; rfl
  | array t _ ih =>
    refine ih.seq ?_
    rintro ty s₁ T ⟨⟨hf₁, hs₁, ht⟩, hT⟩
    refine Mirrors.of_leads ((intern_leads hs₁ rfl hT).post ?_)
    rintro id s₂ ⟨hf₂, hs₂, hk, hT₂⟩
    refine ⟨⟨hf₁.trans hf₂, hs₂, ?_⟩, Registry.meaning?_array hs₂.registry hk hT₂⟩
    rw [denoted?, ht]; rfl

variable {x : Context} {g : Method} {this : Option TypeId} {j : ScopeId} {B : Blocks} {Γ : Env}

/-- A target that may be missing keeps its reading. -/
theorem map_named?_mono {s s' : Resolver} (hp : s.Preserves s') {o : Option TypedExpr}
    {o' : Option NamedExpr} (h : o.map (fun e => e.named? s) = o'.map some) :
    o.map (fun e => e.named? s') = o'.map some := by
  cases o with
  | none => exact h
  | some e =>
    cases o' with
    | none => cases h
    | some e' => exact congrArg some (e.named?_mono hp (Option.some.inj h))

/-! ## Parts of an expression -/

/-- **The expression is resolved as it is elaborated**, wherever it stands in the body. -/
def Expr.Mirrored (x : Context) (g : Method) (this : Option TypeId) (j : ScopeId) (B : Blocks)
    (Γ : Env) (e : Expr) : Prop :=
  ∀ ⦃s : Resolver⦄, s.Stage x g this j B Γ → Mirrors (e.resolve x.dialect j) s
    (fun t s' N => s.Resolved s' x this B e t ∧ t.named? s' = some N) (e.elaborate x.body Γ)

/-- **Arguments are resolved as they are elaborated**, for parameters of the types `ps`. -/
def Expr.MirroredArgs (x : Context) (g : Method) (this : Option TypeId) (j : ScopeId) (B : Blocks)
    (Γ : Env) (es : List Expr) : Prop :=
  ∀ ⦃s : Resolver⦄ ⦃tys : List TypeId⦄ ⦃ps : List Ty⦄, s.Stage x g this j B Γ →
    tys.map s.registry.meaning? = ps.map some → ps.length = es.length →
    Mirrors (Expr.resolveArgs x.dialect j es tys) s (fun ts s' Ns =>
      s.ResolvedArgs s' x this B es ps ts tys ∧ TypedExpr.namedAll? s' ts = some Ns)
      (Expr.elaborateArgs x.body Γ es ps)

namespace Expr

section Parts

variable {s : Resolver} {e : Expr} {args : List Expr} {α β : Type}
  {R : α → Resolver → β → Prop}

/-- What the result is like is known from its typing, so only its names are left to compare. -/
theorem Mirrored.of_named (h : ∀ ⦃s : Resolver⦄, s.Stage x g this j B Γ →
    Mirrors (e.resolve x.dialect j) s (fun t s' N => t.named? s' = some N)
      (e.elaborate x.body Γ)) : e.Mirrored x g this j B Γ :=
  fun _ hs => (h hs).and (e.resolve_leads hs.setting)

/-- An operand that is resolved first. -/
theorem Mirrored.seq (he : e.Mirrored x g this j B Γ) {k : TypedExpr → Resolve α}
    {l : NamedExpr → Except Diagnostic β} (h : s.Stage x g this j B Γ)
    (hk : ∀ t s' N, s.Resolved s' x this B e t → t.named? s' = some N →
      s'.Stage x g this j B Γ → Mirrors (k t) s' R (l N)) :
    Mirrors (e.resolve x.dialect j >>= k) s R (e.elaborate x.body Γ >>= l) := by
  refine (he h).seq ?_
  rintro t s' N ⟨ht, hN⟩
  exact hk t s' N ht hN (h.frame ht.frame ht.sound)

/-- A question about the state whose answer is the whole result. -/
theorem ask_named {f : Resolver → Except Diagnostic TypedExpr} {b : Except Diagnostic NamedExpr}
    (h : Agrees (fun t N => t.named? s = some N) (f s) b) :
    Mirrors (ask f) s (fun t s' N => t.named? s' = some N) b := by
  refine (ask_mirrors h).imp ?_
  rintro t _ N ⟨rfl, hN⟩
  exact hN

/-- A literal is an integer of the standard type if it is not too great. -/
theorem literal_named (hs : s.Sound) (fits : Prop) [Decidable fits] (v : Int) (sp : Span)
    (f : Diagnostic) :
    Mirrors (if fits then pure (.int v Native.integer.id sp) else throw f : Resolve TypedExpr) s
      (fun t s' N => t.named? s' = some N)
      (if fits then .ok (.int v (.native .integer) sp) else .error f) := by
  by_cases hfits : fits
  · rw [if_pos hfits, if_pos hfits]
    refine Mirrors.pure ?_
    rw [TypedExpr.named?, Registry.meaning?_native hs.registry]
    rfl
  · rw [if_neg hfits, if_neg hfits]
    exact Mirrors.throw

end Parts

/-! ## Node by node -/

variable {e a b i : Expr} {args es : List Expr} {n : String} {type : TypeName} {op : UnaryOp}
  {sp : Span}

theorem Mirrored.number (v : Nat) : (Expr.number v sp).Mirrored x g this j B Γ := by
  refine .of_named fun s h => ?_
  rw [Expr.resolve, Expr.elaborate]
  exact literal_named h.setting.sound ..

theorem Mirrored.boolean (v : Bool) : (Expr.boolean v sp).Mirrored x g this j B Γ := by
  refine .of_named fun s h => ?_
  rw [Expr.resolve, Expr.elaborate]
  refine Mirrors.pure ?_
  rw [TypedExpr.named?, Registry.meaning?_native h.setting.sound.registry]
  rfl

theorem Mirrored.symbol : (Expr.symbol n sp).Mirrored x g this j B Γ := by
  refine .of_named fun s h => ?_
  rw [Expr.resolve, Expr.elaborate]
  exact ask_named (name_agrees h)

theorem Mirrored.receiver : (Expr.this sp).Mirrored x g this j B Γ := by
  refine .of_named fun s h => ?_
  rw [Expr.resolve, Expr.elaborate]
  exact ask_named (receiver_agrees h.setting)

/-- A call without a written receiver: the receiver, if there is one, is `this`. -/
theorem Mirrored.call (hargs : MirroredArgs x g this j B Γ args) :
    (Expr.call n args sp).Mirrored x g this j B Γ := by
  refine .of_named fun s h => ?_
  have hs := h.setting.sound
  rw [Expr.resolve, Expr.elaborate]
  refine ask_mirrors_seq (method_agrees h) ?_
  rintro ⟨m, target⟩ ⟨k, target'⟩ ⟨hk, htarget⟩
  refine ask_mirrors_seq (signature_agrees hs hk args.length) ?_
  rintro ⟨tys, ty⟩ _ ⟨hps, hres, hlen⟩
  refine (hargs h hps hlen).seq ?_
  rintro ts s₁ Ns ⟨hts, hNs⟩
  have hp := hts.frame.extends_of_none.preserves hs hts.sound
  exact Mirrors.pure (TypedExpr.named?_ofCall (map_named?_mono hp htarget)
    (hp.methods (methodName?_of_callee? hk)) hNs (hp.types hres))

/-- A call with a receiver: the first method of its type with the name is called. -/
theorem Mirrored.send (he : e.Mirrored x g this j B Γ)
    (hargs : MirroredArgs x g this j B Γ args) :
    (Expr.send e n args sp).Mirrored x g this j B Γ := by
  refine .of_named fun s h => ?_
  rw [Expr.resolve, Expr.elaborate]
  refine he.seq h fun target s₁ N ht hN h₁ => ?_
  refine ask_mirrors_seq (firstCandidate_agrees h₁.setting hN) fun m k hk => ?_
  refine ask_mirrors_seq (signature_agrees ht.sound hk args.length) ?_
  rintro ⟨tys, ty⟩ _ ⟨hps, hres, hlen⟩
  refine (hargs h₁ hps hlen).seq ?_
  rintro ts s₂ Ns ⟨hts, hNs⟩
  have hp := hts.frame.extends_of_none.preserves ht.sound hts.sound
  have htarget : (some target).map (fun e => e.named? s₂) = (some N).map some :=
    congrArg some (target.named?_mono hp hN)
  exact Mirrors.pure (TypedExpr.named?_ofCall htarget (hp.methods (methodName?_of_callee? hk)) hNs
    (hp.types hres))

theorem Mirrored.member (he : e.Mirrored x g this j B Γ) :
    (Expr.member e n sp).Mirrored x g this j B Γ := by
  refine .of_named fun s h => ?_
  rw [Expr.resolve, Expr.elaborate]
  exact he.seq h fun target s₁ N ht hN h₁ => ask_named (member_agrees h₁ hN)

theorem Mirrored.binary {op : BinaryOp} (ha : a.Mirrored x g this j B Γ)
    (hb : b.Mirrored x g this j B Γ) : (Expr.binary op a b sp).Mirrored x g this j B Γ := by
  refine .of_named fun s h => ?_
  rw [Expr.resolve, Expr.elaborate]
  refine ha.seq h fun l s₁ L hl hL h₁ => ?_
  refine hb.seq h₁ fun r s₂ R hr hR h₂ => ?_
  have hp := hr.frame.extends_of_none.preserves hl.sound hr.sound
  exact ask_named (binary_agrees h₂.setting op (l.named?_mono hp hL) hR)

/-- A minus sign in front of a number makes one literal of the two. -/
theorem Mirrored.negated (v : Nat) (sp' : Span) :
    (Expr.unary .negate (.number v sp') sp).Mirrored x g this j B Γ := by
  refine .of_named fun s h => ?_
  rw [Expr.resolve, Expr.elaborate]
  exact literal_named h.setting.sound ..

theorem Mirrored.unary (he : e.Mirrored x g this j B Γ) (hn : ¬ op.Folds e) :
    (Expr.unary op e sp).Mirrored x g this j B Γ := by
  refine .of_named fun s h => ?_
  rw [Expr.resolve_unary hn, Expr.elaborate_unary hn]
  exact he.seq h fun t s₁ N ht hN h₁ => ask_named (unary_agrees h₁.setting op hN)

/-- The address of a place. What is no place is refused, by the name of its type. -/
theorem Mirrored.addressOf (he : e.Mirrored x g this j B Γ) :
    (Expr.addressOf e sp).Mirrored x g this j B Γ := by
  refine .of_named fun s h => ?_
  rw [Expr.resolve, Expr.elaborate]
  refine he.seq h fun t s₁ N ht hN h₁ => ?_
  obtain ⟨hT, hspan, hplace, -⟩ := TypedExpr.named?_facts hN
  rw [hplace]
  by_cases hp : t.isPlace = true
  · rw [if_pos hp, if_pos hp]
    refine Mirrors.leads_seq (intern_leads ht.sound rfl hT) ?_
    rintro id s₂ ⟨hf, hs₂, hk, hT₂⟩
    have hpres := hf.extends_of_none.preserves ht.sound hs₂
    refine Mirrors.pure ?_
    rw [TypedExpr.named?, t.named?_mono hpres hN, Registry.meaning?_pointer hs₂.registry hk hT₂]
    rfl
  · rw [if_neg hp, if_neg hp, NamedExpr.notAPlace, hspan]
    have herror : Agrees (fun t N => TypedExpr.named? s₁ t = some N) (.error (s₁.notAPlace t))
        (.error ⟨.notAnLvalue N.ty.text, t.span⟩) := by
      rw [notAPlace, typeName_eq hT]
      exact .error
    exact ask_named herror

theorem Mirrored.arrayNew (he : e.Mirrored x g this j B Γ) :
    (Expr.arrayNew type e sp).Mirrored x g this j B Γ := by
  refine .of_named fun s h => ?_
  rw [Expr.resolve, Expr.elaborate]
  obtain ⟨sc, hsc⟩ := h.setting.scope
  refine (type.resolve_mirrors h.setting.sound h.setting.represents.types hsc).seq ?_
  rintro element s₁ A ⟨⟨hf₁, hs₁, -⟩, hA⟩
  refine he.seq (h.frame hf₁ hs₁) fun size s₂ N ht hN h₂ => ?_
  refine ask_mirrors_seq (coerce_agrees ht.sound hN
    (Registry.meaning?_native ht.sound.registry .integer) x.dialect) fun size' N' hN' => ?_
  -- the element type was entered before the length was resolved, and it is still there
  have hA₂ := ht.frame.toGrows.meaning? hs₁.registry ht.sound.registry hA
  refine Mirrors.leads_seq (intern_leads ht.sound rfl hA₂) ?_
  rintro id s₃ ⟨hf₃, hs₃, hk, hA₃⟩
  have hp := hf₃.extends_of_none.preserves ht.sound hs₃
  refine Mirrors.pure ?_
  rw [TypedExpr.named?, hA₃, size'.named?_mono hp hN', Registry.meaning?_array hs₃.registry hk hA₃]
  rfl

theorem Mirrored.cast (he : e.Mirrored x g this j B Γ) :
    (Expr.cast e type sp).Mirrored x g this j B Γ := by
  refine .of_named fun s h => ?_
  rw [Expr.resolve, Expr.elaborate]
  refine he.seq h fun t s₁ N ht hN h₁ => ?_
  obtain ⟨sc, hsc⟩ := h₁.setting.scope
  refine (type.resolve_mirrors ht.sound h₁.setting.represents.types hsc).seq ?_
  rintro id s₂ A ⟨⟨hf, hs₂, -⟩, hA⟩
  have hp := hf.extends_of_none.preserves ht.sound hs₂
  exact Mirrors.pure (TypedExpr.named?_cast (t.named?_mono hp hN) hA false)

theorem Mirrored.index (ha : a.Mirrored x g this j B Γ) (hi : i.Mirrored x g this j B Γ) :
    (Expr.index a i sp).Mirrored x g this j B Γ := by
  refine .of_named fun s h => ?_
  rw [Expr.resolve, Expr.elaborate]
  refine ha.seq h fun array s₁ N ht hN h₁ => ?_
  refine ask_mirrors_seq (element_agrees ht.sound hN) fun element A hA => ?_
  refine hi.seq h₁ fun position s₂ M hpos hM h₂ => ?_
  refine ask_mirrors_seq (coerce_agrees hpos.sound hM
    (Registry.meaning?_native hpos.sound.registry .integer) x.dialect) fun position' M' hM' => ?_
  have hp := hpos.frame.extends_of_none.preserves ht.sound hpos.sound
  refine Mirrors.pure ?_
  rw [TypedExpr.named?, array.named?_mono hp hN, hM', hp.types hA]
  rfl

theorem MirroredArgs.nil : MirroredArgs x g this j B Γ [] := by
  intro s tys ps h hps hlen
  refine Mirrors.and ?_ (Expr.resolveArgs_leads [] h.setting hps hlen)
  cases List.length_eq_zero_iff.1 hlen
  cases List.map_eq_nil_iff.1 hps
  rw [Expr.resolveArgs, Expr.elaborateArgs]
  · exact Mirrors.pure rfl
  · rintro _ _ _ _ ⟨⟩
  · rintro _ _ _ _ ⟨⟩

/-- An argument is converted to the type of its parameter before the next one is resolved. -/
theorem MirroredArgs.cons (he : e.Mirrored x g this j B Γ) (hes : MirroredArgs x g this j B Γ es) :
    MirroredArgs x g this j B Γ (e :: es) := by
  intro s tys ps h hps hlen
  refine Mirrors.and ?_ (Expr.resolveArgs_leads (e :: es) h.setting hps hlen)
  obtain ⟨P, ps, rfl⟩ := List.exists_cons_of_length_eq_add_one hlen
  obtain ⟨ty, tys, rfl, hty, htys⟩ := List.map_eq_cons_iff.1 hps
  rw [Expr.resolveArgs, Expr.elaborateArgs]
  refine he.seq h fun t s₁ N ht hN h₁ => ?_
  have hg₁ := ht.frame.toGrows
  have hs := h.setting.sound
  refine ask_mirrors_seq (coerce_agrees ht.sound hN
    (hg₁.meaning? hs.registry ht.sound.registry hty) x.dialect) fun t' N' hN' => ?_
  refine (hes h₁ (hg₁.map_meaning? hs ht.sound htys) (Nat.succ.inj hlen)).seq ?_
  rintro ts s₂ Ns ⟨hts, hNs⟩
  have hp := hts.frame.extends_of_none.preserves ht.sound hts.sound
  refine Mirrors.pure ?_
  rw [TypedExpr.namedAll?, t'.named?_mono hp hN', hNs]
  rfl

end Expr

/-! ## All expressions -/

mutual

/-- **Every expression** resolves as it elaborates. -/
theorem Expr.mirrored : (e : Expr) → e.Mirrored x g this j B Γ
  | .number n _ => .number n
  | .boolean b _ => .boolean b
  | .symbol _ _ => .symbol
  | .this _ => .receiver
  | .call _ args _ => .call (Expr.mirroredArgs args)
  | .send e _ args _ => .send (Expr.mirrored e) (Expr.mirroredArgs args)
  | .member e _ _ => .member (Expr.mirrored e)
  | .binary _ a b _ => .binary (Expr.mirrored a) (Expr.mirrored b)
  | .unary op e sp => by
    by_cases hn : op.Folds e
    · match op, e, hn with
      | .negate, .number n sp', _ => exact .negated n sp'
    · exact .unary (Expr.mirrored e) hn
  | .addressOf e _ => .addressOf (Expr.mirrored e)
  | .arrayNew _ e _ => .arrayNew (Expr.mirrored e)
  | .cast e _ _ => .cast (Expr.mirrored e)
  | .index a i _ => .index (Expr.mirrored a) (Expr.mirrored i)

theorem Expr.mirroredArgs : (es : List Expr) → MirroredArgs x g this j B Γ es
  | [] => .nil
  | e :: es => .cons (Expr.mirrored e) (Expr.mirroredArgs es)

end

/-- **An expression is resolved as it is elaborated.** -/
theorem Expr.resolve_mirrors (e : Expr) {s : Resolver} (h : s.Stage x g this j B Γ) :
    Mirrors (e.resolve x.dialect j) s
      (fun t s' N => s.Resolved s' x this B e t ∧ t.named? s' = some N) (e.elaborate x.body Γ) :=
  e.mirrored h

end ClassLang
