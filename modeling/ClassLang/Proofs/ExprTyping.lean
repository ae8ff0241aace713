import ClassLang.Proofs.Answers

/-!
# Resolving expressions decides their types

Inside a body, an expression is resolved if and only if the type rules give it a type. What it becomes
is well typed, and its type and form are those of the rules. Only types are entered on the way.

* `Expr.Decided`, `Expr.DecidedArgs`: what this says of one expression, and of the arguments of a call.
* `Expr.Decided.seq`, `TypeName.resolve_seq`, `Expr.Decided.coerce_seq`, `Expr.DecidedArgs.seq`: a part
  that is resolved first, which is an expression, a written type, an expression that is converted, or
  the arguments for a method.
* `Expr.Decided.call`, `Expr.Decided.index` and the like: **one step for each form**, from its parts.
* `Expr.resolve_leads`, `Expr.resolveArgs_leads`: so it holds of all expressions.
-/

namespace ClassLang

namespace Resolver

variable {s s' : Resolver} {x : Context} {g : Method} {this : Option TypeId} {j : ScopeId}
  {Γ : Blocks} {e : Expr} {t : TypedExpr}

theorem Grows.receiverType? (hg : s.Grows s') (hok : MethodOk s g)
    (h : s.program.receiverType? g = this) : s'.program.receiverType? g = this := by
  rw [← h]
  unfold Program.receiverType?
  cases hr : g.receiver with
  | none => rfl
  | some v =>
    obtain ⟨-, -, y, -, -, hy, -⟩ := hok.receiver v hr
    rw [Option.bind_some, Option.bind_some, hy, hg.vars v y hy]

/-- What surrounds a place stays when types are entered. -/
theorem Setting.frame (h : s.Setting x g this j Γ) (hf : Frame s s' none none none)
    (hs' : s'.Sound) : s'.Setting x g this j Γ := by
  obtain ⟨m, -, hg⟩ := h.within.current
  have hx := hf.extends_of_none
  exact
    { sound := hs'
      represents := h.represents.mono hx h.sound hs'
      within := h.within.mono hx h.sound hs' hf.current fun _ _ hm => hf.keepsMethod hm
      receiver := hf.toGrows.receiverType? (h.sound.methods m g hg) h.receiver
      reads := h.reads.mono hf.toGrows h.sound hs' fun _ _ _ hsc => hf.keepsScope hsc
      receivers := h.receivers }

theorem Setting.scope (h : s.Setting x g this j Γ) : ∃ sc, s.program.scopeAt? j = some sc := by
  cases h.reads with
  | block hsc _ _ _ _ => exact ⟨_, hsc⟩
  | home hh =>
    cases ho : g.owner with
    | none => rw [ho] at hh; rw [hh]; exact h.sound.global
    | some c =>
      rw [ho] at hh
      obtain ⟨i, hi, rfl⟩ := hh
      obtain ⟨sc, hsc, -⟩ := h.sound.class_scope hi
      exact ⟨sc, hsc⟩

theorem Answers.mono (hx : s.Extends s') (hs : s.Sound) (hs' : s'.Sound)
    (h : s.Answers x this Γ e t) : s'.Answers x this Γ e t := by
  obtain ⟨T, hT, he⟩ := h.hasType
  exact ⟨h.typed.mono hx, T, hx.grows.meaning? hs.registry hs'.registry hT, he⟩

theorem Callable.mono {c : Conversions} {m : MethodId} {target : Option TypedExpr}
    (hx : s.Extends s') (h : s.Callable c this m g target) : s'.Callable c this m g target := by
  cases target with
  | none => exact h
  | some e => exact ⟨h.1.mono hx, hx.lists h.2⟩

theorem Grows.map_meaning? (hg : s.Grows s') (hs : s.Sound) (hs' : s'.Sound) {tys : List TypeId}
    {ps : List Ty} (h : tys.map s.registry.meaning? = ps.map some) :
    tys.map s'.registry.meaning? = ps.map some := by
  rw [← h]
  refine List.map_congr_left fun ty hty => ?_
  have hmem : s.registry.meaning? ty ∈ ps.map some := h ▸ List.mem_map_of_mem hty
  obtain ⟨T, -, hT⟩ := List.mem_map.1 hmem
  rw [← hT]
  exact hg.meaning? hs.registry hs'.registry hT.symm

/-- The expression `e` has been resolved to `t`, and only types have been entered. -/
structure Resolved (s s' : Resolver) (x : Context) (this : Option TypeId) (Γ : Blocks) (e : Expr)
    (t : TypedExpr) : Prop extends Answers s' x this Γ e t where
  frame : Frame s s' none none none
  sound : s'.Sound

/-- The arguments `es` have been resolved to `ts`, which have the types `tys`. -/
structure ResolvedArgs (s s' : Resolver) (x : Context) (this : Option TypeId) (Γ : Blocks)
    (es : List Expr) (ps : List Ty) (ts : List TypedExpr) (tys : List TypeId) : Prop where
  typed : ∀ a ∈ ts, a.WellTyped x.dialect.conversions s'.registry s'.program this
  types : ts.map TypedExpr.ty = tys
  hasTypes : HasTypes x Γ es ps
  frame : Frame s s' none none none
  sound : s'.Sound

theorem Answers.resolved (h : s.Answers x this Γ e t) (hs : s.Sound) :
    s.Resolved s x this Γ e t :=
  { h with frame := .refl s none none none, sound := hs }

end Resolver

open Resolver Resolve

/-- **Resolving decides whether an expression has a type**: it becomes an expression of that type, or it
is refused and has none. -/
def Expr.Decided (x : Context) (g : Method) (this : Option TypeId) (j : ScopeId) (Γ : Blocks)
    (e : Expr) : Prop :=
  ∀ ⦃s : Resolver⦄, s.Setting x g this j Γ →
    Leads (e.resolve x.dialect j) s (fun t s' => s.Resolved s' x this Γ e t)
      (Refused (Expr.Typable x Γ e))

/-- **Resolving decides whether arguments fit** parameters of the types `ps`, as many as they are. -/
def Expr.DecidedArgs (x : Context) (g : Method) (this : Option TypeId) (j : ScopeId) (Γ : Blocks)
    (es : List Expr) : Prop :=
  ∀ ⦃s : Resolver⦄ ⦃tys : List TypeId⦄ ⦃ps : List Ty⦄, s.Setting x g this j Γ →
    tys.map s.registry.meaning? = ps.map some → ps.length = es.length →
    Leads (Expr.resolveArgs x.dialect j es tys) s
      (fun ts s' => s.ResolvedArgs s' x this Γ es ps ts tys) (Refused (HasTypes x Γ es ps))

variable {x : Context} {g : Method} {this : Option TypeId} {j : ScopeId} {Γ : Blocks}

/-! ## Parts that are resolved first -/

section Parts

variable {s : Resolver} {e : Expr} {args : List Expr} {P : Prop} {β : Type}
  {R : β → Resolver → Prop}

theorem Expr.Decided.seq (he : e.Decided x g this j Γ) {k : TypedExpr → Resolve β}
    (h : s.Setting x g this j Γ) (hP : P → Expr.Typable x Γ e)
    (hk : ∀ t s', s.Resolved s' x this Γ e t → s'.Setting x g this j Γ →
      Leads (k t) s' R (Refused P)) :
    Leads (e.resolve x.dialect j >>= k) s R (Refused P) := by
  refine Leads.seq_imp (he h) (fun _ hf => hf.imp hP) ?_
  intro t s' ht
  exact hk t s' ht (h.frame ht.frame ht.sound)

/-- A written type that is resolved first has to denote a type. -/
theorem TypeName.resolve_seq (type : TypeName) {k : TypeId → Resolve β}
    (h : s.Setting x g this j Γ) (hP : P → (type.denoted? x.dialect x.unit).isSome)
    (hk : ∀ ty T s', type.denoted? x.dialect x.unit = some T → s'.registry.meaning? ty = some T →
      Frame s s' none none none → s'.Setting x g this j Γ → Leads (k ty) s' R (Refused P)) :
    Leads (type.resolve x.dialect j >>= k) s R (Refused P) := by
  obtain ⟨sc, hsc⟩ := h.scope
  refine (type.resolve_leads h.sound h.represents.types hsc).seq_imp (fun _ hf => hf.imp hP) ?_
  rintro ty s' ⟨hf, hs', T, hT, htype⟩
  exact hk ty T s' htype hT hf (h.frame hf hs')

/-- A part that is converted to a type has to fit it. -/
theorem Expr.Decided.coerce_seq (he : e.Decided x g this j Γ) {k : TypedExpr → Resolve β}
    {ty : TypeId} {T : Ty} (h : s.Setting x g this j Γ) (hT : s.registry.meaning? ty = some T)
    (hP : P → ∃ f A, HasType x Γ e f A ∧ Fits x.dialect.conversions f A T)
    (hk : ∀ f A t s', HasType x Γ e f A → Fits x.dialect.conversions f A T →
      t.WellTyped x.dialect.conversions s'.registry s'.program this → t.ty = ty →
      Frame s s' none none none → s'.Setting x g this j Γ → Leads (k t) s' R (Refused P)) :
    Leads (e.resolve x.dialect j >>= fun t => ask (fun s => s.coerce x.dialect t ty) >>= k) s R
      (Refused P) := by
  refine he.seq h (fun hp => ?_) fun t s₁ ht h₁ => ?_
  · obtain ⟨f, A, hA, -⟩ := hP hp
    exact ⟨f, A, hA⟩
  obtain ⟨A, hA, hAe⟩ := ht.hasType
  have hT₁ := ht.frame.toGrows.meaning? h.sound.registry ht.sound.registry hT
  refine ask_seq_imp (coerce_yields ht.sound ht.typed hA hT₁) (fun _ hf => hf.imp fun hp => ?_) ?_
  · obtain ⟨f, A', hA', hfit⟩ := hP hp
    obtain ⟨rfl, rfl⟩ := hAe.unique hA'
    exact hfit
  rintro t' ⟨ht', hty, hfit⟩
  exact hk t.form A t' s₁ hAe hfit ht' hty ht.frame h₁

/-- Arguments are resolved after the signature of the method that they are given to. -/
theorem Expr.DecidedArgs.seq (hargs : DecidedArgs x g this j Γ args)
    {k : List TypedExpr → TypeId → TypedExpr} {R : TypedExpr → Resolver → Prop} {m : MethodId}
    {g' : Method} {sig : Signature} {sp : Span} (h : s.Setting x g this j Γ)
    (hg' : s.program.methodAt? m = some g') (hsig : s.signatureOf? m = some sig)
    (hP : P → HasTypes x Γ args sig.parameters)
    (hk : ∀ ts s', s.ResolvedArgs s' x this Γ args sig.parameters ts (ts.map TypedExpr.ty) →
      s'.program.methodAt? m = some g' →
      s'.program.typesOf? g'.arguments = some (ts.map TypedExpr.ty) →
      s'.registry.meaning? g'.result = some sig.result → R (k ts g'.result) s') :
    Leads (ask (fun s => s.signature m args.length sp) >>= fun r =>
      Expr.resolveArgs x.dialect j args r.1 >>= fun ts => pure (k ts r.2)) s R (Refused P) := by
  refine ask_seq_imp (signature_yields h.sound hg' hsig)
    (fun _ hf => hf.imp fun hp => (hP hp).length_eq) ?_
  rintro ⟨tys, _⟩ ⟨htys, hps, rfl, hres, hlen⟩
  refine Leads.seq_imp (hargs h hps hlen) (fun _ hf => hf.imp hP) ?_
  intro ts s₁ hts
  have hx := hts.frame.extends_of_none
  obtain rfl := hts.types
  exact Leads.pure (hk ts s₁ hts (hts.frame.keepsMethod hg') (hx.typesOf? htys)
    (hx.grows.meaning? h.sound.registry hts.sound.registry hres))

end Parts

/-! ## One step for each form -/

namespace Expr.Decided

variable {e a b : Expr} {args : List Expr} {type : TypeName} {n : String} {sp : Span}

theorem number (n : Nat) : (Expr.number n sp).Decided x g this j Γ := by
  intro s h
  have hg : greatestInteger = 2 ^ 63 - 1 := rfl
  rw [Expr.resolve]
  split
  · have hn : n < 2 ^ 63 := by omega
    have ht : s.Answers x this Γ (.number n sp) (.int n Native.integer.id sp) :=
      ⟨.int (by omega) (by omega), _, Registry.meaning?_native h.sound.registry _, .number hn⟩
    exact Leads.pure (ht.resolved h.sound)
  · refine refuse_leads ⟨rfl, ?_⟩
    rintro ⟨f, T, ht⟩
    cases ht with
    | number hn => omega

theorem boolean (b : Bool) : (Expr.boolean b sp).Decided x g this j Γ := by
  intro s h
  rw [Expr.resolve]
  have ht : s.Answers x this Γ (.boolean b sp) (.bool b Native.boolean.id sp) :=
    ⟨.bool, _, Registry.meaning?_native h.sound.registry _, .boolean⟩
  exact Leads.pure (ht.resolved h.sound)

theorem symbol : (Expr.symbol n sp).Decided x g this j Γ := by
  intro s h
  rw [Expr.resolve]
  exact ask_leads ((name_yields h).post (fun t ht => ht.resolved h.sound))

theorem receiver : (Expr.this sp).Decided x g this j Γ := by
  intro s h
  rw [Expr.resolve]
  refine ask_leads ((receiver_yields h).imp ?_ fun _ hf => hf.imp ?_)
  · rintro t ⟨ht, hform, c, i, decl, -, hi, hx, hname, hty⟩
    refine Answers.resolved ⟨ht, .ofClass i.name, ?_, ?_⟩ h.sound
    · rw [hty]; exact h.sound.meaning?_class hi
    · rw [hform, ← hname]; exact .this hx
  · rintro ⟨f, T, ht⟩
    cases ht with
    | this hx => rw [hx]; rfl

/-- A call by name finds its method before its arguments are fitted. -/
theorem call (hargs : DecidedArgs x g this j Γ args) :
    (Expr.call n args sp).Decided x g this j Γ := by
  intro s h
  rw [Expr.resolve]
  have typable : Expr.Typable x Γ (.call n args sp) →
      ∃ ps R, x.method? n = some ⟨ps, R⟩ ∧ HasTypes x Γ args ps := by
    rintro ⟨f, T, ht⟩
    cases ht with
    | call hm hargs => exact ⟨_, _, hm, hargs⟩
  refine ask_seq_imp (method_yields h) (fun _ hf => hf.imp fun ht => ?_) ?_
  · obtain ⟨ps, R, hm, -⟩ := typable ht
    rw [hm]; rfl
  rintro ⟨m, target⟩ ⟨g', sig, hg', hc, hsig, hmethod⟩
  refine hargs.seq (k := fun ts result => .ofCall target m ts result sp) h hg' hsig
    (fun ht => ?_) fun ts s₁ hts hg₁ htys hres => ?_
  · -- what is known of the method is all that the rule says of it
    obtain ⟨ps, R, hm, hfit⟩ := typable ht
    rw [hmethod] at hm
    cases hm
    exact hfit
  · have hc₁ := hc.mono hts.frame.extends_of_none
    refine { typed := hc₁.wellTyped hg₁ hts.typed htys, hasType := ⟨sig.result, ?_, ?_⟩
             frame := hts.frame, sound := hts.sound }
    · rw [TypedExpr.ty_ofCall]
      exact hres
    · rw [TypedExpr.form_ofCall]
      exact .call hmethod hts.hasTypes

/-- A call behind a target looks in the type of the target. -/
theorem send (he : e.Decided x g this j Γ) (hargs : DecidedArgs x g this j Γ args) :
    (Expr.send e n args sp).Decided x g this j Γ := by
  intro s h
  rw [Expr.resolve]
  refine he.seq h ?_ fun target s₁ ht h₁ => ?_
  · rintro ⟨f, T, ht⟩
    cases ht with
    | send he _ _ => exact ⟨_, _, he⟩
  obtain ⟨T, hT, hTe⟩ := ht.hasType
  have typable : Expr.Typable x Γ (.send e n args sp) →
      ∃ ps R, T.method? x.dialect x.unit n = some ⟨ps, R⟩ ∧ HasTypes x Γ args ps := by
    rintro ⟨f, T', ht'⟩
    cases ht' with
    | send he' hm hargs =>
      obtain ⟨-, rfl⟩ := hTe.unique he'
      exact ⟨_, _, hm, hargs⟩
  refine ask_seq_imp (firstCandidate_yields h₁ hT) (fun _ hf => hf.imp fun ht => ?_) ?_
  · obtain ⟨ps, R, hm, -⟩ := typable ht
    rw [hm]; rfl
  rintro m ⟨g', sig, hg', hl, hsig, hmethod⟩
  refine hargs.seq (k := fun ts result => .send target m ts result sp) h₁ hg' hsig
    (fun ht => ?_) fun ts s₂ hts hg₂ htys hres => ?_
  · obtain ⟨ps, R, hm, hfit⟩ := typable ht
    rw [hmethod] at hm
    cases hm
    exact hfit
  · have hx := hts.frame.extends_of_none
    exact
      { typed := .send (ht.typed.mono hx) hg₂ (hx.lists hl) hts.typed htys
        hasType := ⟨sig.result, hres, .send hTe hmethod hts.hasTypes⟩
        frame := ht.frame.trans hts.frame
        sound := hts.sound }

theorem member (he : e.Decided x g this j Γ) : (Expr.member e n sp).Decided x g this j Γ := by
  intro s h
  rw [Expr.resolve]
  refine he.seq h ?_ fun target s₁ ht h₁ => ?_
  · rintro ⟨f, T, ht⟩
    cases ht with
    | member he _ => exact ⟨_, _, he⟩
    | memberCall he _ _ => exact ⟨_, _, he⟩
  refine ask_leads ((member_yields h₁ ht.toAnswers).post (fun t ht' => ?_))
  exact { ht' with frame := ht.frame, sound := ht.sound }

/-- Both operands are resolved before the operator is chosen. -/
theorem binary {op : BinaryOp} (ha : a.Decided x g this j Γ) (hb : b.Decided x g this j Γ) :
    (Expr.binary op a b sp).Decided x g this j Γ := by
  intro s h
  rw [Expr.resolve]
  refine ha.seq h ?_ fun l s₁ hl h₁ => hb.seq h₁ ?_ fun r s₂ hr h₂ => ?_
  · rintro ⟨f, T, ht⟩
    obtain ⟨f, -, A, -, -, ha, -⟩ := hasType_binary_inv ht
    exact ⟨f, A, ha⟩
  · rintro ⟨f, T, ht⟩
    obtain ⟨-, f, -, B, -, -, hb, -⟩ := hasType_binary_inv ht
    exact ⟨f, B, hb⟩
  have hl₂ := hl.toAnswers.mono hr.frame.extends_of_none hl.sound hr.sound
  obtain ⟨A, hA, hAa⟩ := hl₂.hasType
  obtain ⟨B, hB, hBb⟩ := hr.hasType
  refine ask_leads ((binary_yields h₂ hl₂.typed hr.typed hA hB).imp ?_ fun _ hf => hf.imp ?_)
  · rintro t ⟨ht, hform, P, R, hop, hfit, hR⟩
    exact
      { typed := ht
        hasType := ⟨R, hR, by rw [hform]; exact hasType_binary hAa hBb hop hfit⟩
        frame := hl.frame.trans hr.frame
        sound := hr.sound }
  · rintro ⟨f, T, ht⟩
    obtain ⟨_, _, A', B', P, ha', hb', hop, hfit⟩ := hasType_binary_inv ht
    obtain ⟨-, rfl⟩ := hAa.unique ha'
    obtain ⟨rfl, rfl⟩ := hBb.unique hb'
    exact ⟨P, T, hop, hfit⟩

/-- A number that is negated at once may be one greater than any other. -/
theorem negated (n : Nat) (sp' : Span) :
    (Expr.unary .negate (.number n sp) sp').Decided x g this j Γ := by
  intro s h
  have hg : greatestInteger = 2 ^ 63 - 1 := rfl
  rw [Expr.resolve]
  split
  · have hn : n ≤ 2 ^ 63 := by omega
    have ht : s.Answers x this Γ (.unary .negate (.number n sp) sp')
        (.int (-n) Native.integer.id sp') :=
      ⟨.int (by omega) (by omega), _, Registry.meaning?_native h.sound.registry _, .negative hn⟩
    exact Leads.pure (ht.resolved h.sound)
  · refine refuse_leads ⟨rfl, ?_⟩
    rintro ⟨f, T, ht⟩
    cases ht with
    | negative hn => omega
    | unary hn _ _ => exact hn trivial
    | unaryMethod he _ => cases he

theorem unary {op : UnaryOp} (he : e.Decided x g this j Γ) (hn : ¬ op.Folds e) :
    (Expr.unary op e sp).Decided x g this j Γ := by
  intro s h
  rw [Expr.resolve_unary hn]
  refine he.seq h ?_ fun t s₁ ht h₁ => ?_
  · rintro ⟨f, T, ht⟩
    obtain ⟨f, A, he, -⟩ := hasType_unary_inv hn ht
    exact ⟨f, A, he⟩
  obtain ⟨A, hA, hAe⟩ := ht.hasType
  refine ask_leads ((unary_yields h₁ ht.typed hA).imp ?_ fun _ hf => hf.imp ?_)
  · rintro t' ⟨ht', hform, R, hop, hR⟩
    exact
      { typed := ht'
        hasType := ⟨R, hR, by rw [hform]; exact hasType_unary hn hAe hop⟩
        frame := ht.frame
        sound := ht.sound }
  · rintro ⟨f, T, ht'⟩
    obtain ⟨_, A', he', hop⟩ := hasType_unary_inv hn ht'
    obtain ⟨-, rfl⟩ := hAe.unique he'
    rw [hop]; rfl

/-- Only places have an address. -/
theorem addressOf (he : e.Decided x g this j Γ) :
    (Expr.addressOf e sp).Decided x g this j Γ := by
  intro s h
  rw [Expr.resolve]
  refine he.seq h ?_ fun t s₁ ht h₁ => ?_
  · rintro ⟨f, T, ht⟩
    cases ht with
    | addressOf he => exact ⟨_, _, he⟩
  obtain ⟨T, hT, hTe⟩ := ht.hasType
  split
  · rename_i hp
    refine (intern_leads h₁.sound rfl hT).sure_seq ?_
    rintro id s₂ ⟨hf, hs₂, hk, hT₂⟩
    have hx := hf.extends_of_none
    refine Leads.pure
      { typed := .addressOf (ht.typed.mono hx) hp hk
        hasType := ⟨_, Registry.meaning?_pointer hs₂.registry hk hT₂, .addressOf ?_⟩
        frame := ht.frame.trans hf
        sound := hs₂ }
    rw [← TypedExpr.isPlace_iff.1 hp]
    exact hTe
  · rename_i hp
    refine ask_leads ⟨rfl, ?_⟩
    rintro ⟨f, T', ht'⟩
    cases ht' with
    | addressOf he' => exact hp (TypedExpr.isPlace_iff.2 (hTe.unique he').1)

theorem arrayNew (he : e.Decided x g this j Γ) :
    (Expr.arrayNew type e sp).Decided x g this j Γ := by
  intro s h
  rw [Expr.resolve]
  refine type.resolve_seq h ?_ fun element A s₁ htype hA hf₁ h₁ => ?_
  · rintro ⟨f, T, ht⟩
    cases ht with
    | arrayNew htype _ _ => rw [htype]; rfl
  refine he.coerce_seq h₁ (Registry.meaning?_native h₁.sound.registry .integer) ?_
    fun f T size s₂ hT hfit hsize hsizeTy hf₂ h₂ => ?_
  · rintro ⟨f, T, ht⟩
    cases ht with
    | arrayNew _ he hfit => exact ⟨_, _, he, hfit⟩
  have hA₂ := hf₂.toGrows.meaning? h₁.sound.registry h₂.sound.registry hA
  refine (intern_leads h₂.sound rfl hA₂).sure_seq ?_
  rintro id s₃ ⟨hf₃, hs₃, hk, hA₃⟩
  have hx := hf₃.extends_of_none
  exact Leads.pure
    { typed := .arrayNew (hsize.mono hx) hsizeTy hk
      hasType := ⟨_, Registry.meaning?_array hs₃.registry hk hA₃, .arrayNew htype hT hfit⟩
      frame := (hf₁.trans hf₂).trans hf₃
      sound := hs₃ }

theorem cast (he : e.Decided x g this j Γ) : (Expr.cast e type sp).Decided x g this j Γ := by
  intro s h
  rw [Expr.resolve]
  refine he.seq h ?_ fun t s₁ ht h₁ => type.resolve_seq h₁ ?_ fun ty A s₂ htype hA hf h₂ => ?_
  · rintro ⟨f, T, ht⟩
    cases ht with
    | cast he _ => exact ⟨_, _, he⟩
  · rintro ⟨f, T, ht⟩
    cases ht with
    | cast _ htype => rw [htype]; rfl
  obtain ⟨T, -, hTe⟩ := ht.hasType
  have hty := Registry.has_of_meaning? h₂.sound.registry hA
  exact Leads.pure
    { typed := .cast (ht.typed.mono hf.extends_of_none) hty
      hasType := ⟨A, hA, .cast hTe htype⟩
      frame := ht.frame.trans hf
      sound := h₂.sound }

/-- An array is indexed by an integer. -/
theorem index (ha : a.Decided x g this j Γ) (hb : b.Decided x g this j Γ) :
    (Expr.index a b sp).Decided x g this j Γ := by
  intro s h
  rw [Expr.resolve]
  refine ha.seq h ?_ fun array s₁ ht h₁ => ?_
  · rintro ⟨f, T, ht⟩
    cases ht with
    | index ha _ _ => exact ⟨_, _, ha⟩
  obtain ⟨T, hT, hTa⟩ := ht.hasType
  refine ask_seq_imp (element_yields ht.sound hT) (fun _ hf => hf.imp ?_) ?_
  · rintro ⟨f, T', ht'⟩
    cases ht' with
    | index ha' _ _ => exact ⟨_, (hTa.unique ha').2⟩
  rintro element ⟨hk, A, rfl, hA⟩
  refine hb.coerce_seq h₁ (Registry.meaning?_native h₁.sound.registry .integer) ?_
    fun f I position s₂ hI hfit hpos hposTy hf h₂ => ?_
  · rintro ⟨f, T, ht'⟩
    cases ht' with
    | index _ hi hfit => exact ⟨_, _, hi, hfit⟩
  have hx := hf.extends_of_none
  exact Leads.pure
    { typed := .index (ht.typed.mono hx) hpos (hx.registry.kind? hk) hposTy
      hasType := ⟨A, hx.grows.meaning? h₁.sound.registry h₂.sound.registry hA, .index hTa hI hfit⟩
      frame := ht.frame.trans hf
      sound := h₂.sound }

end Expr.Decided

theorem Expr.DecidedArgs.nil : DecidedArgs x g this j Γ [] := by
  intro s tys ps h hps hlen
  cases List.length_eq_zero_iff.1 hlen
  cases List.map_eq_nil_iff.1 hps
  rw [Expr.resolveArgs]
  · exact Leads.pure
      { typed := fun _ ht => absurd ht List.not_mem_nil, types := rfl, hasTypes := .nil
        frame := .refl s none none none, sound := h.sound }
  · rintro _ _ _ _ ⟨⟩

theorem Expr.DecidedArgs.cons {e : Expr} {es : List Expr} (he : e.Decided x g this j Γ)
    (hes : DecidedArgs x g this j Γ es) : DecidedArgs x g this j Γ (e :: es) := by
  intro s tys ps h hps hlen
  obtain ⟨P, ps, rfl⟩ := List.exists_cons_of_length_eq_add_one hlen
  obtain ⟨ty, tys, rfl, hty, hps⟩ := List.map_eq_cons_iff.1 hps
  rw [Expr.resolveArgs]
  refine he.coerce_seq h hty ?_ fun f T t s₁ hT hfit ht htty hf₁ h₁ => ?_
  · rintro (_ | ⟨he, hfit, _⟩)
    exact ⟨_, _, he, hfit⟩
  have hps₁ := hf₁.toGrows.map_meaning? h.sound h₁.sound hps
  refine Leads.seq_imp (hes h₁ hps₁ (Nat.succ.inj hlen)) (fun _ hf => hf.imp ?_) ?_
  · rintro (_ | ⟨_, _, hes⟩)
    exact hes
  intro ts s₂ hts
  refine Leads.pure
    { typed := ?_, types := ?_, hasTypes := .cons hT hfit hts.hasTypes
      frame := hf₁.trans hts.frame, sound := hts.sound }
  · intro a ha
    rcases List.mem_cons.1 ha with rfl | ha
    · exact ht.mono hts.frame.extends_of_none
    · exact hts.typed a ha
  · rw [List.map_cons, htty, hts.types]

/-! ## All expressions -/

mutual

/-- **Every expression** resolves if and only if it has a type. -/
theorem Expr.decided : (e : Expr) → e.Decided x g this j Γ
  | .number n _ => .number n
  | .boolean b _ => .boolean b
  | .symbol _ _ => .symbol
  | .this _ => .receiver
  | .call _ args _ => .call (Expr.decidedArgs args)
  | .send e _ args _ => .send (Expr.decided e) (Expr.decidedArgs args)
  | .member e _ _ => .member (Expr.decided e)
  | .binary _ a b _ => .binary (Expr.decided a) (Expr.decided b)
  | .unary op e sp => by
    by_cases hn : op.Folds e
    · match op, e, hn with
      | .negate, .number n _, _ => exact .negated n sp
    · exact .unary (Expr.decided e) hn
  | .addressOf e _ => .addressOf (Expr.decided e)
  | .arrayNew _ e _ => .arrayNew (Expr.decided e)
  | .cast e _ _ => .cast (Expr.decided e)
  | .index a i _ => .index (Expr.decided a) (Expr.decided i)

theorem Expr.decidedArgs : (es : List Expr) → DecidedArgs x g this j Γ es
  | [] => .nil
  | e :: es => .cons (Expr.decided e) (Expr.decidedArgs es)

end

/-- **An expression is resolved if and only if it has a type**, and then to an expression of that
type. -/
theorem Expr.resolve_leads (e : Expr) {s : Resolver} (h : s.Setting x g this j Γ) :
    Leads (e.resolve x.dialect j) s (fun t s' => s.Resolved s' x this Γ e t)
      (Refused (Expr.Typable x Γ e)) :=
  e.decided h

/-- **Arguments are resolved if and only if they fit the parameters.** -/
theorem Expr.resolveArgs_leads (es : List Expr) {s : Resolver} {tys : List TypeId} {ps : List Ty}
    (h : s.Setting x g this j Γ) (hps : tys.map s.registry.meaning? = ps.map some)
    (hlen : ps.length = es.length) :
    Leads (Expr.resolveArgs x.dialect j es tys) s
      (fun ts s' => s.ResolvedArgs s' x this Γ es ps ts tys) (Refused (HasTypes x Γ es ps)) :=
  decidedArgs es h hps hlen

end ClassLang
