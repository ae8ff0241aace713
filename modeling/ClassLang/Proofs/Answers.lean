import ClassLang.Proofs.Effects

/-!
# What the read-only steps answer

The parts of an expression are put together by steps that only look at the state: they find a
variable, a member or an operator, convert an argument, or refuse. For each of them, in the body of a
method and in a state that represents the unit (`Resolver.Setting`): the answer is well typed and as
the type rules say, and a refusal shows that no rule applies.
-/

namespace ClassLang

namespace TypedExpr

/-- What an expression is to the type rules beside having a value. -/
def form : TypedExpr → Form
  | var .. => .place
  | field .. => .place
  | index .. => .place
  | call .. => .call
  | send .. => .call
  | int v .. => .literal v
  | _ => .value

theorem isPlace_iff {t : TypedExpr} : t.isPlace = true ↔ t.form = .place := by
  cases t <;> simp [isPlace, form]

theorem isCall_iff {t : TypedExpr} : t.isCall = true ↔ t.form = .call := by
  cases t <;> simp [isCall, form]

theorem form_ofCall {target : Option TypedExpr} {m : MethodId} {args : List TypedExpr}
    {ty : TypeId} {span : Span} : (ofCall target m args ty span).form = .call := by
  cases target <;> rfl

theorem ty_ofCall {target : Option TypedExpr} {m : MethodId} {args : List TypedExpr} {ty : TypeId}
    {span : Span} : (ofCall target m args ty span).ty = ty := by
  cases target <;> rfl

end TypedExpr

/-- The type rules give the expression a type. -/
def Expr.Typable (x : Context) (Γ : Blocks) (e : Expr) : Prop := ∃ f T, HasType x Γ e f T

/-- Names that stand for the receiver have the type of the class around. -/
def Blocks.Receivers (x : Context) (Γ : Blocks) : Prop :=
  ∀ names ∈ Γ, ∀ n b, (n, b) ∈ names → b.receiver = true →
    ∃ decl, x.owner = some decl ∧ b.ty = .ofClass decl.name

namespace Resolver

/-- **Inside a body**: the state represents the unit of `x`, the current method is `g` with a receiver
of the type `this`, and the scope `j` reads as `Γ`. -/
structure Setting (s : Resolver) (x : Context) (g : Method) (this : Option TypeId) (j : ScopeId)
    (Γ : Blocks) : Prop where
  sound : s.Sound
  represents : s.Represents x.dialect x.unit
  within : s.Within x g
  receiver : s.program.receiverType? g = this
  reads : s.Reads g.owner j Γ
  receivers : Blocks.Receivers x Γ

/-- The expression `e` has become `t`, well typed and as the type rules say. -/
structure Answers (s : Resolver) (x : Context) (this : Option TypeId) (Γ : Blocks) (e : Expr)
    (t : TypedExpr) : Prop where
  typed : t.WellTyped x.dialect.conversions s.registry s.program this
  hasType : ∃ T, s.registry.meaning? t.ty = some T ∧ HasType x Γ e t.form T

variable {s : Resolver} {x : Context} {g g' : Method} {this : Option TypeId} {j : ScopeId}
  {Γ : Blocks} {span : Span} {n : String} {t : TypedExpr} {T P : Ty} {m : MethodId}
  {sig : Signature} {target : Option TypedExpr} {c : Conversions} {id : TypeId}

/-! ## Conversions -/

/-- **The check of the tables is the rule** of conversion. -/
theorem converts_iff (hs : s.Sound) (hT : s.registry.meaning? t.ty = some T)
    (hP : s.registry.meaning? id = some P) :
    s.registry.converts c t id = true ↔ Converts c t.form T P := by
  have hsource := Registry.nativeOf?_eq hs.registry hT
  have htarget := Registry.nativeOf?_eq hs.registry hP
  have literal : ∀ v, s.registry.literalConverts c v id = true ↔
      ∃ k, P = .native k ∧ c.permitsLiteral v k = true := by
    intro v
    unfold Registry.literalConverts
    rw [htarget]
    cases P <;> simp [Ty.native?]
  have widens : s.registry.widens c t.ty id = true ↔
      ∃ a b, T = .native a ∧ P = .native b ∧ c.widens a b = true := by
    unfold Registry.widens
    rw [hsource, htarget]
    cases T <;> cases P <;> simp [Ty.native?]
  unfold Registry.converts Converts
  simp only [Bool.or_eq_true, widens]
  cases t with
  | int v ty sp =>
    simp only [literal, TypedExpr.form, Form.literal.injEq]
    constructor
    · rintro (⟨k, hk, hp⟩ | h)
      · exact .inl ⟨v, k, rfl, hk, hp⟩
      · exact .inr h
    · rintro (⟨v', k, rfl, hk, hp⟩ | h)
      · exact .inl ⟨k, hk, hp⟩
      · exact .inr h
  | _ => simp [TypedExpr.form]

/-- **An expression where a type is wanted** is taken if and only if it fits. -/
theorem coerce_yields (hs : s.Sound) {d : Dialect}
    (ht : t.WellTyped d.conversions s.registry s.program this)
    (hT : s.registry.meaning? t.ty = some T) (hP : s.registry.meaning? id = some P) :
    Yields (s.coerce d t id) (fun t' => t'.WellTyped d.conversions s.registry s.program this ∧
        t'.ty = id ∧ Fits d.conversions t.form T P)
      (Refused (Fits d.conversions t.form T P)) := by
  unfold coerce
  split
  · rename_i heq
    rw [heq, hP] at hT
    cases hT
    exact ⟨ht, heq, .inl rfl⟩
  · rename_i hne
    split
    · rename_i hc
      have hid := Registry.has_of_meaning? hs.registry hP
      exact ⟨.implicit ht hid hne hc, rfl, .inr ((converts_iff hs hT hP).1 hc)⟩
    · rename_i hc
      refine ⟨rfl, ?_⟩
      rintro (rfl | h)
      · exact hne (hs.meaning?_injective hT hP)
      · exact hc ((converts_iff hs hT hP).2 h)

/-! ## The receiver -/

theorem Within.currentMethod (hw : s.Within x g) : s.currentMethod = .ok g := by
  obtain ⟨m, hm, hg⟩ := hw.current
  unfold Resolver.currentMethod
  rw [hm]
  exact Program.getMethod_eq hg

/-- **The receiver** exists inside a class. -/
theorem receiver_yields (h : s.Setting x g this j Γ) : Yields (s.receiver span)
    (fun t => t.WellTyped x.dialect.conversions s.registry s.program this ∧ t.form = .value ∧
      ∃ c i decl, g.owner = some c ∧ s.program.classAt? c = some i ∧ x.owner = some decl ∧
        decl.name = i.name ∧ t.ty = i.ty)
    (Refused x.owner.isSome) := by
  have hthis := h.receiver
  have hsome := h.within.receiver
  unfold receiver
  refine Yields.bind_ok h.within.currentMethod ?_
  cases hr : g.receiver with
  | none =>
    rw [hr] at hsome
    refine ⟨rfl, ?_⟩
    cases ho : g.owner with
    | none => rw [h.within.function ho]; nofun
    | some c => rw [ho] at hsome; cases hsome
  | some v =>
    obtain ⟨m, -, hg⟩ := h.within.current
    obtain ⟨c, i, y, ho, hi, hy, hty⟩ := (h.sound.methods m g hg).receiver v hr
    obtain ⟨i', decl, hi', hx, hd⟩ := h.within.method c ho
    rw [hi] at hi'
    cases hi'
    have hname : decl.name = i.name := by simpa using List.find?_some hd
    refine Yields.bind_ok (Program.getVariable_eq hy) ⟨.this ?_, rfl, c, i, decl, ho, hi, hx, hname, hty⟩
    rw [← hthis, Program.receiverType?, hr, Option.bind_some, hy]; rfl

/-! ## Calls -/

/-- A method can be called on a target: a function on none, and else a member on something that
lists it. -/
def Callable (s : Resolver) (c : Conversions) (this : Option TypeId) (m : MethodId) (g : Method)
    (target : Option TypedExpr) : Prop :=
  match target with
  | none => g.owner = none
  | some e => e.WellTyped c s.registry s.program this ∧ s.registry.Lists e.ty g.name m

theorem Callable.wellTyped (hc : s.Callable c this m g' target)
    (hm : s.program.methodAt? m = some g') {args : List TypedExpr}
    (hargs : ∀ a ∈ args, a.WellTyped c s.registry s.program this)
    (htys : s.program.typesOf? g'.arguments = some (args.map TypedExpr.ty)) :
    (TypedExpr.ofCall target m args g'.result span).WellTyped c s.registry s.program this := by
  cases target with
  | none => exact .call hm hc hargs htys
  | some e => exact .send hc.1 hm hc.2 hargs htys

theorem implicitReceiver_yields (h : s.Setting x g this j Γ)
    (hm : s.scopes.findMethod? j n = some m) : Yields (s.implicitReceiver m span)
      (fun target => ∃ g', s.program.methodAt? m = some g' ∧
        s.Callable x.dialect.conversions this m g' target) (fun _ => False) := by
  obtain ⟨g', hg', howner⟩ := (h.within.method?_eq h.sound h.represents h.reads n).2 m hm
  unfold implicitReceiver
  refine Yields.bind_ok (Program.getMethod_eq hg') ?_
  rcases howner with ho | ⟨c, i, ho, hog, hi, hl⟩
  · rw [ho]
    exact ⟨g', hg', ho⟩
  · rw [ho]
    refine Yields.map ((receiver_yields h).imp ?_ fun f hf => hf.2 ?_)
    · rintro t ⟨ht, -, c', i', decl, hog', hi', -, -, hty⟩
      rw [hog] at hog'
      cases hog'
      rw [hi] at hi'
      cases hi'
      exact ⟨g', hg', ht, by rw [hty]; exact hl⟩
    · obtain ⟨i', decl, -, hx, -⟩ := h.within.method c hog
      rw [hx]; rfl

/-- **The method of a name**, with what it is called on. -/
theorem method_yields (h : s.Setting x g this j Γ) : Yields (s.method j n span)
    (fun r => ∃ g' sig, s.program.methodAt? r.1 = some g' ∧
      s.Callable x.dialect.conversions this r.1 g' r.2 ∧ s.signatureOf? r.1 = some sig ∧
      x.method? n = some sig)
    (Refused (x.method? n).isSome) := by
  have heq := (h.within.method?_eq h.sound h.represents h.reads n).1
  unfold method
  cases hm : s.scopes.findMethod? j n with
  | none =>
    rw [hm, Option.bind_none] at heq
    exact ⟨rfl, by rw [← heq]; nofun⟩
  | some m =>
    refine (implicitReceiver_yields h hm).sure_seq ?_
    rintro target ⟨g', hg', hc⟩
    obtain ⟨sig, -, hsig, -⟩ := h.sound.signatureOf?_isSome hg'
    rw [hm, Option.bind_some, hsig] at heq
    exact ⟨g', sig, hg', hc, hsig, heq.symm⟩

/-- The signature of a method for a number of arguments. -/
theorem signature_yields (hs : s.Sound) {count : Nat} (hm : s.program.methodAt? m = some g')
    (hsig : s.signatureOf? m = some sig) : Yields (s.signature m count span)
      (fun r => s.program.typesOf? g'.arguments = some r.1 ∧
        r.1.map s.registry.meaning? = sig.parameters.map some ∧ r.2 = g'.result ∧
        s.registry.meaning? g'.result = some sig.result ∧ sig.parameters.length = count)
      (Refused (sig.parameters.length = count)) := by
  obtain ⟨sig', tys, hsig', htys, hps, hres⟩ := hs.signatureOf?_isSome hm
  rw [hsig] at hsig'
  cases hsig'
  have hlen : tys.length = sig.parameters.length := by
    simpa using congrArg List.length hps
  unfold signature
  refine Yields.bind_ok (parameterTypes_eq hm htys) (Yields.bind_ok (Program.getMethod_eq hm) ?_)
  rw [hlen]
  split
  · rename_i hc
    exact ⟨htys, hps, rfl, hres, hc⟩
  · rename_i hc
    exact ⟨rfl, hc⟩

theorem callBare_yields (hs : s.Sound) (hm : s.program.methodAt? m = some g')
    (hsig : s.signatureOf? m = some sig) (hc : s.Callable c this m g' target) :
    Yields (s.callBare m target span)
      (fun t => t.WellTyped c s.registry s.program this ∧ t.form = .call ∧
        s.registry.meaning? t.ty = some sig.result ∧ sig.parameters = [])
      (Refused (sig.parameters = [])) := by
  unfold callBare
  refine (signature_yields hs hm hsig).seq_imp
    (fun f hf => hf.imp fun h => List.length_eq_zero_iff.2 h) ?_
  rintro ⟨tys, r⟩ ⟨htys, hps, rfl, hres, hlen⟩
  have hnil := List.length_eq_zero_iff.1 hlen
  have htys' : tys = [] := by rw [hnil] at hps; simpa using hps
  subst htys'
  refine ⟨hc.wellTyped hm (List.forall_mem_nil _) htys, TypedExpr.form_ofCall, ?_, hnil⟩
  rw [TypedExpr.ty_ofCall]
  exact hres

/-! ## Names -/

theorem mem_of_find? {b : Binding} (h : Γ.find? n = some b) : ∃ names ∈ Γ, (n, b) ∈ names := by
  unfold Blocks.find? at h
  obtain ⟨names, hmem, hl⟩ := List.exists_of_findSome?_eq_some h
  obtain ⟨l₁, l₂, rfl, -⟩ := List.lookup_eq_some_iff.1 hl
  exact ⟨_, hmem, by simp⟩

/-- **What a name stands for.** -/
theorem name_yields (h : s.Setting x g this j Γ) : Yields (s.name j n span)
    (s.Answers x this Γ (.symbol n span)) (Refused (Expr.Typable x Γ (.symbol n span))) := by
  have hs := h.sound
  unfold name
  rcases h.reads.findVariable? hs n with ⟨v, y, b, hv, hy, hkind, hb, hΓ⟩ | ⟨hΓ, p, hp, hv⟩
  · -- a variable of a block, or the receiver
    obtain ⟨T, hT, hb'⟩ := hs.bindingOf?_isSome hy
    rw [hb] at hb'
    cases hb'
    simp only [hv]
    unfold useOf
    refine Yields.bind_ok (Program.getVariable_eq hy) ?_
    cases hk : y.kind with
    | field c k => exact absurd hk (hkind c k)
    | localVar =>
      rw [hk] at hΓ
      exact ⟨.var hy (.inl hk), T, hT, .var hΓ⟩
    | argument k =>
      rw [hk] at hΓ
      exact ⟨.var hy (.inr ⟨k, hk⟩), T, hT, .var hΓ⟩
    | receiver =>
      rw [hk] at hΓ
      obtain ⟨names, hmem, hin⟩ := mem_of_find? hΓ
      obtain ⟨decl, hx, hty⟩ := h.receivers names hmem n _ hin rfl
      simp only at hty
      refine (receiver_yields h).imp ?_ fun f hf => absurd (by rw [hx]; rfl) hf.2
      rintro t ⟨ht, hform, c, i, decl', -, hi, hx', hname, htty⟩
      rw [hx] at hx'
      cases hx'
      refine ⟨ht, T, ?_, by rw [hform]; exact .receiver hΓ⟩
      rw [htty, hs.meaning?_class hi, hty, hname]
  · obtain ⟨hfield, hfieldKind⟩ := h.within.field?_eq hs h.represents hp n
    rw [hv]
    cases hf : s.scopes.findVariable? p n with
    | some v =>
      -- a field of the receiver
      obtain ⟨y, c, k, hy, hk, ho⟩ := hfieldKind v hf
      obtain ⟨T, hT, hm⟩ := hs.tyOf?_isSome hy
      rw [hf, Option.bind_some, hT] at hfield
      simp only
      unfold useOf
      refine Yields.bind_ok (Program.getVariable_eq hy) ?_
      rw [hk]
      refine (receiver_yields h).seq_imp (fun f hf => ?_) ?_
      · obtain ⟨i, decl, -, hx, -⟩ := h.within.method c ho
        exact absurd (by rw [hx]; rfl) hf.2
      · rintro t ⟨ht, -, c', i, -, ho', hi, -, -, hty⟩
        rw [ho] at ho'
        cases ho'
        have hclass : s.registry.classOf? t.ty = some c := by
          unfold Registry.classOf?
          rw [hty, (hs.classes c i hi).kind]
        exact ⟨.field ht hy hk hclass, T, hm, .field hΓ hfield.symm⟩
    | none =>
      rw [hf, Option.bind_none] at hfield
      have hmethod := (h.within.method?_eq hs h.represents h.reads n).1
      cases hm : s.scopes.findMethod? j n with
      | none =>
        rw [hm, Option.bind_none] at hmethod
        refine ⟨rfl, ?_⟩
        rintro ⟨f, T, ht⟩
        cases ht <;> simp_all
      | some m =>
        -- a call without arguments
        refine (implicitReceiver_yields h hm).sure_seq ?_
        rintro target ⟨g', hg', hc⟩
        obtain ⟨sig, -, hsig, -⟩ := hs.signatureOf?_isSome hg'
        rw [hm, Option.bind_some, hsig] at hmethod
        refine (callBare_yields hs hg' hsig hc).imp ?_ fun f hf => hf.imp ?_
        · rintro t ⟨ht, hform, hres, hnil⟩
          refine ⟨ht, sig.result, hres, ?_⟩
          rw [hform]
          exact .method hΓ hfield.symm (by rw [← hmethod, ← hnil])
        · rintro ⟨f, T, ht⟩
          cases ht <;> simp_all

/-! ## Members -/

theorem Sound.entry_of_meaning? (hs : s.Sound) (hT : s.registry.meaning? id = some T) :
    ∃ e, s.registry.entry? id = some e :=
  Registry.has_iff_entry.1 (Registry.has_of_meaning? hs.registry hT)

theorem candidates_eq {e : TypeEntry} (he : s.registry.entry? id = some e) (n : String) :
    s.candidates id n = .ok (e.candidates n) := by
  unfold candidates Registry.entry
  rw [he]; rfl

/-- **The first member of a name.** -/
theorem firstCandidate_yields (h : s.Setting x g this j Γ) (hT : s.registry.meaning? id = some T) :
    Yields (s.firstCandidate id n span)
      (fun m => ∃ g' sig, s.program.methodAt? m = some g' ∧ s.registry.Lists id g'.name m ∧
        s.signatureOf? m = some sig ∧ T.method? x.dialect x.unit n = some sig)
      (Refused (T.method? x.dialect x.unit n).isSome) := by
  obtain ⟨e, he⟩ := h.sound.entry_of_meaning? hT
  have hcand := h.represents.candidates h.sound hT he n
  have hmethod := T.head?_candidates x.dialect x.unit n
  unfold firstCandidate
  refine Yields.bind_ok (candidates_eq he _) ?_
  rw [← hmethod]
  cases hc : e.candidates n with
  | nil =>
    rw [hc] at hcand
    cases hsigs : T.candidates x.dialect x.unit n with
    | nil => exact ⟨rfl, nofun⟩
    | cons sig sigs => rw [hsigs] at hcand; cases hcand
  | cons m ms =>
    rw [hc] at hcand
    cases hsigs : T.candidates x.dialect x.unit n with
    | nil => rw [hsigs] at hcand; cases hcand
    | cons sig sigs =>
      rw [hsigs, List.map_cons, List.map_cons, List.cons.injEq] at hcand
      obtain ⟨g', hg', -, hl⟩ := h.sound.lists_of_candidate he (hc ▸ List.mem_cons_self)
      exact ⟨g', sig, hg', hl, hcand.1, rfl⟩

/-- A field is the one its class declares. -/
theorem field?_eq (h : s.Setting x g this j Γ) (hT : s.registry.meaning? id = some T) (n : String) :
    ∃ o, s.field? id n = .ok o ∧
      o.bind s.tyOf? = T.field? x.dialect x.unit n ∧
      ∀ v, o = some v → ∃ y c k, s.program.varAt? v = some y ∧ y.kind = .field c k ∧
        s.registry.classOf? id = some c := by
  have hs := h.sound
  have hkind := Registry.kind?_of_meaning? hs.registry hT
  unfold field? Registry.classOf?
  cases T with
  | ofClass c =>
    obtain ⟨c', i, hk, hi, rfl, rfl⟩ := hs.class_of_meaning? hT
    obtain ⟨decl, hd, hc⟩ := h.represents.classes c' i hi
    rw [hk]
    have hget : (do return (← s.program.getClass c').fields[n]? : Except Diagnostic _) =
        .ok i.fields[n]? := by
      rw [Program.getClass_eq hi]; rfl
    refine ⟨i.fields[n]?, hget, ?_, fun v hv => ?_⟩
    · rw [hc.fields n]
      show _ = (do
        let f ← (← x.unit.classNamed? i.name).fieldNamed? n
        f.type.denoted? x.dialect x.unit)
      rw [hd]; rfl
    · obtain ⟨y, k, hy, hyk⟩ := (hs.classes c' i hi).field n v hv
      exact ⟨y, c', k, hy, hyk, rfl⟩
  | native k => rw [hkind]; exact ⟨none, rfl, rfl, nofun⟩
  | pointer T | array T => obtain ⟨t, ht, -⟩ := hkind; rw [ht]; exact ⟨none, rfl, rfl, nofun⟩

/-- **A field of a target, or a call of its method without arguments.** -/
theorem member_yields (h : s.Setting x g this j Γ) {e : Expr}
    (ht : s.Answers x this Γ e t) : Yields (s.member t n span)
      (s.Answers x this Γ (.member e n span)) (Refused (Expr.Typable x Γ (.member e n span))) := by
  obtain ⟨T, hT, he⟩ := ht.hasType
  obtain ⟨o, ho, hfield, hkind⟩ := field?_eq h hT n
  unfold member
  refine Yields.bind_ok ho ?_
  cases o with
  | some v =>
    obtain ⟨y, c, k, hy, hyk, hclass⟩ := hkind v rfl
    obtain ⟨F, hF, hm⟩ := h.sound.tyOf?_isSome hy
    rw [Option.bind_some, hF] at hfield
    exact Yields.bind_ok (Program.getVariable_eq hy)
      ⟨.field ht.typed hy hyk hclass, F, hm, .member he hfield.symm⟩
  | none =>
    -- there is no such field, so only the rule for calls applies
    have typable : Expr.Typable x Γ (.member e n span) →
        ∃ R, T.method? x.dialect x.unit n = some ⟨[], R⟩ := by
      rintro ⟨f, R, hR⟩
      cases hR with
      | member he' hf =>
        obtain ⟨-, rfl⟩ := he.unique he'
        rw [← hfield] at hf; cases hf
      | memberCall he' _ hm =>
        obtain ⟨-, rfl⟩ := he.unique he'
        exact ⟨_, hm⟩
    refine (firstCandidate_yields h hT).seq_imp (fun f hf => hf.imp fun h => ?_) ?_
    · obtain ⟨R, hR⟩ := typable h
      rw [hR]; rfl
    · rintro m ⟨g', sig, hg', hl, hsig, hmethod⟩
      have hc : s.Callable x.dialect.conversions this m g' (some t) := ⟨ht.typed, hl⟩
      refine (callBare_yields h.sound hg' hsig hc).imp ?_ fun f hf => hf.imp fun h => ?_
      · rintro t' ⟨ht', hform, hres, hnil⟩
        refine ⟨ht', sig.result, hres, ?_⟩
        rw [hform]
        exact .memberCall he hfield.symm (by rw [hmethod, ← hnil])
      · obtain ⟨R, hR⟩ := typable h
        rw [hmethod] at hR
        cases hR; rfl

theorem element_yields (hs : s.Sound) (hT : s.registry.meaning? t.ty = some T) :
    Yields (s.element t)
      (fun id => s.registry.kind? t.ty = some (.array id) ∧
        ∃ A, T = .array A ∧ s.registry.meaning? id = some A)
      (Refused (∃ A, T = .array A)) := by
  have hkind := Registry.kind?_of_meaning? hs.registry hT
  unfold element Registry.elementOf?
  cases T with
  | array A => obtain ⟨id, hk, hA⟩ := hkind; rw [hk]; exact ⟨rfl, A, rfl, hA⟩
  | native k => rw [hkind]; exact ⟨rfl, nofun⟩
  | ofClass c => obtain ⟨c', hk, -⟩ := hkind; rw [hk]; exact ⟨rfl, nofun⟩
  | pointer A => obtain ⟨id, hk, -⟩ := hkind; rw [hk]; exact ⟨rfl, nofun⟩

/-! ## Operators -/

/-- **An operator between two operands.** -/
theorem binary_yields (h : s.Setting x g this j Γ) {op : BinaryOp} {l r : TypedExpr} {A B : Ty}
    (hl : l.WellTyped x.dialect.conversions s.registry s.program this)
    (hr : r.WellTyped x.dialect.conversions s.registry s.program this)
    (hA : s.registry.meaning? l.ty = some A) (hB : s.registry.meaning? r.ty = some B) :
    Yields (s.binary x.dialect op l r span)
      (fun t => t.WellTyped x.dialect.conversions s.registry s.program this ∧ t.form = .value ∧
        ∃ P R, A.binary? x.dialect x.unit op = some (P, R) ∧
          Fits x.dialect.conversions r.form B P ∧ s.registry.meaning? t.ty = some R)
      (Refused (∃ P R, A.binary? x.dialect x.unit op = some (P, R) ∧
        Fits x.dialect.conversions r.form B P)) := by
  have hs := h.sound
  obtain ⟨e, he⟩ := hs.entry_of_meaning? hA
  have hcand := h.represents.candidates hs hA he op.symbol
  have htakers := hs.map_takers hcand
  rw [A.takers_candidates] at htakers
  unfold binary
  refine Yields.bind_ok (candidates_eq he _) (Yields.bind_ok
    (choose_eq x.dialect r (fun _ hm => hs.parameterTypes_of_candidate he hm) []) ?_)
  cases hop : A.binary? x.dialect x.unit op with
  | none =>
    rw [hop] at htakers
    have hnil : s.takers (e.candidates op.symbol) = [] := List.map_eq_nil_iff.1 htakers
    rw [hnil]
    exact ⟨rfl, nofun⟩
  | some PR =>
    obtain ⟨P, R⟩ := PR
    rw [hop] at htakers
    -- only one member takes a right operand, and `m` is its number
    obtain ⟨⟨m, p⟩, htk, hmp⟩ : ∃ q, s.takers (e.candidates op.symbol) = [q] ∧
        (s.registry.meaning? q.2, (s.signatureOf? q.1).map Signature.result) = (some P, some R) := by
      match hq : s.takers (e.candidates op.symbol) with
      | [] => rw [hq] at htakers; cases htakers
      | [q] => rw [hq] at htakers; exact ⟨q, rfl, by simpa using htakers⟩
      | _ :: _ :: _ => rw [hq] at htakers; simp at htakers
    obtain ⟨hmem, hparam⟩ := mem_takers (htk ▸ List.mem_cons_self : (m, p) ∈ _)
    obtain ⟨g', hg', -, hlist⟩ := hs.lists_of_candidate he hmem
    obtain ⟨sig, tys, hsig, htys, -, hres⟩ := hs.signatureOf?_isSome hg'
    rw [parameterTypes_eq hg' htys] at hparam
    cases hparam
    simp only [hsig, Option.map_some, Prod.mk.injEq, Option.some.injEq] at hmp
    obtain ⟨hP, rfl⟩ := hmp
    have hget := Program.getMethod_eq hg'
    rw [htk]
    by_cases hty : p = r.ty
    · simp only [List.find?_cons, hty, decide_true]
      refine Yields.bind_ok hget ⟨.binary hl hr hg' hlist (hty ▸ htys), rfl, P, sig.result, rfl,
        .inl ?_, hres⟩
      rw [hty, hB] at hP
      cases hP; rfl
    · simp only [List.find?_cons, hty, decide_false, List.find?_nil, List.filter_cons,
        List.filter_nil, List.nil_append]
      by_cases hconv : s.registry.converts x.dialect.conversions r p = true
      · simp only [hconv, if_true]
        refine (coerce_yields hs hr hB hP).seq_imp (fun f hf => ?_) ?_
        · exact absurd (.inr ((converts_iff hs hB hP).1 hconv)) hf.2
        · rintro r' ⟨hr', hr'ty, hfit⟩
          exact Yields.bind_ok hget ⟨.binary hl hr' hg' hlist (hr'ty ▸ htys), rfl, P, sig.result, rfl,
            hfit, hres⟩
      · simp only [hconv]
        refine ⟨rfl, ?_⟩
        rintro ⟨P', R', heq, hfit⟩
        cases heq
        rcases hfit with rfl | hfit
        · exact hty (hs.meaning?_injective hP hB)
        · exact hconv ((converts_iff hs hB hP).2 hfit)

/-- **An operator before its operand.** -/
theorem unary_yields (h : s.Setting x g this j Γ) {op : UnaryOp} {A : Ty}
    (ht : t.WellTyped x.dialect.conversions s.registry s.program this)
    (hA : s.registry.meaning? t.ty = some A) : Yields (s.unary op t span)
      (fun t' => t'.WellTyped x.dialect.conversions s.registry s.program this ∧ t'.form = .value ∧
        ∃ R, A.unary? x.dialect x.unit op = some R ∧ s.registry.meaning? t'.ty = some R)
      (Refused (A.unary? x.dialect x.unit op).isSome) := by
  have hs := h.sound
  obtain ⟨e, he⟩ := hs.entry_of_meaning? hA
  have hcand := h.represents.candidates hs hA he op.symbol
  obtain ⟨o, ho, hsig, hmem⟩ := firstBare_eq (fun g => g) (fun _ _ h => h) hcand
  have hunary := A.find?_candidates x.dialect x.unit op
  unfold unary
  refine Yields.bind_ok (candidates_eq he _) (Yields.bind_ok ho ?_)
  rw [← hunary]
  cases o with
  | none => rw [Option.map_eq_none_iff.1 hsig.symm]; exact ⟨rfl, nofun⟩
  | some m =>
    obtain ⟨g', hg', -, hl⟩ := hs.lists_of_candidate he (hmem m rfl)
    obtain ⟨sig, tys, hsg, htys, hps, hres⟩ := hs.signatureOf?_isSome hg'
    obtain ⟨_, hsig, hsome⟩ := Option.map_eq_some_iff.1 hsig.symm
    cases hsome.trans hsg
    rw [hsig]
    -- the method that is found takes nothing
    have hempty : sig.parameters = [] := by simpa using List.find?_some hsig
    have hargs : g'.arguments = [] := by
      obtain ⟨g'', hg'', hvs, -⟩ := signatureOf?_eq_some_iff.1 hsg
      rw [hg'] at hg''
      cases hg''
      rw [hempty] at hvs
      exact List.map_eq_nil_iff.1 hvs
    exact Yields.bind_ok (Program.getMethod_eq hg')
      ⟨.unary ht hg' hl hargs, rfl, sig.result, rfl, hres⟩

end Resolver

end ClassLang
