import ClassLang.Proofs.Mirror
import ClassLang.Proofs.Published

/-!
# The read-only steps mirror their elaboration

The parts of an expression are put together by steps that only look at the state. Inside a body
(`Resolver.Stage`), each of them gives what the step of the same name of elaboration gives, without
the numbers, or the same fault.
-/

namespace ClassLang

namespace TypedExpr

/-- What can be seen of an expression can be seen of it without numbers. -/
theorem named?_facts {s : Resolver} {t : TypedExpr} {N : NamedExpr} (h : t.named? s = some N) :
    s.registry.meaning? t.ty = some N.ty ∧ N.span = t.span ∧ N.isPlace = t.isPlace ∧
      N.isCall = t.isCall ∧ N.literal? = match t with
        | .int v _ _ => some v
        | _ => none := by
  cases t <;> simp only [named?, Option.bind_eq_bind, Option.bind_eq_some_iff, Option.pure_def,
    Option.some.injEq] at h
  case var => obtain ⟨y, -, T, hT, rfl⟩ := h; exact ⟨hT, rfl, rfl, rfl, rfl⟩
  case field => obtain ⟨a, -, y, -, T, hT, rfl⟩ := h; exact ⟨hT, rfl, rfl, rfl, rfl⟩
  case call => obtain ⟨n, -, as, -, T, hT, rfl⟩ := h; exact ⟨hT, rfl, rfl, rfl, rfl⟩
  case send => obtain ⟨a, -, n, -, as, -, T, hT, rfl⟩ := h; exact ⟨hT, rfl, rfl, rfl, rfl⟩
  case unary => obtain ⟨n, -, a, -, T, hT, rfl⟩ := h; exact ⟨hT, rfl, rfl, rfl, rfl⟩
  case binary => obtain ⟨n, -, a, -, b, -, T, hT, rfl⟩ := h; exact ⟨hT, rfl, rfl, rfl, rfl⟩
  case addressOf => obtain ⟨a, -, T, hT, rfl⟩ := h; exact ⟨hT, rfl, rfl, rfl, rfl⟩
  case arrayNew => obtain ⟨A, -, a, -, T, hT, rfl⟩ := h; exact ⟨hT, rfl, rfl, rfl, rfl⟩
  case index => obtain ⟨a, -, b, -, T, hT, rfl⟩ := h; exact ⟨hT, rfl, rfl, rfl, rfl⟩
  case cast => obtain ⟨a, -, T, hT, rfl⟩ := h; exact ⟨hT, rfl, rfl, rfl, rfl⟩
  case int => obtain ⟨T, hT, rfl⟩ := h; exact ⟨hT, rfl, rfl, rfl, rfl⟩
  case bool => obtain ⟨T, hT, rfl⟩ := h; exact ⟨hT, rfl, rfl, rfl, rfl⟩
  case this => obtain ⟨T, hT, rfl⟩ := h; exact ⟨hT, rfl, rfl, rfl, rfl⟩

variable {s : Resolver} {t : TypedExpr} {N : NamedExpr} {m : MethodId} {span : Span}

theorem named?_cast {ty : TypeId} {P : Ty} (ht : t.named? s = some N)
    (hP : s.registry.meaning? ty = some P) (implicit : Bool) :
    (TypedExpr.cast t implicit ty span).named? s = some (.cast N implicit P span) := by
  rw [named?, ht, hP]; rfl

theorem named?_ofCall {target : Option TypedExpr} {target' : Option NamedExpr}
    {args : List TypedExpr} {args' : List NamedExpr} {n : MethodName} {ty : TypeId} {T : Ty}
    (htarget : target.map (fun e => e.named? s) = target'.map some) (hn : s.methodName? m = some n)
    (hargs : namedAll? s args = some args') (hT : s.registry.meaning? ty = some T) :
    (ofCall target m args ty span).named? s = some (.ofCall target' n args' T span) := by
  cases target with
  | none =>
    cases target' with
    | none => rw [ofCall, named?, hn, hargs, hT]; rfl
    | some e' => cases htarget
  | some e =>
    cases target' with
    | none => cases htarget
    | some e' =>
      have he : e.named? s = some e' := Option.some.inj htarget
      rw [ofCall, named?, he, hn, hargs, hT]; rfl

end TypedExpr

/-- Where two lists look the same, so do what is found and what is kept of them. -/
theorem find?_filter_eq {α β γ : Type} {f : α → γ} {f' : β → γ} {p : α → Bool} {q : β → Bool}
    {l : List α} {l' : List β} (h : l.map f = l'.map f')
    (hp : ∀ a b, f a = f' b → p a = q b) :
    (l.find? p).map f = (l'.find? q).map f' ∧ (l.filter p).map f = (l'.filter q).map f' := by
  induction forall₂_of_map_eq h with
  | nil => exact ⟨rfl, rfl⟩
  | @cons a b _ _ hab _ ih =>
    have ih := ih (List.cons.inj h).2
    rw [List.find?_cons, List.find?_cons, List.filter_cons, List.filter_cons, ← hp a b hab]
    cases p a with
    | true => exact ⟨congrArg some hab, congrArg₂ List.cons hab ih.2⟩
    | false => exact ih

namespace Resolver

/-- **Inside a body**, by number and by name. -/
structure Stage (s : Resolver) (x : Context) (g : Method) (this : Option TypeId) (j : ScopeId)
    (B : Blocks) (Γ : Env) : Prop where
  setting : s.Setting x g this j B
  tracks : s.Tracks x g.owner j Γ

variable {s s' : Resolver} {x : Context} {g : Method} {this : Option TypeId} {j : ScopeId}
  {B : Blocks} {Γ : Env} {span : Span} {n : String} {t l r : TypedExpr} {N L R : NamedExpr} {P : Ty}
  {m : MethodId} {k : Callee} {ty : TypeId}

theorem Stage.frame (h : s.Stage x g this j B Γ) (hf : Frame s s' none none none)
    (hs' : s'.Sound) : s'.Stage x g this j B Γ where
  setting := h.setting.frame hf hs'
  tracks := h.tracks.mono hf.extends_of_none h.setting.sound hs'
    fun _ _ _ hsc => hf.keepsScope hsc

/-- The name of a type, as complaints give it. -/
theorem typeName_eq (hP : s.registry.meaning? ty = some P) : s.typeName ty = P.text :=
  Registry.typeName_eq hP

/-! ## Conversions -/

theorem converts_eq (hs : s.Sound) (hN : t.named? s = some N) (hP : s.registry.meaning? ty = some P)
    (c : Conversions) : s.registry.converts c t ty = N.converts c P := by
  obtain ⟨hT, -, -, -, hlit⟩ := TypedExpr.named?_facts hN
  have hsource := Registry.nativeOf?_eq hs.registry hT
  have htarget := Registry.nativeOf?_eq hs.registry hP
  unfold Registry.converts NamedExpr.converts Registry.widens Registry.literalConverts
  rw [hsource, htarget, hlit]
  cases t <;> cases P.native? <;> rfl

/-- An expression where a type is wanted. -/
theorem coerce_agrees (hs : s.Sound) (hN : t.named? s = some N)
    (hP : s.registry.meaning? ty = some P) (d : Dialect) :
    Agrees (fun t' N' => t'.named? s = some N') (s.coerce d t ty) (N.coerce d.conversions P) := by
  obtain ⟨hT, hspan, -⟩ := TypedExpr.named?_facts hN
  unfold coerce NamedExpr.coerce
  by_cases hty : t.ty = ty
  · have heq : N.ty = P := by
      rw [hty, hP] at hT
      exact (Option.some.inj hT).symm
    rw [if_pos hty, if_pos heq]
    exact hN
  · have hne : N.ty ≠ P := fun heq => hty (hs.meaning?_injective hT (heq ▸ hP))
    rw [if_neg hty, if_neg hne, converts_eq hs hN hP]
    by_cases hc : N.converts d.conversions P = true
    · rw [if_pos hc, if_pos hc, ← hspan]
      exact TypedExpr.named?_cast hN hP true
    · rw [if_neg hc, if_neg hc, mismatch, typeName_eq hP, typeName_eq hT, hspan]
      exact .error

/-! ## The receiver and calls -/

/-- Both have a receiver, or neither. -/
theorem receiver_agrees (h : s.Setting x g this j B) :
    Agrees (fun t N => t.named? s = some N) (s.receiver span) (x.body.receiver span) := by
  have hsome := h.within.receiver
  unfold receiver BodyContext.receiver Context.body
  refine Agrees.bind_ok h.within.currentMethod ?_
  cases hr : g.receiver with
  | none =>
    have ho : g.owner = none := by
      rw [hr] at hsome
      cases ho : g.owner with
      | none => rfl
      | some c => rw [ho] at hsome; cases hsome
    rw [h.within.function ho]
    exact .error
  | some v =>
    obtain ⟨m, -, hg⟩ := h.within.current
    obtain ⟨c, i, y, ho, hi, hy, hty⟩ := (h.sound.methods m g hg).receiver v hr
    obtain ⟨i', decl, hi', hx, hd⟩ := h.within.method c ho
    rw [hi] at hi'
    cases hi'
    rw [hx]
    refine Agrees.bind_ok (Program.getVariable_eq hy) ?_
    show (TypedExpr.this y.ty span).named? s = some (.this (.ofClass decl.name) span)
    rw [TypedExpr.named?, hty, h.sound.meaning?_class hi, (classNamed?_mem hd).2]
    rfl

theorem implicitReceiver_agrees (h : s.Setting x g this j B) (hk : s.callee? m = some k) :
    Agrees (fun (o : Option TypedExpr) o' => o.map (fun e => e.named? s) = o'.map some)
      (s.implicitReceiver m span) (x.body.implicitReceiver k span) := by
  obtain ⟨g', hg', ho, -, -⟩ := callee?_eq_some_iff.1 hk
  unfold implicitReceiver BodyContext.implicitReceiver
  refine Agrees.bind_ok (Program.getMethod_eq hg') ?_
  cases hc : g'.owner with
  | none =>
    rw [hc] at ho
    rw [← show none = k.method.owner from Option.some.inj ho]
    exact Agrees.ok rfl
  | some c =>
    rw [hc] at ho
    obtain ⟨name, -, heq⟩ := Option.map_eq_some_iff.1 ho
    rw [← heq]
    exact Agrees.map ((receiver_agrees h).imp fun _ _ ht => congrArg some ht)

/-- A method that is called with some number of arguments. -/
theorem signature_agrees (hs : s.Sound) (hk : s.callee? m = some k) (count : Nat) :
    Agrees (fun r _ => r.1.map s.registry.meaning? = k.method.parameters.map some ∧
      s.registry.meaning? r.2 = some k.result ∧ k.method.parameters.length = count)
      (s.signature m count span) (k.takes count span) := by
  obtain ⟨g', hg', -, hname, hsig⟩ := callee?_eq_some_iff.1 hk
  obtain ⟨sig', tys, hsig', htys, hps, hres⟩ := hs.signatureOf?_isSome hg'
  rw [hsig] at hsig'
  cases hsig'
  have hlen : tys.length = k.method.parameters.length := by
    simpa using congrArg List.length hps
  unfold signature Callee.takes
  refine Agrees.bind_ok (parameterTypes_eq hg' htys) (Agrees.bind_ok (Program.getMethod_eq hg') ?_)
  rw [hlen, hname]
  by_cases hc : k.method.parameters.length = count
  · rw [if_pos hc, if_pos hc]
    exact ⟨hps, hres, hc⟩
  · rw [if_neg hc, if_neg hc]
    exact .error

theorem callBare_agrees (hs : s.Sound) (hk : s.callee? m = some k) {target : Option TypedExpr}
    {target' : Option NamedExpr} (ht : target.map (fun e => e.named? s) = target'.map some) :
    Agrees (fun t N => t.named? s = some N) (s.callBare m target span)
      (k.callBare target' span) := by
  unfold callBare Callee.callBare
  refine (signature_agrees hs hk 0).seq ?_
  rintro ⟨tys, ty⟩ _ ⟨-, hres, -⟩
  exact TypedExpr.named?_ofCall ht (methodName?_of_callee? hk) rfl hres

/-! ## Names -/

/-- A name stands for a local, a field or an argument alike. -/
theorem useOf_agrees (h : s.Setting x g this j B) {v : VariableId} {y : NamedVariable}
    (hv : s.namedVar? v = some y) : Agrees (fun t N => t.named? s = some N) (s.useOf v span)
      (x.body.useOf y span) := by
  obtain ⟨z, hz, -, hrole, hT, -⟩ := namedVar?_eq_some_iff.1 hv
  have hvar : (TypedExpr.var v z.ty span).named? s = some (.var y y.ty span) := by
    rw [TypedExpr.named?, hv, hT]; rfl
  unfold useOf BodyContext.useOf
  refine Agrees.bind_ok (Program.getVariable_eq hz) ?_
  cases hk : z.kind with
  | localVar =>
    rw [hk] at hrole
    rw [← show Role.localVar = y.role from Option.some.inj hrole]
    exact hvar
  | argument i =>
    rw [hk] at hrole
    rw [← show Role.argument i = y.role from Option.some.inj hrole]
    exact hvar
  | receiver =>
    rw [hk] at hrole
    rw [← show Role.receiver = y.role from Option.some.inj hrole]
    exact receiver_agrees h
  | field c i =>
    rw [hk] at hrole
    obtain ⟨name, -, heq⟩ := Option.map_eq_some_iff.1 hrole
    rw [← heq]
    refine (receiver_agrees h).seq fun t N ht => ?_
    show (TypedExpr.field t v z.ty span).named? s = some (.field N y y.ty span)
    rw [TypedExpr.named?, ht, hv, hT]; rfl

/-- **What a name stands for.** -/
theorem name_agrees (h : s.Stage x g this j B Γ) :
    Agrees (fun t N => t.named? s = some N) (s.name j n span) (x.body.name Γ n span) := by
  have hset := h.setting
  have hvar := h.tracks.findVariable? hset.sound hset.represents hset.within n
  have hmeth := h.tracks.published.findMethod? hset.sound hset.represents hset.within hset.reads n
  unfold name BodyContext.name
  cases hv : s.scopes.findVariable? j n with
  | some v =>
    rw [hv] at hvar
    obtain ⟨y, hy, hy'⟩ := Option.map_eq_some_iff.1 hvar.symm
    rw [hy]
    exact useOf_agrees hset hy'.symm
  | none =>
    rw [hv] at hvar
    rw [Option.map_eq_none_iff.1 hvar.symm]
    cases hm : s.scopes.findMethod? j n with
    | none =>
      rw [hm] at hmeth
      rw [Option.map_eq_none_iff.1 hmeth.symm]
      exact .error
    | some m =>
      rw [hm] at hmeth
      obtain ⟨k, hk, hk'⟩ := Option.map_eq_some_iff.1 hmeth.symm
      rw [hk]
      exact (implicitReceiver_agrees hset hk'.symm).seq fun _ _ ht =>
        callBare_agrees hset.sound hk'.symm ht

/-- The method of a name, with what it is called on. -/
theorem method_agrees (h : s.Stage x g this j B Γ) :
    Agrees (fun r r' => s.callee? r.1 = some r'.1 ∧
      r.2.map (fun e => e.named? s) = r'.2.map some) (s.method j n span) (x.body.method n span) := by
  have hset := h.setting
  have hmeth := h.tracks.published.findMethod? hset.sound hset.represents hset.within hset.reads n
  unfold method BodyContext.method
  cases hm : s.scopes.findMethod? j n with
  | none =>
    rw [hm] at hmeth
    rw [Option.map_eq_none_iff.1 hmeth.symm]
    exact .error
  | some m =>
    rw [hm] at hmeth
    obtain ⟨k, hk, hk'⟩ := Option.map_eq_some_iff.1 hmeth.symm
    rw [hk]
    exact (implicitReceiver_agrees hset hk'.symm).seq fun _ _ ht => ⟨hk'.symm, ht⟩

/-! ## Members -/

theorem firstCandidate_agrees (h : s.Setting x g this j B) (hN : t.named? s = some N) :
    Agrees (fun m k => s.callee? m = some k) (s.firstCandidate t.ty n span)
      (N.callee x.body.interface n span) := by
  obtain ⟨hT, -⟩ := TypedExpr.named?_facts hN
  obtain ⟨e, he⟩ := h.sound.entry_of_meaning? hT
  have hcand := h.represents.callees h.sound hT he n
  unfold firstCandidate NamedExpr.callee Context.body
  refine Agrees.bind_ok (candidates_eq he _) ?_
  cases hc : e.candidates n with
  | nil =>
    rw [hc] at hcand
    rw [List.map_eq_nil_iff.1 hcand.symm]
    exact .error
  | cons m ms =>
    rw [hc] at hcand
    cases hks : N.ty.callees (x.unit.interface x.dialect) n with
    | nil => rw [hks] at hcand; cases hcand
    | cons k ks =>
      rw [hks, List.map_cons, List.map_cons, List.cons.injEq] at hcand
      exact hcand.1

/-- A field of a target, or a call of its method without arguments. -/
theorem member_agrees (h : s.Stage x g this j B Γ) (hN : t.named? s = some N) :
    Agrees (fun t N => t.named? s = some N) (s.member t n span)
      (N.member x.body.interface n span) := by
  obtain ⟨hT, -⟩ := TypedExpr.named?_facts hN
  obtain ⟨o, ho, hfield⟩ := h.tracks.published.field? h.setting.sound hT n
  unfold member NamedExpr.member
  refine Agrees.bind_ok ho ?_
  cases o with
  | some v =>
    obtain ⟨y, hy, hy'⟩ := Option.map_eq_some_iff.1 hfield.symm
    obtain ⟨z, hz, -, -, hZ, -⟩ := namedVar?_eq_some_iff.1 hy'.symm
    have hy₁ : N.ty.fieldOf? x.body.interface n = some y := hy
    rw [hy₁]
    refine Agrees.bind_ok (Program.getVariable_eq hz) ?_
    show (TypedExpr.field t v z.ty span).named? s = some (.field N y y.ty span)
    rw [TypedExpr.named?, hN, ← hy', hZ]; rfl
  | none =>
    have hnone : N.ty.fieldOf? x.body.interface n = none := Option.map_eq_none_iff.1 hfield.symm
    rw [hnone]
    refine (firstCandidate_agrees h.setting hN).seq fun m k hk => ?_
    exact callBare_agrees h.setting.sound hk (congrArg some hN)

theorem element_agrees (hs : s.Sound) (hN : t.named? s = some N) :
    Agrees (fun id A => s.registry.meaning? id = some A) (s.element t) N.element := by
  obtain ⟨hT, hspan, -⟩ := TypedExpr.named?_facts hN
  unfold element Registry.elementOf? NamedExpr.element
  generalize N.ty = T at hT ⊢
  have hkind := Registry.kind?_of_meaning? hs.registry hT
  rw [hspan, typeName_eq hT]
  cases T with
  | array A => obtain ⟨id, hk, hA⟩ := hkind; rw [hk]; exact hA
  | native k => rw [hkind]; exact .error
  | ofClass c => obtain ⟨c', hk, -⟩ := hkind; rw [hk]; exact .error
  | pointer A => obtain ⟨id, hk, -⟩ := hkind; rw [hk]; exact .error

/-! ## Operators -/

/-- The members that take a right operand, by number and without. -/
theorem Sound.takers_callees (hs : s.Sound) {ms : List MethodId} {ks : List Callee}
    (h : ms.map s.callee? = ks.map some) :
    (s.takers ms).map (fun q => (s.callee? q.1, s.registry.meaning? q.2)) =
      (ks.filterMap fun k => k.parameter?.map fun P => (k, P)).map fun q => (some q.1, some q.2) := by
  induction forall₂_of_map_eq h with
  | nil => rfl
  | @cons m k _ _ hk _ ih =>
    have ih := ih (List.cons.inj h).2
    obtain ⟨g, hg, -, -, hsig⟩ := callee?_eq_some_iff.1 hk
    obtain ⟨sig, tys, hsig', htys, hps, -⟩ := hs.signatureOf?_isSome hg
    rw [hsig] at hsig'
    cases hsig'
    have hpt := parameterTypes_eq hg htys
    unfold takers at *
    rw [List.filterMap_cons, List.filterMap_cons, hpt]
    unfold Callee.parameter? at ih ⊢
    -- as many argument types as parameters
    rcases hps' : k.method.parameters with _ | ⟨P, _ | ⟨P', Ps⟩⟩ <;> rw [hps'] at hps <;>
      rcases tys with _ | ⟨ty, _ | ⟨ty', tys⟩⟩
    case nil.nil => exact ih
    case cons.nil.cons.nil =>
      have hty : s.registry.meaning? ty = some P := by simpa using hps
      simp only [Option.map_some, List.map_cons, hty, hk, ih]
    case cons.cons.cons.cons => exact ih
    all_goals simp at hps

/-- An operator between two operands, once it is chosen. -/
theorem chosen_agrees (hs : s.Sound) (hL : l.named? s = some L) (hR : r.named? s = some R)
    (hk : s.callee? m = some k) (hP : s.registry.meaning? ty = some P) (d : Dialect) (span : Span) :
    Agrees (fun (t : TypedExpr) (N : NamedExpr) => t.named? s = some N)
      (do
        let right ← s.coerce d r ty
        return TypedExpr.binary m l right (← s.program.getMethod m).result span)
      (do
        let right ← R.coerce d.conversions P
        return NamedExpr.binary k.method L right k.result span) := by
  obtain ⟨g, hg, -, -, hsig⟩ := callee?_eq_some_iff.1 hk
  obtain ⟨g', hg', -, hres⟩ := signatureOf?_eq_some_iff.1 hsig
  rw [hg] at hg'
  cases hg'
  refine (coerce_agrees hs hR hP d).seq fun r' R' hR' => ?_
  refine Agrees.bind_ok (Program.getMethod_eq hg) ?_
  show (TypedExpr.binary m l r' g.result span).named? s = some (.binary _ L R' _ span)
  rw [TypedExpr.named?, methodName?_of_callee? hk, hL, hR', hres]; rfl

/-- **An operator between two operands.** -/
theorem binary_agrees (h : s.Setting x g this j B) (op : BinaryOp) (hL : l.named? s = some L)
    (hR : r.named? s = some R) : Agrees (fun t N => t.named? s = some N)
      (s.binary x.dialect op l r span) (L.ofBinary x.body.interface op R span) := by
  have hs := h.sound
  obtain ⟨hA, -⟩ := TypedExpr.named?_facts hL
  obtain ⟨hB, -⟩ := TypedExpr.named?_facts hR
  obtain ⟨e, he⟩ := hs.entry_of_meaning? hA
  have hcand := h.represents.callees hs hA he op.symbol
  have htakers := hs.takers_callees hcand
  obtain ⟨hfind, -⟩ := find?_filter_eq htakers (p := fun q => decide (q.2 = r.ty))
    (q := fun q => decide (q.2 = R.ty)) fun q q' hq => by
      have hp := (Prod.mk.inj hq).2
      refine decide_eq_decide.2 ⟨fun heq => ?_, fun heq => hs.meaning?_injective hp (heq ▸ hB)⟩
      rw [heq, hB] at hp
      exact (Option.some.inj hp).symm
  obtain ⟨-, hfilter⟩ := find?_filter_eq htakers
    (p := fun q => s.registry.converts x.dialect.conversions r q.2)
    (q := fun q => R.converts (x.unit.interface x.dialect).conversions q.2) fun q q' hq =>
      converts_eq hs hR (Prod.mk.inj hq).2 _
  have herror : Agrees (fun (t : TypedExpr) (N : NamedExpr) => t.named? s = some N)
      (.error (⟨.operatorNotFound op.symbol (s.typeName l.ty) (some (s.typeName r.ty)), span⟩ :
        Diagnostic)) (.error ⟨.operatorNotFound op.symbol L.ty.text (some R.ty.text), span⟩) := by
    rw [typeName_eq hA, typeName_eq hB]
    exact .error
  unfold binary NamedExpr.ofBinary NamedExpr.choose? Context.body
  refine Agrees.bind_ok (candidates_eq he _) (Agrees.bind_ok
    (choose_eq x.dialect r (fun _ hm => hs.parameterTypes_of_candidate he hm) []) ?_)
  rw [List.nil_append]
  cases hf : (s.takers (e.candidates op.symbol)).find? fun q => decide (q.2 = r.ty) with
  | some q =>
    -- one that takes the operand as it is
    rw [hf] at hfind
    obtain ⟨q', hq', heq⟩ := Option.map_eq_some_iff.1 hfind.symm
    have hq : q.2 = r.ty := by simpa using List.find?_some hf
    have hexact : s.coerce x.dialect r q.2 = .ok r := if_pos hq.symm
    have hp := chosen_agrees hs hL hR (Prod.mk.inj heq).1.symm
      (Prod.mk.inj heq).2.symm x.dialect span
    rw [hexact] at hp
    simp only [hq']
    exact hp
  | none =>
    rw [hf] at hfind
    simp only [Option.map_eq_none_iff.1 hfind.symm]
    -- one that takes it after a conversion, if there is only one
    generalize (s.takers (e.candidates op.symbol)).filter
      (fun q => s.registry.converts x.dialect.conversions r q.2) = qs at hfilter ⊢
    generalize ((L.ty.callees (x.unit.interface x.dialect) op.symbol).filterMap
      fun k => k.parameter?.map fun P => (k, P)).filter
        (fun q => R.converts (x.unit.interface x.dialect).conversions q.2) = qs' at hfilter ⊢
    match qs, qs', hfilter with
    | [], [], _ => exact herror
    | [q], [q'], hq =>
      obtain ⟨hk, hP⟩ := Prod.mk.inj (List.cons.inj hq).1
      exact chosen_agrees hs hL hR hk hP x.dialect span
    | _ :: _ :: _, _ :: _ :: _, _ => exact herror
    | [_], _ :: _ :: _, hq => simp at hq
    | _ :: _ :: _, [_], hq => simp at hq

/-- The first of some members that takes no arguments. -/
theorem firstBare_callee {ms : List MethodId} {ks : List Callee}
    (h : ms.map s.callee? = ks.map some) : ∃ o, s.firstBare ms = .ok o ∧
      o.map s.callee? = (ks.find? fun k => k.method.parameters.isEmpty).map some := by
  obtain ⟨o, ho, hk, -⟩ := firstBare_eq (fun k : Callee => ⟨k.method.parameters, k.result⟩)
    (fun m k hk => (callee?_eq_some_iff.1 hk).choose_spec.2.2.2) h
  exact ⟨o, ho, hk⟩

/-- **An operator before its operand.** -/
theorem unary_agrees (h : s.Setting x g this j B) (op : UnaryOp) (hN : t.named? s = some N) :
    Agrees (fun t N => t.named? s = some N) (s.unary op t span)
      (N.ofUnary x.body.interface op span) := by
  have hs := h.sound
  obtain ⟨hT, -⟩ := TypedExpr.named?_facts hN
  obtain ⟨e, he⟩ := hs.entry_of_meaning? hT
  obtain ⟨o, ho, hk⟩ := firstBare_callee (h.represents.callees hs hT he op.symbol)
  unfold unary NamedExpr.ofUnary
  refine Agrees.bind_ok (candidates_eq he _) (Agrees.bind_ok ho ?_)
  cases o with
  | none =>
    have hnone := Option.map_eq_none_iff.1 hk.symm
    rw [show (N.ty.callees x.body.interface op.symbol).find? _ = none from hnone, typeName_eq hT]
    exact .error
  | some m =>
    obtain ⟨k, hk', hm⟩ := Option.map_eq_some_iff.1 hk.symm
    rw [show (N.ty.callees x.body.interface op.symbol).find? _ = some k from hk']
    obtain ⟨g', hg', -, -, hsig⟩ := callee?_eq_some_iff.1 hm.symm
    obtain ⟨g'', hg'', -, hres⟩ := signatureOf?_eq_some_iff.1 hsig
    rw [hg'] at hg''
    cases hg''
    refine Agrees.bind_ok (Program.getMethod_eq hg') ?_
    show (TypedExpr.unary m t g'.result span).named? s = some (.unary _ N _ span)
    rw [TypedExpr.named?, methodName?_of_callee? hm.symm, hN, hres]; rfl

end Resolver

end ClassLang
