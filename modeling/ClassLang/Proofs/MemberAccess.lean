import ClassLang.Proofs.BodyStates
import ClassLang.Proofs.ClassTables

/-!
# Access to members with and without a receiver

In a method, a member of the class can be reached through the receiver, as `this.n`, or by its name
alone. The first way reads the tables of the class and the members of its type, the second the scopes
around. Since all tables agree, both ways give the same.

* `TypedExpr.eraseSpans`, `outcome`: what is compared, answers and faults without spans.
* `InClass`: what the two ways of access find in a method of a class.
* `InClass.call_agrees`, `InClass.member_agrees`: so they have the same outcome.
* `Inside.inClass`, `Visits.accessAgrees`: it holds wherever a body of a method of the class is resolved.
* `CompilationUnit.members_agree`: the tables of all classes agree, and so do both ways of access
  everywhere in the bodies.
-/

namespace ClassLang

open Resolver Resolve

/-! ## Outcomes without spans -/

mutual

/-- An expression without spans. -/
def TypedExpr.eraseSpans : TypedExpr → TypedExpr
  | .var v ty _ => .var v ty .nowhere
  | .field target f ty _ => .field target.eraseSpans f ty .nowhere
  | .call m args ty _ => .call m (TypedExpr.eraseAll args) ty .nowhere
  | .send target m args ty _ => .send target.eraseSpans m (TypedExpr.eraseAll args) ty .nowhere
  | .unary m e ty _ => .unary m e.eraseSpans ty .nowhere
  | .binary m a b ty _ => .binary m a.eraseSpans b.eraseSpans ty .nowhere
  | .addressOf e ty _ => .addressOf e.eraseSpans ty .nowhere
  | .arrayNew element size ty _ => .arrayNew element size.eraseSpans ty .nowhere
  | .index a i ty _ => .index a.eraseSpans i.eraseSpans ty .nowhere
  | .cast e implicit ty _ => .cast e.eraseSpans implicit ty .nowhere
  | .int value ty _ => .int value ty .nowhere
  | .bool value ty _ => .bool value ty .nowhere
  | .this ty _ => .this ty .nowhere

/-- Some expressions without spans. -/
def TypedExpr.eraseAll : List TypedExpr → List TypedExpr
  | [] => []
  | e :: es => e.eraseSpans :: TypedExpr.eraseAll es

end

/-- **How the resolution of an expression ends**, spans apart: with an expression or with a fault, and
in which state. -/
def outcome : EStateM.Result Diagnostic Resolver TypedExpr →
    EStateM.Result Cause Resolver TypedExpr
  | .ok t s => .ok t.eraseSpans s
  | .error f s => .error f.cause s

namespace Resolver

/-- Whether the arguments are as many as the method takes does not depend on spans. -/
theorem signature_cases (s : Resolver) (m : MethodId) (count : Nat) :
    (∃ q, ∀ span, s.signature m count span = .ok q) ∨
      ∃ cause, ∀ span, ∃ at', s.signature m count span = .error ⟨cause, at'⟩ := by
  unfold signature
  cases hps : s.program.parameterTypes m with
  | error f => exact .inr ⟨f.cause, fun _ => ⟨f.span, rfl⟩⟩
  | ok ps =>
    cases hg : s.program.getMethod m with
    | error f => exact .inr ⟨f.cause, fun _ => ⟨f.span, rfl⟩⟩
    | ok g =>
      by_cases hlen : ps.length = count
      · refine .inl ⟨(ps, g.result), fun span => ?_⟩
        show (if ps.length = count then _ else _) = _
        rw [if_pos hlen]
        rfl
      · refine .inr ⟨.wrongArgumentCount g.name ps.length count, fun span => ⟨span, ?_⟩⟩
        show (if ps.length = count then _ else _) = _
        rw [if_neg hlen]
        rfl

end Resolver

/-- A call of a method that has been found on a receiver that has been found. -/
def Expr.resolveOn (d : Dialect) (j : ScopeId) (target : TypedExpr) (m : MethodId) (args : List Expr)
    (span : Span) : Resolve TypedExpr := do
  let (parameters, result) ← ask fun s => s.signature m args.length span
  let args ← Expr.resolveArgs d j args parameters
  return .send target m args result span

/-- Where a call stands makes no difference to its outcome. -/
theorem Expr.resolveOn_outcome (d : Dialect) (j : ScopeId) (ty : TypeId) (m : MethodId)
    (args : List Expr) (sp sp₁ sp₂ : Span) (s : Resolver) :
    outcome (Expr.resolveOn d j (.this ty sp) m args sp₁ s) =
      outcome (Expr.resolveOn d j (.this ty sp₂) m args sp₂ s) := by
  rcases s.signature_cases m args.length with ⟨q, hsig⟩ | ⟨cause, hsig⟩
  · have hrest : ∀ sp sp', Expr.resolveOn d j (.this ty sp) m args sp' s =
        (Expr.resolveArgs d j args q.1 >>= fun ts => pure (.send (.this ty sp) m ts q.2 sp')) s :=
      fun _ sp' => ask_bind (hsig sp')
    rw [hrest, hrest]
    cases hargs : Expr.resolveArgs d j args q.1 s with
    | ok ts s' =>
      rw [bind_of_ok hargs, bind_of_ok hargs]
      show EStateM.Result.ok _ s' = .ok _ s'
      simp only [TypedExpr.eraseSpans]
    | error f s' => rw [bind_of_error hargs, bind_of_error hargs]
  · obtain ⟨at₁, h₁⟩ := hsig sp₁
    obtain ⟨at₂, h₂⟩ := hsig sp₂
    have herror₁ : Expr.resolveOn d j (.this ty sp) m args sp₁ s = .error ⟨cause, at₁⟩ s :=
      bind_of_error (ask_of_error h₁)
    have herror₂ : Expr.resolveOn d j (.this ty sp₂) m args sp₂ s = .error ⟨cause, at₂⟩ s :=
      bind_of_error (ask_of_error h₂)
    rw [herror₁, herror₂]
    rfl

namespace Resolver

variable {s : Resolver} {j : ScopeId} {n : String} {m : MethodId} {i : ClassInfo}

/-- **A name is shadowed** where it finds a local variable, an argument or a receiver. -/
def Shadows (s : Resolver) (j : ScopeId) (n : String) : Prop :=
  ∃ v x, s.scopes.findVariable? j n = some v ∧ s.program.varAt? v = some x ∧
    (x.kind = .localVar ∨ x.kind = .receiver ∨ ∃ index, x.kind = .argument index)

/-- **What both ways of access find** from the scope `j` in a method of the class `i`. -/
structure InClass (s : Resolver) (j : ScopeId) (i : ClassInfo) : Prop where
  receiver : ∀ span, s.receiver span = .ok (.this i.ty span)
  field : ∀ n : String, s.field? i.ty n = .ok i.fields[n]?
  used : ∀ (n : String) v, i.fields[n]? = some v → ∃ x, s.program.getVariable v = .ok x ∧
    ∀ span, s.useOf v span = .ok (.field (.this i.ty span) v x.ty span)
  candidate : ∀ (n : String) m, i.methods[n]? = some m → ∀ span,
    s.firstCandidate i.ty n span = .ok m
  implicit : ∀ (n : String) m, i.methods[n]? = some m → ∀ span,
    s.implicitReceiver m span = .ok (some (.this i.ty span))
  method : ∀ (n : String) m, i.methods[n]? = some m → s.scopes.findMethod? j n = some m
  found : ∀ n, ¬ s.Shadows j n → s.scopes.findVariable? j n = i.fields[n]?

/-- **A call on the receiver and a call by name** have the same outcome. -/
theorem InClass.call_agrees (h : s.InClass j i) (d : Dialect) (hm : i.methods[n]? = some m)
    (args : List Expr) (sp sp₁ sp₂ : Span) :
    outcome ((Expr.send (.this sp) n args sp₁).resolve d j s) =
      outcome ((Expr.call n args sp₂).resolve d j s) := by
  have hname : s.method j n sp₂ = .ok (m, some (.this i.ty sp₂)) := by
    unfold Resolver.method
    rw [h.method n m hm]
    show (s.implicitReceiver m sp₂ >>= _) = _
    rw [h.implicit n m hm sp₂]
    rfl
  -- both find the method and the receiver
  have hsend : (Expr.send (.this sp) n args sp₁).resolve d j s =
      Expr.resolveOn d j (.this i.ty sp) m args sp₁ s := by
    rw [Expr.resolve, Expr.resolve, ask_bind (h.receiver sp), ask_bind (h.candidate n m hm sp₁)]
    rfl
  have hcall : (Expr.call n args sp₂).resolve d j s =
      Expr.resolveOn d j (.this i.ty sp₂) m args sp₂ s := by
    rw [Expr.resolve, ask_bind hname]
    rfl
  rw [hsend, hcall]
  exact Expr.resolveOn_outcome d j i.ty m args sp sp₁ sp₂ s

/-- A call without arguments, up to spans. -/
theorem callBare_outcome (s : Resolver) (m : MethodId) (ty : TypeId) (sp sp₁ sp₂ : Span) :
    outcome (ask (fun _ => s.callBare m (some (.this ty sp)) sp₁) s) =
      outcome (ask (fun _ => s.callBare m (some (.this ty sp₂)) sp₂) s) := by
  rcases s.signature_cases m 0 with ⟨q, hsig⟩ | ⟨cause, hsig⟩
  · have hcall : ∀ sp sp', s.callBare m (some (.this ty sp)) sp' =
        .ok (.send (.this ty sp) m [] q.2 sp') := by
      intro sp sp'
      unfold callBare
      rw [hsig sp']
      rfl
    rw [ask_of_ok (hcall sp sp₁), ask_of_ok (hcall sp₂ sp₂)]
    show EStateM.Result.ok _ s = .ok _ s
    simp only [TypedExpr.eraseSpans]
  · have hcall : ∀ sp sp', ∃ at', s.callBare m (some (.this ty sp)) sp' = .error ⟨cause, at'⟩ := by
      intro sp sp'
      obtain ⟨at', hat⟩ := hsig sp'
      refine ⟨at', ?_⟩
      unfold callBare
      rw [hat]
      rfl
    obtain ⟨at₁, h₁⟩ := hcall sp sp₁
    obtain ⟨at₂, h₂⟩ := hcall sp₂ sp₂
    rw [ask_of_error h₁, ask_of_error h₂]
    rfl

/-- **A member of the receiver and a name alone** have the same outcome, unless the name is
shadowed. -/
theorem InClass.member_agrees (h : s.InClass j i) (d : Dialect)
    (hn : (i.fields[n]?).isSome = true ∨ (i.methods[n]?).isSome = true) (hfree : ¬ s.Shadows j n)
    (sp sp₁ sp₂ : Span) : outcome ((Expr.member (.this sp) n sp₁).resolve d j s) =
      outcome ((Expr.symbol n sp₂).resolve d j s) := by
  rw [Expr.resolve, Expr.resolve, Expr.resolve, ask_bind (h.receiver sp)]
  have hvariable := h.found n hfree
  cases hf : i.fields[n]? with
  | some v =>
    -- a field goes before a method on both sides
    obtain ⟨x, hx, huse⟩ := h.used n v hf
    have hmember : s.member (.this i.ty sp) n sp₁ = .ok (.field (.this i.ty sp) v x.ty sp₁) := by
      unfold member
      rw [TypedExpr.ty, h.field n, hf]
      show (s.program.getVariable v >>= _) = _
      rw [hx]
      rfl
    have hname : s.name j n sp₂ = .ok (.field (.this i.ty sp₂) v x.ty sp₂) := by
      unfold name
      rw [hvariable, hf]
      exact huse sp₂
    rw [ask_of_ok hmember, ask_of_ok hname]
    show EStateM.Result.ok _ s = .ok _ s
    simp only [TypedExpr.eraseSpans]
  | none =>
    rw [hf] at hn hvariable
    obtain ⟨m, hm⟩ := Option.isSome_iff_exists.1 (hn.resolve_left (by simp))
    have hmember : s.member (.this i.ty sp) n sp₁ = s.callBare m (some (.this i.ty sp)) sp₁ := by
      unfold member
      rw [TypedExpr.ty, h.field n, hf]
      show (s.firstCandidate i.ty n sp₁ >>= _) = _
      rw [h.candidate n m hm sp₁]
      rfl
    have hname : s.name j n sp₂ = s.callBare m (some (.this i.ty sp₂)) sp₂ := by
      unfold name
      rw [hvariable, h.method n m hm]
      show (s.implicitReceiver m sp₂ >>= _) = _
      rw [h.implicit n m hm sp₂]
      rfl
    rw [ask_of_eq hmember, ask_of_eq (f := fun s => s.name j n sp₂) hname]
    exact s.callBare_outcome m i.ty sp sp₁ sp₂

/-! ## Inside a method of a class -/

variable {x : Context} {g : Method} {this : Option TypeId} {B : Blocks} {M : Members}
  {Δ : List Locals} {c : ClassId} {v : VariableId}

/-- What blocks bind is bound by the scope of one of them. -/
theorem Nested.block_of_find? {o : Option ClassId} (h : s.Nested o j Δ)
    (hv : Locals.find? Δ n = some v) :
    ∃ k sc, s.program.scopeAt? k = some sc ∧ sc.kind = .block ∧ sc.vars[n]? = some v := by
  induction h with
  | home => cases hv
  | @block k p sc names Δ hsc hblock hp hm _ ih =>
    rw [Locals.find?, List.findSome?_cons] at hv
    cases hn : names.lookup n with
    | some w =>
      rw [hn] at hv
      cases hv
      exact ⟨k, sc, hsc, hblock, (hm n).trans hn⟩
    | none =>
      rw [hn] at hv
      exact ih hv

/-- What blocks bind shadows. -/
theorem Inside.shadows (h : s.Inside x g this j B M Δ) (hv : Locals.find? Δ n = some v) :
    s.Shadows j n := by
  obtain ⟨k, sc, hsc, hblock, hvar⟩ := h.nested.block_of_find? hv
  obtain ⟨y, hy, hbinds⟩ := (h.setting.sound.scopes k sc hsc).var n v hvar
  refine ⟨v, y, ?_, hy, ?_⟩
  · rw [h.findVariable? n, hv]
    rfl
  · rw [hblock] at hbinds
    cases hk : y.kind with
    | localVar => exact .inl rfl
    | receiver => exact .inr (.inl rfl)
    | argument index => exact .inr (.inr ⟨index, rfl⟩)
    | field c index => exact absurd hk (hbinds c index)

/-- The receiver of a method of a class has the type of the class. -/
theorem Setting.receiver_eq (h : s.Setting x g this j B) (ho : g.owner = some c)
    (hi : s.program.classAt? c = some i) (span : Span) :
    s.receiver span = .ok (.this i.ty span) := by
  obtain ⟨l, -, hg⟩ := h.within.current
  have hsome := h.within.receiver
  rw [ho] at hsome
  obtain ⟨v, hv⟩ := Option.isSome_iff_exists.1 hsome
  obtain ⟨c', i', y, ho', hi', hy, hty⟩ := (h.sound.methods l g hg).receiver v hv
  rw [ho] at ho'
  cases ho'
  rw [hi] at hi'
  cases hi'
  apply Yields.eq_ok
  unfold Resolver.receiver
  refine Yields.bind_ok h.within.currentMethod ?_
  rw [hv]
  refine Yields.bind_ok (Program.getVariable_eq hy) ?_
  rw [hty]
  exact Yields.pure rfl

/-- A field of the class is used on the receiver, -/
theorem Setting.useOf_field (h : s.Setting x g this j B) (ho : g.owner = some c)
    (hi : s.program.classAt? c = some i) (hv : i.fields[n]? = some v) :
    ∃ y, s.program.getVariable v = .ok y ∧
      ∀ span, s.useOf v span = .ok (.field (.this i.ty span) v y.ty span) := by
  obtain ⟨y, k, hy, hk⟩ := (h.sound.classes c i hi).field n v hv
  refine ⟨y, Program.getVariable_eq hy, fun span => ?_⟩
  apply Yields.eq_ok
  unfold useOf
  refine Yields.bind_ok (Program.getVariable_eq hy) ?_
  rw [hk]
  refine Yields.bind_ok (h.receiver_eq ho hi span) ?_
  exact Yields.pure rfl

/-- and so is a method. -/
theorem Setting.implicitReceiver_eq (h : s.Setting x g this j B) (ho : g.owner = some c)
    (hi : s.program.classAt? c = some i) (hm : i.methods[n]? = some m) (span : Span) :
    s.implicitReceiver m span = .ok (some (.this i.ty span)) := by
  obtain ⟨f, hf, hof⟩ := (h.sound.classes c i hi).method n m hm
  apply Yields.eq_ok
  unfold implicitReceiver
  refine Yields.bind_ok (Program.getMethod_eq hf) ?_
  rw [hof]
  show Yields (some <$> s.receiver span) _ _
  rw [h.receiver_eq ho hi span]
  exact Yields.ok rfl

/-- The fields of the type of a class are those of the class, -/
theorem Sound.field?_of_class (hs : s.Sound) (hi : s.program.classAt? c = some i)
    (n : String) : s.field? i.ty n = .ok i.fields[n]? := by
  have hclass : s.registry.classOf? i.ty = some c := by
    unfold Registry.classOf?
    rw [(hs.classes c i hi).kind]
  unfold field?
  rw [hclass]
  show (s.program.getClass c >>= _) = _
  rw [Program.getClass_eq hi]
  rfl

/-- and so are the methods. -/
theorem Represents.candidates_of_class {d : Dialect} {u : CompilationUnit}
    (h : s.Represents d u) (hs : s.Sound) (ht : s.Tabled) (hi : s.program.classAt? c = some i)
    (n : String) : s.candidates i.ty n = .ok (i.methods[n]?).toList := by
  obtain ⟨e, he, -⟩ := (hs.classes c i hi).entry
  obtain ⟨sc, hsc, -⟩ := (hs.classes c i hi).scope
  obtain ⟨decl, -, hholds⟩ := h.classes c i hi
  rw [candidates_eq he, hholds.members sc e hsc he, ht.members c i sc hi hsc]

/-- The members around a method are those of its class. -/
theorem Inside.members_of_class (h : s.Inside x g this j B M Δ) (ho : g.owner = some c)
    (hi : s.program.classAt? c = some i) (n : String) :
    M.field? n = i.fields[n]? ∧ M.method? n = i.methods[n]? := by
  have hclass : (some c).bind s.program.classAt? = some i := hi
  rw [← h.members, ho]
  unfold Program.members
  rw [hclass]
  exact ⟨rfl, rfl⟩

/-- **In a method of a class** both ways of access find the same. -/
theorem Inside.inClass (h : s.Inside x g this j B M Δ) (ho : g.owner = some c)
    (hi : s.program.classAt? c = some i) : s.InClass j i where
  receiver span := h.setting.receiver_eq ho hi span
  field n := h.setting.sound.field?_of_class hi n
  used n v hv := h.setting.useOf_field ho hi hv
  candidate n m hm span := by
    have hcandidates := h.setting.represents.candidates_of_class h.setting.sound h.tabled hi n
    apply Yields.eq_ok
    unfold firstCandidate
    refine Yields.bind_ok hcandidates ?_
    rw [hm]
    exact Yields.pure rfl
  implicit n m hm span := h.setting.implicitReceiver_eq ho hi hm span
  method n m hm := by
    rw [h.findMethod? n, (h.members_of_class ho hi n).2, hm]
    rfl
  found n hfree := by
    rw [h.findVariable? n]
    cases hv : Locals.find? Δ n with
    | some v => exact absurd (h.shadows hv) hfree
    | none => exact (h.members_of_class ho hi n).1

/-- **Both ways of access to the members of the class `i` agree** in the scope `j`. -/
structure AccessAgrees (s : Resolver) (d : Dialect) (j : ScopeId) (i : ClassInfo) : Prop where
  call : ∀ n : String, (i.methods[n]?).isSome = true → ∀ args sp sp₁ sp₂,
    outcome ((Expr.send (.this sp) n args sp₁).resolve d j s) =
      outcome ((Expr.call n args sp₂).resolve d j s)
  member : ∀ n : String, ((i.fields[n]?).isSome = true ∨ (i.methods[n]?).isSome = true) →
    ¬ s.Shadows j n → ∀ sp sp₁ sp₂,
    outcome ((Expr.member (.this sp) n sp₁).resolve d j s) =
      outcome ((Expr.symbol n sp₂).resolve d j s)

theorem InClass.accessAgrees (h : s.InClass j i) (d : Dialect) : s.AccessAgrees d j i where
  call n hn args sp sp₁ sp₂ := by
    obtain ⟨m, hm⟩ := Option.isSome_iff_exists.1 hn
    exact h.call_agrees d hm args sp sp₁ sp₂
  member n hn hfree sp sp₁ sp₂ := h.member_agrees d hn hfree sp sp₁ sp₂

end Resolver

namespace CompilationUnit

variable {s s₀ : Resolver} {d : Dialect} {u : CompilationUnit} {l : MethodId} {j : ScopeId}
  {bodies : List (MethodId × MethodDecl)} {classes : List NamedClass}

/-- **In a method of a class, wherever in its body**, both ways of access agree. -/
theorem Visits.accessAgrees {s₁ : Resolver} {Ns : List NamedMethod} {g : Method} {c : ClassId}
    {i : ClassInfo} (h : u.Visits d l s j) (hstaged : Staged s₀ s₁ d u bodies classes Ns)
    (hrun : readSignatures d u .initial = .ok bodies s₀) (hg : s₁.program.methodAt? l = some g)
    (ho : g.owner = some c) (hi : s₁.program.classAt? c = some i) : s.AccessAgrees d j i := by
  have hbody := h.inBody hrun hstaged.signed hstaged.readied
  have hkept := hstaged.laid.read.kept
  -- neither classes nor the owners of methods change while bodies are resolved
  have hclass : s.program.classAt? c = some i := by
    rw [hbody.kept.classAt?_eq, ← hkept.classAt?_eq]
    exact hi
  obtain ⟨g₀, hg₀⟩ := hbody.known
  have howner : g₀.owner = some c := by
    obtain ⟨b, hb⟩ := hkept.methods l g₀ hg₀
    rw [hg] at hb
    cases hb
    exact ho
  obtain ⟨b, hb⟩ := hbody.kept.methods l g₀ hg₀
  obtain ⟨x, g', this, bs, B, M, names, Δ, -, hin⟩ := hbody.inside
  obtain ⟨l', hl', hg'⟩ := hin.setting.within.current
  rw [hbody.current] at hl'
  cases hl'
  rw [hb] at hg'
  cases hg'
  exact (hin.inClass howner hclass).accessAgrees d

/-- **The members of all classes agree**: the tables of each class, and both ways of access in its
methods. -/
structure MembersAgree (d : Dialect) (u : CompilationUnit) (r : Registry) (p : Program) : Prop where
  tables : ∀ c i, p.classAt? c = some i → ∃ decl, p.ClassAgrees r d u c i decl
  /-- Every class and every function of the source is there. -/
  declared : ∀ decl ∈ u.classes, ∃ c i, p.classAt? c = some i ∧ p.ClassAgrees r d u c i decl
  functions : ∀ m ∈ u.functions, ∃ l, p.functions[m.name]? = some l ∧ p.DeclaredOnce none m l
  /-- A method of a class is visited in each of its scopes, and wherever it is visited, both ways of
  access agree. -/
  access : ∀ c i l g, p.classAt? c = some i → p.methodAt? l = some g → g.owner = some c →
    g.scope.isSome = true ∧ (∀ k ∈ g.scopes, ∃ s, u.Visits d l s k) ∧
      ∀ s j, u.Visits d l s j → s.AccessAgrees d j i

/-- **Members are the same with and without a receiver.** In a unit that is resolved, the class itself,
its scope and its type have the same methods and fields, which are those that are declared. So a call
on the receiver has the outcome of a call by name alone anywhere in a method of the class, and a member
of the receiver that of its name, unless that is shadowed. -/
theorem members_agree {r : Registry} {p : Program} (h : u.resolve d = .ok (r, p)) :
    u.MembersAgree d r p := by
  obtain ⟨s₀, s₁, bodies, classes, Ns, hstaged, rfl, rfl, hrun, hbodies⟩ := staged_of_resolve h
  refine ⟨fun c i hi => hstaged.classAgrees h hi, fun decl hdecl => ?_,
    fun m hm => hstaged.functionAgrees h hm, fun c i l g hi hg ho => ?_⟩
  · obtain ⟨c, i, hi, hnamed⟩ := hstaged.class_entered hdecl
    obtain ⟨decl', hagrees⟩ := hstaged.classAgrees h hi
    have hsame : decl' = decl := Option.some.inj (hagrees.named.symm.trans hnamed)
    subst hsame
    exact ⟨c, i, hi, hagrees⟩
  · have hvisits := (resolveBodies_visits hstaged.signed hstaged.readied hrun).of_ok hbodies
    rcases hstaged.method_cases hg with ⟨-, b, hb, rfl, -, -, k, -, -, hk, -⟩ | ⟨hop, -⟩
    · refine ⟨by rw [hk]; rfl, hvisits b hb g hg, fun s j hv => ?_⟩
      exact hv.accessAgrees hstaged hrun hg ho hi
    · -- an operator has no owner
      rw [hstaged.laid.read.bodied.sound.isOperator_of_owner hg ho] at hop
      cases hop

end CompilationUnit

theorem Shadow.members_agree_in_method : ∃ r p i l s j, Shadow.unit.resolve .standard = .ok (r, p) ∧
    Shadow.unit.MembersAgree .standard r p ∧ (i.fields["x"]?).isSome = true ∧
    (i.methods["g"]?).isSome = true ∧ i.methods["f"]? = some l ∧
    Shadow.unit.Visits .standard l s j ∧ s.AccessAgrees .standard j i := by
  obtain ⟨⟨r, p⟩, h⟩ := exists_ok Shadow.resolve_isOk
  have hagree := CompilationUnit.members_agree h
  have hclass : ∃ decl ∈ Shadow.unit.classes, (∃ m ∈ decl.methods, m.name = "f") ∧
      (∃ m ∈ decl.methods, m.name = "g") ∧ decl.fields[0]?.map FieldDecl.name = some "x" := by
    decide +kernel
  obtain ⟨decl, hdecl, ⟨f, hf, hfname⟩, ⟨g, hg, hgname⟩, hx⟩ := hclass
  obtain ⟨c, i, hi, htables⟩ := hagree.declared decl hdecl
  obtain ⟨l, hl, hentered⟩ := htables.methods f hf
  obtain ⟨l', hl', -⟩ := htables.methods g hg
  obtain ⟨x, hx, hxname⟩ := Option.map_eq_some_iff.1 hx
  obtain ⟨v, -, -, -, -, -, -, -, -, hv⟩ := htables.order.2 0 x hx
  obtain ⟨f', hf', ho, -⟩ := hentered.entered
  obtain ⟨hscope, hvisited, haccess⟩ := hagree.access c i l f' hi hf' ho
  obtain ⟨j, hj⟩ := Option.isSome_iff_exists.1 hscope
  obtain ⟨s, hvisits⟩ := hvisited j (by rw [Method.scopes, hj]; exact List.mem_cons_self)
  rw [hfname] at hl
  rw [hgname] at hl'
  rw [hxname] at hv
  exact ⟨r, p, i, l, s, j, h, hagree, by rw [hv]; rfl, by rw [hl']; rfl, hl, hvisits,
    haccess s j hvisits⟩

end ClassLang
