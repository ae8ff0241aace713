import ClassLang.Proofs.ExprTyping

/-!
# Resolving statements decides whether they are in order

Inside a body, statements are resolved if and only if the type rules find them in order, and what they
become is well typed. A declared variable is bound in the innermost scope, and all other scopes stay as
they are. A block inside another one leaves all scopes as they are.

* `Stmt.Decided`, `Stmt.DecidedAll`, `Block.Decided`: what this says of a statement, of a body and of a
  block.
* `Stmt.Decided.assignment`, `Stmt.Decided.varInit` and the like: **one step for each form**, from its
  parts.
* `Stmt.resolve_leads`, `Stmt.resolveAll_leads`, `Block.resolveNested_leads`: so it holds of all of them.
-/

namespace ClassLang

variable {s : Resolver} {names : Bindings}

/-- What the names stand for after a statement is determined by the statement. -/
theorem StmtOk.unique {x : Context} {Γ Γ₁ Γ₂ : Blocks} {st : Stmt} (h₁ : StmtOk x Γ st Γ₁)
    (h₂ : StmtOk x Γ st Γ₂) : Γ₁ = Γ₂ := by
  cases h₁ <;> cases h₂ <;> simp_all

/-- An `if` without an `else` is in order if it is with an empty one. -/
theorem StmtOk.ifThen_iff {x : Context} {Γ Γ' : Blocks} {c : Expr} {yes : Block} {sp : Span} :
    StmtOk x Γ (.ifThen c yes sp) Γ' ↔ StmtOk x Γ (.ifElse c yes (.mk [] sp) sp) Γ' := by
  constructor
  · intro h
    cases h with
    | ifThen hc hyes => exact .ifElse hc hyes .nil
  · intro h
    cases h with
    | ifElse hc hyes _ => exact .ifThen hc hyes

namespace Resolver

variable {s s' : Resolver} {x : Context} {g : Method} {this : Option TypeId} {j : ScopeId}
  {Γ : Blocks} {names : Bindings} {span : Span} {a b t : TypedExpr} {A B T : Ty} {c : Conversions}

/-! ## Statements from their expressions -/

/-- **An assignment** needs a place and a value that fits. -/
theorem assignment_yields (hs : s.Sound) (ha : a.WellTyped c s.registry s.program this)
    (hb : b.WellTyped c s.registry s.program this) (hA : s.registry.meaning? a.ty = some A)
    (hB : s.registry.meaning? b.ty = some B) (result : TypeId) : Yields (s.assignment a b span)
      (fun st => st.WellTyped c s.registry s.program this result ∧ a.form = .place ∧ A = B)
      (Refused (a.form = .place ∧ A = B)) := by
  unfold assignment
  split
  · rename_i hp
    refine ⟨rfl, fun h => ?_⟩
    rw [TypedExpr.isPlace_iff.2 h.1] at hp
    cases hp
  · rename_i hp
    have hp : a.isPlace = true := by simpa using hp
    split
    · rename_i hty
      refine ⟨rfl, fun h => hty ?_⟩
      rw [← h.2] at hB
      exact hs.meaning?_injective hB hA
    · rename_i hty
      have hty : b.ty = a.ty := Decidable.not_not.1 hty
      rw [hty, hA] at hB
      cases hB
      exact ⟨.assignment ha hb hp hty, TypedExpr.isPlace_iff.1 hp, rfl⟩

theorem callStmt_yields (ht : t.WellTyped c s.registry s.program this) (result : TypeId) :
    Yields (s.callStmt t span)
      (fun st => st.WellTyped c s.registry s.program this result ∧ t.form = .call)
      (Refused (t.form = .call)) := by
  unfold callStmt
  split
  · rename_i hc; exact ⟨.call ht hc, TypedExpr.isCall_iff.1 hc⟩
  · rename_i hc; exact ⟨rfl, fun h => hc (TypedExpr.isCall_iff.2 h)⟩

theorem condition_yields (hs : s.Sound) (hT : s.registry.meaning? t.ty = some T) :
    Yields (s.condition t) (fun t' => t' = t ∧ t.ty = Native.boolean.id ∧ T = .native .boolean)
      (Refused (T = .native .boolean)) := by
  have hbool := Registry.meaning?_native hs.registry .boolean
  unfold condition
  split
  · rename_i hty
    rw [hty, hbool] at hT
    cases hT
    exact ⟨rfl, hty, rfl⟩
  · rename_i hty
    refine ⟨rfl, ?_⟩
    rintro rfl
    exact hty (hs.meaning?_injective hT hbool)

/-- The method gives nothing if and only if its result is the native type of nothing. -/
theorem Within.result_void_iff (hs : s.Sound) (hw : s.Within x g) :
    g.result = Native.void.id ↔ x.result = .native .void := by
  have hvoid := Registry.meaning?_native hs.registry .void
  have hres := hw.result
  constructor
  · intro h
    rw [h, hvoid] at hres
    exact (Option.some.inj hres).symm
  · intro h
    rw [h] at hres
    exact hs.meaning?_injective hres hvoid

theorem ret_none_yields (hs : s.Sound) (hw : s.Within x g) (c : Conversions)
    (this : Option TypeId) : Yields (s.ret g.result none span)
    (fun st => st.WellTyped c s.registry s.program this g.result ∧ x.result = .native .void)
    (Refused (x.result = .native .void)) := by
  have hvoid := hw.result_void_iff hs
  by_cases h : g.result = Native.void.id
  · simp only [ret, h, if_true, Option.isSome_none, Bool.false_eq_true, if_false]
    exact ⟨.ret rfl, hvoid.1 h⟩
  · have hne : ¬ Native.void.id = g.result := fun h' => h h'.symm
    simp only [ret, h, if_false, Option.map_none, Option.getD_none, ne_eq, hne, not_false_eq_true,
      decide_true, if_true]
    exact ⟨rfl, fun h' => h (hvoid.2 h')⟩

/-- A returned value fits the result. -/
theorem ret_some_yields (hs : s.Sound) (hw : s.Within x g)
    (ht : t.WellTyped c s.registry s.program this) (hT : s.registry.meaning? t.ty = some T) :
    Yields (s.ret g.result (some t) span)
      (fun st => st.WellTyped c s.registry s.program this g.result ∧ x.result ≠ .native .void ∧
        T = x.result)
      (Refused (x.result ≠ .native .void ∧ T = x.result)) := by
  have hvoid := hw.result_void_iff hs
  by_cases h : g.result = Native.void.id
  · simp only [ret, h, if_true, Option.isSome_some]
    exact ⟨rfl, fun h' => h'.1 (hvoid.1 h)⟩
  · by_cases hty : t.ty = g.result
    · simp only [ret, h, if_false, Option.map_some, Option.getD_some, hty, ne_eq, not_true_eq_false,
        decide_false, Bool.false_eq_true]
      rw [hty, hw.result] at hT
      cases hT
      exact ⟨.retValue h ht hty, fun h' => h (hvoid.2 h'), rfl⟩
    · simp only [ret, h, if_false, Option.map_some, Option.getD_some, ne_eq, hty,
        not_false_eq_true, decide_true, if_true]
      refine ⟨rfl, ?_⟩
      rintro ⟨-, rfl⟩
      exact hty (hs.meaning?_injective hT hw.result)

/-! ## Declared variables -/

/-- The innermost block as a scope. -/
theorem Setting.block (h : s.Setting x g this j (names :: Γ)) : ∃ sc p,
    s.program.scopeAt? j = some sc ∧ sc.kind = .block ∧ sc.parent = some p ∧ s.Matches sc names ∧
      s.Reads g.owner p Γ := by
  cases h.reads with
  | block hsc hk hp hm hr => exact ⟨_, _, hsc, hk, hp, hm, hr⟩

/-- A name is free in a block if and only if it is free in the scope. -/
theorem Setting.lookup_eq_none (h : s.Setting x g this j (names :: Γ)) {sc : Scope}
    (hsc : s.program.scopeAt? j = some sc) {n : String} :
    sc.vars[n]? = none ↔ names.lookup n = none := by
  obtain ⟨sc', -, hsc', -, -, hm, -⟩ := h.block
  rw [hsc] at hsc'
  cases hsc'
  exact hm.vars_eq_none h.sound hsc

/-- What surrounds a place after a variable has been bound there. -/
theorem Setting.bind (h : s.Setting x g this j (names :: Γ)) {sc : Scope} {n : String}
    {v : VariableId} {y : Variable} (hsc : s.program.scopeAt? j = some sc)
    (hf : Frame s s' none none (some j)) (hs' : s'.Sound) (hy : s'.program.varAt? v = some y)
    (hT : s'.registry.meaning? y.ty = some T) (hk : y.kind = .localVar)
    (hsc' : s'.program.scopeAt? j = some { sc with vars := sc.vars.insert n v }) :
    s'.Setting x g this j (((n, ⟨T, false⟩) :: names) :: Γ) := by
  obtain ⟨sc₀, p, hsc₀, hblock, hp, hm, hr⟩ := h.block
  rw [hsc] at hsc₀
  cases hsc₀
  have hx : s.Extends s' := hf.extends_of_block hsc hblock
  obtain ⟨m, -, hg⟩ := h.within.current
  have hlt := (h.sound.scopes j sc hsc).parent p hp
  refine ⟨hs', h.represents.mono hx h.sound hs',
    h.within.mono hx h.sound hs' hf.current fun _ _ hm => hf.keepsMethod hm,
    hf.toGrows.receiverType? (h.sound.methods m g hg) h.receiver, ?_, ?_⟩
  · refine .block hsc' hblock hp ?_ (hr.mono hf.toGrows h.sound hs' fun l sc' hl hsl => ?_)
    · have hnew := hm.insert (n := n) hf.toGrows h.sound hs' hsc hy hT
      rw [hk] at hnew
      exact hnew
    · exact hf.sameScopes l sc' hsl fun h => by cases h; omega
  · intro ns hns n' b hb hrec
    rcases List.mem_cons.1 hns with rfl | hns
    · rcases List.mem_cons.1 hb with hb | hb
      · cases hb; cases hrec
      · exact h.receivers names List.mem_cons_self n' b hb hrec
    · exact h.receivers ns (List.mem_cons_of_mem _ hns) n' b hb hrec

/-- What surrounds a place after a block inside has been entered. -/
theorem Setting.enter (h : s.Setting x g this j Γ) {l : ScopeId}
    (hf : Frame s s' none none none) (hs' : s'.Sound)
    (hl : s'.program.scopeAt? l = some (.empty .block (some j))) :
    s'.Setting x g this l ([] :: Γ) := by
  have h' := h.frame hf hs'
  refine { h' with reads := .block hl rfl rfl ?_ h'.reads, receivers := ?_ }
  · intro n; simp [Scope.empty]
  · intro ns hns
    rcases List.mem_cons.1 hns with rfl | hns
    · intro _ _ hmem
      cases hmem
    · exact h.receivers ns hns

/-! ## What statements lead to -/

/-- The statement `st` has been resolved in the scope `j`, and what is left of it is `o`. -/
structure ResolvedStmt (s s' : Resolver) (x : Context) (g : Method) (this : Option TypeId)
    (j : ScopeId) (names : Bindings) (Γ : Blocks) (st : Stmt) (o : Option TypedStmt) : Prop where
  after : ∃ names', StmtOk x (names :: Γ) st (names' :: Γ) ∧ s'.Setting x g this j (names' :: Γ)
  typed : ∀ t, o = some t →
    t.WellTyped x.dialect.conversions s'.registry s'.program this g.result
  frame : Frame s s' none none (some j)

/-- Statements have been resolved in the scope `j`. -/
structure ResolvedBody (s s' : Resolver) (x : Context) (g : Method) (this : Option TypeId)
    (j : ScopeId) (Γ : Blocks) (body : List Stmt) (ts : List TypedStmt) : Prop where
  ok : BodyOk x Γ body
  typed : ∀ t ∈ ts, t.WellTyped x.dialect.conversions s'.registry s'.program this g.result
  frame : Frame s s' none none (some j)
  sound : s'.Sound

/-- A block has been resolved in a scope of its own. -/
structure ResolvedBlock (s s' : Resolver) (x : Context) (g : Method) (this : Option TypeId)
    (Γ : Blocks) (body : List Stmt) (b : TypedBlock) : Prop where
  ok : BodyOk x ([] :: Γ) body
  typed : b.WellTyped x.dialect.conversions s'.registry s'.program this g.result
  frame : Frame s s' none none none
  sound : s'.Sound

/-- A statement that declares nothing. -/
theorem Setting.resolvedStmt (h : s.Setting x g this j (names :: Γ))
    (hf : Frame s s' none none none) (hs' : s'.Sound) {st : Stmt} {t : TypedStmt}
    (hok : StmtOk x (names :: Γ) st (names :: Γ))
    (ht : t.WellTyped x.dialect.conversions s'.registry s'.program this g.result) :
    s.ResolvedStmt s' x g this j names Γ st (some t) where
  after := ⟨names, hok, h.frame hf hs'⟩
  typed := by rintro _ ⟨⟩; exact ht
  frame := hf.weaken (.inl rfl) (.inl rfl) (.inl rfl)

end Resolver

open Resolver Resolve

/-- **Resolving decides whether a statement is in order**, in the block it stands in. -/
def Stmt.Decided (x : Context) (g : Method) (this : Option TypeId) (st : Stmt) : Prop :=
  ∀ ⦃s : Resolver⦄ ⦃names : Bindings⦄ ⦃Γ : Blocks⦄ ⦃j : ScopeId⦄,
    s.Setting x g this j (names :: Γ) →
    Leads (st.resolve x.dialect j) s (fun o s' => s.ResolvedStmt s' x g this j names Γ st o)
      (Refused (∃ Γ', StmtOk x (names :: Γ) st Γ'))

/-- **Resolving decides whether statements are in order**, one after the other. -/
def Stmt.DecidedAll (x : Context) (g : Method) (this : Option TypeId) (body : List Stmt) : Prop :=
  ∀ ⦃s : Resolver⦄ ⦃names : Bindings⦄ ⦃Γ : Blocks⦄ ⦃j : ScopeId⦄,
    s.Setting x g this j (names :: Γ) →
    Leads (Stmt.resolveAll x.dialect j body) s
      (fun ts s' => s.ResolvedBody s' x g this j (names :: Γ) body ts)
      (Refused (BodyOk x (names :: Γ) body))

/-- **Resolving decides whether a block is in order**, in a scope of its own. -/
def Block.Decided (x : Context) (g : Method) (this : Option TypeId) (b : Block) : Prop :=
  ∀ ⦃s : Resolver⦄ ⦃Γ : Blocks⦄ ⦃j : ScopeId⦄, s.Setting x g this j Γ →
    Leads (b.resolveNested x.dialect j) s
      (fun tb s' => s.ResolvedBlock s' x g this Γ b.body tb) (Refused (BodyOk x ([] :: Γ) b.body))

variable {x : Context} {g : Method} {this : Option TypeId} {j : ScopeId} {Γ : Blocks}

/-! ## Parts that are resolved first -/

section Parts

variable {s : Resolver} {P : Prop} {β : Type} {R : β → Resolver → Prop}

theorem Expr.resolveCondition_seq (e : Expr) {k : TypedExpr → Resolve β}
    (h : s.Setting x g this j Γ) (hP : P → ∃ f, HasType x Γ e f (.native .boolean))
    (hk : ∀ t s', s.Resolved s' x this Γ e t → t.ty = Native.boolean.id →
      HasType x Γ e t.form (.native .boolean) → s'.Setting x g this j Γ →
      Leads (k t) s' R (Refused P)) :
    Leads (e.resolveCondition x.dialect j >>= k) s R (Refused P) := by
  unfold Expr.resolveCondition
  rw [bind_assoc]
  refine e.decided.seq h (fun hp => ?_) fun t s₁ ht h₁ => ?_
  · obtain ⟨f, hf⟩ := hP hp
    exact ⟨f, _, hf⟩
  obtain ⟨T, hT, he⟩ := ht.hasType
  refine ask_seq_imp (condition_yields ht.sound hT) (fun _ hf => hf.imp fun hp => ?_) ?_
  · obtain ⟨f, hf⟩ := hP hp
    exact (he.unique hf).2
  rintro _ ⟨rfl, hty, rfl⟩
  exact hk _ s₁ ht hty he h₁

theorem Expr.resolveOptional_seq (e : Expr) {k : Option TypedExpr → Resolve β}
    (h : s.Setting x g this j Γ) (hP : P → Expr.Typable x Γ e)
    (hk : ∀ t s', s.Resolved s' x this Γ e t → s'.Setting x g this j Γ →
      Leads (k (some t)) s' R (Refused P)) :
    Leads (Expr.resolveOptional x.dialect j (some e) >>= k) s R (Refused P) := by
  refine Leads.seq_imp (Leads.map ((e.resolve_leads h).post fun t _ ht => ⟨t, rfl, ht⟩))
    (Q := fun o s' => ∃ t, o = some t ∧ s.Resolved s' x this Γ e t) (fun _ hf => hf.imp hP) ?_
  rintro _ s' ⟨t, rfl, ht⟩
  exact hk t s' ht (h.frame ht.frame ht.sound)

theorem Resolver.Setting.currentMethod_seq {k : Method → Resolve β} (h : s.Setting x g this j Γ)
    (hk : Leads (k g) s R (Refused P)) : Leads (ask currentMethod >>= k) s R (Refused P) := by
  refine ask_sure (Q := fun m => g = m) ?_ ?_
  · rw [h.within.currentMethod]
    exact Yields.ok rfl
  · rintro _ rfl
    exact hk

theorem Block.Decided.seq {b : Block} (hb : b.Decided x g this) {k : TypedBlock → Resolve β}
    (h : s.Setting x g this j Γ) (hP : P → BodyOk x ([] :: Γ) b.body)
    (hk : ∀ tb s', s.ResolvedBlock s' x g this Γ b.body tb → s'.Setting x g this j Γ →
      Leads (k tb) s' R (Refused P)) :
    Leads (b.resolveNested x.dialect j >>= k) s R (Refused P) := by
  refine Leads.seq_imp (hb h) (fun _ hf => hf.imp hP) ?_
  intro tb s' htb
  exact hk tb s' htb (h.frame htb.frame htb.sound)

end Parts

/-- **Declaring a variable** fails only if the block binds the name. -/
theorem Resolver.Setting.bindLocal_leads {sc : Scope} {ty : TypeId} {T : Ty} {n : String}
    (h : s.Setting x g this j (names :: Γ)) (hsc : s.program.scopeAt? j = some sc)
    (hT : s.registry.meaning? ty = some T) (sp : Span) :
    Leads (bindVariable j n ty .localVar sp) s
      (fun v s' => Frame s s' none none (some j) ∧
        s'.Setting x g this j (((n, ⟨T, false⟩) :: names) :: Γ) ∧ names.lookup n = none ∧
        (∀ sp', (TypedExpr.var v ty sp').WellTyped x.dialect.conversions s'.registry s'.program
          this) ∧ s'.registry.meaning? ty = some T)
      (Refused (names.lookup n = none)) := by
  obtain ⟨sc', -, hsc', hk, -⟩ := h.block
  rw [hsc] at hsc'
  cases hsc'
  have hok : VarOk s ⟨n, ty, .localVar, none, sp⟩ :=
    ⟨Registry.has_of_meaning? h.sound.registry hT, nofun⟩
  refine (bindVariable_leads h.sound hsc hok (by rw [hk]; nofun)).imp ?_
    fun _ hf => hf.imp (h.lookup_eq_none hsc).2
  rintro v s' ⟨hf, hs', hn, -, hv, hsc', hr⟩
  rw [← hr] at hT
  exact ⟨hf, h.bind hsc hf hs' hv hT rfl hsc', (h.lookup_eq_none hsc).1 hn,
    fun sp' => .var hv (.inl rfl), hT⟩

/-! ## Bodies and blocks -/

theorem Stmt.DecidedAll.nil : DecidedAll x g this [] := by
  intro s names Γ j h
  rw [Stmt.resolveAll]
  exact Leads.pure ⟨.nil, fun _ hst => absurd hst List.not_mem_nil, .refl s none none _, h.sound⟩

theorem Stmt.DecidedAll.cons {st : Stmt} {rest : List Stmt} (hst : st.Decided x g this)
    (hrest : DecidedAll x g this rest) : DecidedAll x g this (st :: rest) := by
  intro s names Γ j h
  rw [Stmt.resolveAll]
  refine Leads.seq_imp (hst h) (fun _ hf => hf.imp ?_) ?_
  · rintro (_ | ⟨hst, _⟩)
    exact ⟨_, hst⟩
  intro o s₁ ho
  obtain ⟨names', hok, h₁⟩ := ho.after
  refine Leads.seq_imp (hrest h₁) (fun _ hf => hf.imp ?_) ?_
  · rintro (_ | ⟨hok', hrest⟩)
    rw [hok.unique hok']
    exact hrest
  intro ts s₂ hts
  refine Leads.pure ⟨.cons hok hts.ok, fun t ht => ?_, ho.frame.trans hts.frame, hts.sound⟩
  rcases List.mem_append.1 ht with ht | ht
  · obtain ⟨sc, -, hsc, hk, -⟩ := h₁.block
    exact (ho.typed t (Option.mem_toList.1 ht)).mono (hts.frame.extends_of_block hsc hk)
  · exact hts.typed t ht

/-- The statements of a block are resolved in a new scope. -/
theorem Stmt.DecidedAll.block {body : List Stmt} {sp : Span} (hbody : DecidedAll x g this body) :
    (Block.mk body sp).Decided x g this := by
  intro s Γ j h
  rw [Block.resolveNested]
  obtain ⟨sc, hsc⟩ := h.scope
  refine (pushScope_leads h.sound hsc).sure_seq ?_
  rintro l s₁ ⟨hf, hs₁, hnew, -, hl⟩
  refine Leads.seq (hbody (h.enter hf hs₁ hl)) ?_
  intro ts s₂ hts
  obtain ⟨sl, hsl, hgrows⟩ := hts.frame.scopes l _ hl
  exact Leads.pure ⟨hts.ok, .mk hsl hgrows.kind hts.typed, hf.trans_inner hnew hts.frame, hts.sound⟩

/-! ## One step for each form -/

namespace Stmt.Decided

variable {a b c e : Expr} {type : TypeName} {yes no body : Block} {n : String} {sp : Span}

theorem expression : (Stmt.expression e sp).Decided x g this := by
  intro s names Γ j h
  rw [Stmt.resolve]
  refine e.decided.seq h ?_ fun t s₁ ht h₁ => ?_
  · rintro ⟨Γ', hst⟩
    cases hst with
    | expression he => exact ⟨_, _, he⟩
  obtain ⟨T, hT, he⟩ := ht.hasType
  refine Leads.map (ask_leads ((callStmt_yields ht.typed g.result).imp ?_ fun _ hf => hf.imp ?_))
  · rintro st ⟨hst, hform⟩
    exact h.resolvedStmt ht.frame ht.sound (.expression (hform ▸ he)) hst
  · rintro ⟨Γ', hst⟩
    cases hst with
    | expression he' => exact (he.unique he').1

theorem assignment : (Stmt.assignment a b sp).Decided x g this := by
  intro s names Γ j h
  rw [Stmt.resolve]
  refine a.decided.seq h ?_ fun ta s₁ hta h₁ => b.decided.seq h₁ ?_ fun tb s₂ htb h₂ => ?_
  · rintro ⟨Γ', hst⟩
    cases hst with
    | assignment ha _ => exact ⟨_, _, ha⟩
  · rintro ⟨Γ', hst⟩
    cases hst with
    | assignment _ hb => exact ⟨_, _, hb⟩
  have hta₂ := hta.toAnswers.mono htb.frame.extends_of_none hta.sound htb.sound
  obtain ⟨A, hA, ha⟩ := hta₂.hasType
  obtain ⟨B, hB, hb⟩ := htb.hasType
  refine Leads.map (ask_leads ((assignment_yields htb.sound hta₂.typed htb.typed hA hB
    g.result).imp ?_ fun _ hf => hf.imp ?_))
  · rintro st ⟨hst, hform, rfl⟩
    exact h.resolvedStmt (hta.frame.trans htb.frame) htb.sound (.assignment (hform ▸ ha) hb) hst
  · rintro ⟨Γ', hst⟩
    cases hst with
    | assignment ha' hb' =>
      obtain ⟨hform, rfl⟩ := ha.unique ha'
      exact ⟨hform, (hb.unique hb').2.symm⟩

theorem ret : (Stmt.ret none sp).Decided x g this := by
  intro s names Γ j h
  rw [Stmt.resolve]
  refine h.currentMethod_seq (Leads.map (ask_leads ((ret_none_yields h.sound h.within
    x.dialect.conversions this).imp ?_ fun _ hf => hf.imp ?_)))
  · rintro st ⟨hst, hres⟩
    exact h.resolvedStmt (.refl s none none none) h.sound (.ret hres) hst
  · rintro ⟨Γ', hst⟩
    cases hst with
    | ret hres => exact hres

theorem retValue : (Stmt.ret (some e) sp).Decided x g this := by
  intro s names Γ j h
  rw [Stmt.resolve]
  refine h.currentMethod_seq (e.resolveOptional_seq h ?_ fun t s₁ ht h₁ => ?_)
  · rintro ⟨Γ', hst⟩
    cases hst with
    | retValue _ he => exact ⟨_, _, he⟩
  obtain ⟨T, hT, he⟩ := ht.hasType
  refine Leads.map (ask_leads ((ret_some_yields h₁.sound h₁.within ht.typed hT).imp ?_
    fun _ hf => hf.imp ?_))
  · rintro st ⟨hst, hne, rfl⟩
    exact h.resolvedStmt ht.frame ht.sound (.retValue hne he) hst
  · rintro ⟨Γ', hst⟩
    cases hst with
    | retValue hne he' => exact ⟨hne, (he.unique he').2⟩

theorem varDecl : (Stmt.varDecl n type none sp).Decided x g this := by
  intro s names Γ j h
  rw [Stmt.resolve]
  refine type.resolve_seq h ?_ fun ty T s₁ htype hT hf₁ h₁ => ?_
  · rintro ⟨Γ', hst⟩
    cases hst with
    | varDecl htype _ => rw [htype]; rfl
  obtain ⟨sc, -, hsc, -⟩ := h₁.block
  refine (h₁.bindLocal_leads hsc hT sp).seq_imp (fun _ hf => hf.imp ?_) ?_
  · rintro ⟨Γ', hst⟩
    cases hst with
    | varDecl _ hn => exact hn
  rintro v s₂ ⟨hf₂, h₂, hn, -, -⟩
  exact Leads.pure
    { after := ⟨_, .varDecl htype hn, h₂⟩
      typed := fun _ ht => absurd ht (Option.some_ne_none _).symm
      frame := (hf₁.weaken (.inl rfl) (.inl rfl) (.inl rfl)).trans hf₂ }

/-- The value of a variable is resolved outside the scope of its name. -/
theorem varInit : (Stmt.varDecl n type (some e) sp).Decided x g this := by
  intro s names Γ j h
  rw [Stmt.resolve]
  -- the value is resolved before the variable is bound
  refine type.resolve_seq h ?_ fun ty T s₁ htype hT hf₁ h₁ =>
    e.resolveOptional_seq h₁ ?_ fun t s₂ ht h₂ => ?_
  · rintro ⟨Γ', hst⟩
    cases hst with
    | varInit htype _ _ => rw [htype]; rfl
  · rintro ⟨Γ', hst⟩
    cases hst with
    | varInit _ he _ => exact ⟨_, _, he⟩
  obtain ⟨sc, -, hsc, hk, -⟩ := h₂.block
  have hT₂ := ht.frame.toGrows.meaning? h₁.sound.registry ht.sound.registry hT
  refine (h₂.bindLocal_leads hsc hT₂ sp).seq_imp (fun _ hf => hf.imp ?_) ?_
  · rintro ⟨Γ', hst⟩
    cases hst with
    | varInit _ _ hn => exact hn
  rintro v s₃ ⟨hf₃, h₃, hn, hv, hT₃⟩
  have ht₃ := ht.toAnswers.mono (hf₃.extends_of_block hsc hk) ht.sound h₃.sound
  obtain ⟨E, hE, he⟩ := ht₃.hasType
  refine Leads.map (ask_leads ((assignment_yields h₃.sound (hv sp) ht₃.typed hT₃ hE
    g.result).imp ?_ fun _ hf => hf.imp ?_))
  · rintro st ⟨hst, -, rfl⟩
    exact
      { after := ⟨_, .varInit htype he hn, h₃⟩
        typed := by rintro _ ⟨⟩; exact hst
        frame := ((hf₁.trans ht.frame).weaken (.inl rfl) (.inl rfl) (.inl rfl)).trans hf₃ }
  · rintro ⟨Γ', hst⟩
    cases hst with
    | varInit htype' he' _ =>
      rw [htype] at htype'
      cases htype'
      exact ⟨rfl, (he.unique he').2.symm⟩

/-- Each branch has a scope of its own. -/
theorem ifElse (hyes : yes.Decided x g this) (hno : no.Decided x g this) :
    (Stmt.ifElse c yes no sp).Decided x g this := by
  intro s names Γ j h
  obtain ⟨yes, sp₁⟩ := yes
  obtain ⟨no, sp₂⟩ := no
  rw [Stmt.resolve]
  refine c.resolveCondition_seq h ?_ fun t s₁ ht hty hc h₁ =>
    hyes.seq h₁ ?_ fun y s₂ hy h₂ => hno.seq h₂ ?_ fun z s₃ hz h₃ => ?_
  · rintro ⟨Γ', hst⟩
    cases hst with
    | ifElse hc _ _ => exact ⟨_, hc⟩
  · rintro ⟨Γ', hst⟩
    cases hst with
    | ifElse _ hyes _ => exact hyes
  · rintro ⟨Γ', hst⟩
    cases hst with
    | ifElse _ _ hno => exact hno
  have hx₂ := hz.frame.extends_of_none
  exact Leads.pure (h.resolvedStmt ((ht.frame.trans hy.frame).trans hz.frame) hz.sound
    (.ifElse hc hy.ok hz.ok)
    (.ifElse ((ht.typed.mono hy.frame.extends_of_none).mono hx₂) hty (hy.typed.mono hx₂) hz.typed))

theorem ifThen (hyes : yes.Decided x g this) : (Stmt.ifThen c yes sp).Decided x g this := by
  intro s names Γ j h
  rw [Stmt.resolve_ifThen]
  refine (ifElse hyes DecidedAll.nil.block h).imp (fun o s' ho => ?_) fun _ hf => hf.imp ?_
  · obtain ⟨names', hok, h'⟩ := ho.after
    exact { ho with after := ⟨names', StmtOk.ifThen_iff.2 hok, h'⟩ }
  · rintro ⟨Γ', hst⟩
    exact ⟨Γ', StmtOk.ifThen_iff.1 hst⟩

theorem whileDo (hbody : body.Decided x g this) : (Stmt.whileDo c body sp).Decided x g this := by
  intro s names Γ j h
  obtain ⟨body, sp₁⟩ := body
  rw [Stmt.resolve]
  refine c.resolveCondition_seq h ?_ fun t s₁ ht hty hc h₁ => hbody.seq h₁ ?_ fun b s₂ hb h₂ => ?_
  · rintro ⟨Γ', hst⟩
    cases hst with
    | whileDo hc _ => exact ⟨_, hc⟩
  · rintro ⟨Γ', hst⟩
    cases hst with
    | whileDo _ hbody => exact hbody
  exact Leads.pure (h.resolvedStmt (ht.frame.trans hb.frame) hb.sound (.whileDo hc hb.ok)
    (.whileDo (ht.typed.mono hb.frame.extends_of_none) hty hb.typed))

theorem nested (hbody : body.Decided x g this) : (Stmt.nested body).Decided x g this := by
  intro s names Γ j h
  obtain ⟨body, sp₁⟩ := body
  rw [Stmt.resolve]
  refine hbody.seq h ?_ fun b s₁ hb h₁ => ?_
  · rintro ⟨Γ', hst⟩
    cases hst with
    | nested hbody => exact hbody
  exact Leads.pure (h.resolvedStmt hb.frame hb.sound (.nested hb.ok) (.nested hb.typed))

end Stmt.Decided

/-! ## All statements -/

mutual

theorem Stmt.decided : (st : Stmt) → st.Decided x g this
  | .expression _ _ => .expression
  | .assignment _ _ _ => .assignment
  | .ret none _ => .ret
  | .ret (some _) _ => .retValue
  | .varDecl _ _ none _ => .varDecl
  | .varDecl _ _ (some _) _ => .varInit
  | .ifElse _ yes no _ => .ifElse (Block.decided yes) (Block.decided no)
  | .ifThen _ yes _ => .ifThen (Block.decided yes)
  | .whileDo _ body _ => .whileDo (Block.decided body)
  | .nested block => .nested (Block.decided block)

theorem Stmt.decidedAll : (body : List Stmt) → Stmt.DecidedAll x g this body
  | [] => .nil
  | st :: rest => .cons (Stmt.decided st) (Stmt.decidedAll rest)

theorem Block.decided : (b : Block) → b.Decided x g this
  | .mk body _ => (Stmt.decidedAll body).block

end

/-- **A statement is resolved if and only if it is in order.** -/
theorem Stmt.resolve_leads (st : Stmt) (h : s.Setting x g this j (names :: Γ)) :
    Leads (st.resolve x.dialect j) s (fun o s' => s.ResolvedStmt s' x g this j names Γ st o)
      (Refused (∃ Γ', StmtOk x (names :: Γ) st Γ')) :=
  st.decided h

/-- **Statements are resolved if and only if they are in order one after the other.** -/
theorem Stmt.resolveAll_leads (body : List Stmt) (h : s.Setting x g this j (names :: Γ)) :
    Leads (Stmt.resolveAll x.dialect j body) s
      (fun ts s' => s.ResolvedBody s' x g this j (names :: Γ) body ts)
      (Refused (BodyOk x (names :: Γ) body)) :=
  decidedAll body h

/-- **A block is resolved if and only if its statements are in order.** -/
theorem Block.resolveNested_leads (b : Block) (h : s.Setting x g this j Γ) :
    Leads (b.resolveNested x.dialect j) s
      (fun tb s' => s.ResolvedBlock s' x g this Γ b.body tb) (Refused (BodyOk x ([] :: Γ) b.body)) :=
  b.decided h

end ClassLang
