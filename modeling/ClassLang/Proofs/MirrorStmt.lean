import ClassLang.Proofs.MirrorExpr

/-!
# Resolving a body mirrors its elaboration

Inside a body, statements become what their elaboration gives, without the numbers, or both find the
same fault. A declared variable is added in front of what its block binds.

* `Resolver.Stage.bind`, `Resolver.Stage.enter`: where a body has got to after a declaration, and at
  the start of a block.
* `Stmt.Mirrored`, `Stmt.MirroredAll`, `Block.Mirrored`: what is to be shown of statements and blocks,
  with one lemma for each kind of statement.
* `Stmt.resolveAll_mirrors`: it holds of all bodies.
-/

namespace ClassLang

open Resolve

namespace Resolver

variable {s s' : Resolver} {x : Context} {g : Method} {this : Option TypeId} {j : ScopeId}
  {B : Blocks} {Γ : Env} {span : Span} {n : String} {t : TypedExpr} {N : NamedExpr} {bs : Bindings}
  {names : Names} {sc : Scope}

/-! ## Statements from their expressions -/

/-- The complaint that an expression is no place. -/
theorem notAPlace_eq (hN : t.named? s = some N) : s.notAPlace t = N.notAPlace := by
  obtain ⟨hT, hspan, -⟩ := TypedExpr.named?_facts hN
  rw [notAPlace, NamedExpr.notAPlace, typeName_eq hT, hspan]

/-- Two expressions have the same type by number if and only if they have it by name. -/
theorem Sound.ty_eq_iff (hs : s.Sound) {a b : TypedExpr} {A B : NamedExpr} (hA : a.named? s = some A)
    (hB : b.named? s = some B) : b.ty = a.ty ↔ B.ty = A.ty := by
  obtain ⟨hTA, -⟩ := TypedExpr.named?_facts hA
  obtain ⟨hTB, -⟩ := TypedExpr.named?_facts hB
  constructor
  · intro h
    rw [h, hTA] at hTB
    exact (Option.some.inj hTB).symm
  · intro h
    exact hs.meaning?_injective hTB (h ▸ hTA)

theorem assignment_agrees (hs : s.Sound) {a b : TypedExpr} {A B : NamedExpr}
    (hA : a.named? s = some A) (hB : b.named? s = some B) :
    Agrees (fun st N => st.named? s = some N) (s.assignment a b span) (A.assign B span) := by
  obtain ⟨hTA, -, hplace, -⟩ := TypedExpr.named?_facts hA
  obtain ⟨hTB, hspan, -⟩ := TypedExpr.named?_facts hB
  have hty := hs.ty_eq_iff hA hB
  unfold assignment NamedExpr.assign
  rw [hplace]
  by_cases hp : a.isPlace = true
  · simp only [hp, Bool.not_true, Bool.false_eq_true, if_false]
    by_cases heq : b.ty = a.ty
    · rw [if_neg (not_not_intro heq), if_neg (not_not_intro (hty.1 heq))]
      show TypedStmt.named? s _ = _
      rw [TypedStmt.named?, hA, hB]; rfl
    · rw [if_pos heq, if_pos (fun h => heq (hty.2 h)), mismatch, typeName_eq hTA, typeName_eq hTB,
        hspan]
      exact .error
  · rw [Bool.not_eq_true] at hp
    simp only [hp, Bool.not_false, if_true]
    rw [notAPlace_eq hA]
    exact .error

theorem callStmt_agrees (hN : t.named? s = some N) :
    Agrees (fun st N => st.named? s = some N) (s.callStmt t span) (N.callStmt span) := by
  obtain ⟨hT, -, -, hcall, -⟩ := TypedExpr.named?_facts hN
  unfold callStmt NamedExpr.callStmt
  rw [hcall]
  by_cases hc : t.isCall = true
  · rw [if_pos hc, if_pos hc]
    show TypedStmt.named? s _ = _
    rw [TypedStmt.named?, hN]; rfl
  · rw [if_neg hc, if_neg hc, typeName_eq hT]
    exact .error

theorem condition_agrees (hs : s.Sound) (hN : t.named? s = some N) :
    Agrees (fun t' N' => t'.named? s = some N') (s.condition t) N.condition := by
  obtain ⟨hT, hspan, -⟩ := TypedExpr.named?_facts hN
  have hbool := Registry.meaning?_native hs.registry .boolean
  unfold condition NamedExpr.condition
  by_cases hty : t.ty = Native.boolean.id
  · have heq : N.ty = .native .boolean := by
      rw [hty, hbool] at hT
      exact (Option.some.inj hT).symm
    rw [if_pos hty, if_pos heq]
    exact hN
  · have hne : N.ty ≠ .native .boolean := fun heq => hty (hs.meaning?_injective hT (heq ▸ hbool))
    rw [if_neg hty, if_neg hne, mismatch, typeName_eq hbool, typeName_eq hT, hspan]
    exact .error

/-- A return, with a value or without. -/
theorem ret_agrees (hs : s.Sound) (hw : s.Within x g) {value : Option TypedExpr}
    {value' : Option NamedExpr} (h : value.map (fun e => e.named? s) = value'.map some) :
    Agrees (fun st N => st.named? s = some N) (s.ret g.result value span)
      (x.body.ret value' span) := by
  have hvoid := hw.result_void_iff hs
  -- a missing value counts as one of type `void`
  have hreceived : s.registry.meaning? ((value.map TypedExpr.ty).getD Native.void.id) =
      some ((value'.map NamedExpr.ty).getD (.native .void)) := by
    cases value with
    | none =>
      cases value' with
      | none => exact Registry.meaning?_native hs.registry .void
      | some N => cases h
    | some t =>
      cases value' with
      | none => cases h
      | some N => exact (TypedExpr.named?_facts (Option.some.inj h)).1
  have hsome : value.isSome = value'.isSome := by
    have := congrArg Option.isSome h
    rwa [Option.isSome_map, Option.isSome_map] at this
  have hresult : ((value.map TypedExpr.ty).getD Native.void.id = g.result) ↔
      (value'.map NamedExpr.ty).getD (.native .void) = x.result := by
    constructor
    · intro heq
      rw [heq, hw.result] at hreceived
      exact (Option.some.inj hreceived).symm
    · intro heq
      exact hs.meaning?_injective hreceived (heq ▸ hw.result)
  -- so both sides come to the same verdict, for a `void` method as for any other
  obtain ⟨wrong, hwrong, hwrong'⟩ : ∃ wrong : Bool, (if g.result = Native.void.id then value.isSome
      else decide ((value.map TypedExpr.ty).getD Native.void.id ≠ g.result)) = wrong ∧
      (if x.body.result = .native .void then value'.isSome
        else decide ((value'.map NamedExpr.ty).getD (.native .void) ≠ x.body.result)) = wrong := by
    refine ⟨_, ?_, rfl⟩
    by_cases hv : g.result = Native.void.id
    · rw [if_pos hv, if_pos (c := x.body.result = _) (hvoid.1 hv), hsome]
    · rw [if_neg hv, if_neg (c := x.body.result = _) fun h => hv (hvoid.2 h)]
      exact decide_eq_decide.2 (not_congr hresult)
  unfold ret BodyContext.ret
  simp only [hwrong, hwrong']
  cases wrong with
  | true =>
    rw [if_pos rfl, if_pos rfl, typeName_eq hw.result, typeName_eq hreceived]
    exact .error
  | false =>
    show TypedStmt.named? s (.ret value span) = _
    rw [TypedStmt.named?, optionMapM_eq_some_iff.2 h]; rfl

/-! ## Declared variables -/

/-- A name that is bound is not bound again. -/
theorem bindVariable_taken (hj : s.program.scopeAt? j = some sc) {v : VariableId}
    (hn : sc.vars[n]? = some v) (ty : TypeId) (kind : VariableKind) (span : Span) :
    Leads (bindVariable j n ty kind span) s (fun _ _ => False)
      fun f => f = ⟨.duplicateVariable n, span⟩ := by
  have hj₁ : (s.pushVar ⟨n, ty, kind, none, span⟩).program.scopeAt? j = some sc := hj
  unfold bindVariable
  show Leads (updateScopes _ >>= fun _ => Pure.pure s.nextVar) (s.pushVar _) _ _
  have hbound : sc.vars[n]? ≠ none := by rw [hn]; exact Option.some_ne_none v
  exact Leads.seq (Q := fun _ _ => False)
    (updateScopes_leads (ScopeTree.declare_taken_leads hj₁ hbound)) fun _ _ => False.elim

/-- What the innermost block binds, by number and by name. -/
theorem Stage.block (h : s.Stage x g this j (bs :: B) (names :: Γ))
    (hsc : s.program.scopeAt? j = some sc) : ∃ p, ∃ ns : Locals, ∃ Δ, sc.kind = .block ∧
      sc.parent = some p ∧
      (∀ n : String, sc.vars[n]? = ns.lookup n) ∧
      ns.map (fun q => (q.1, s.namedVar? q.2)) = names.map (fun q => (q.1, some q.2)) ∧
      s.Nested g.owner p Δ ∧ s.Shows Δ Γ := by
  obtain ⟨Δ, hnested, hshow⟩ := h.tracks.env
  cases hnested with
  | home => cases hshow
  | @block _ p sc' ns Δ hsc' hk hp hm hnested =>
    rw [hsc] at hsc'
    cases hsc'
    obtain ⟨names', Γ', heq, hnames, hrest⟩ := hshow.cons_inv
    cases heq
    exact ⟨p, ns, Δ, hk, hp, hm, hnames, hnested, hrest⟩

theorem Stage.lookup_isSome (h : s.Stage x g this j (bs :: B) (names :: Γ))
    (hsc : s.program.scopeAt? j = some sc) (n : String) :
    (sc.vars[n]?).isSome = (names.lookup n).isSome := by
  obtain ⟨-, ns, -, -, -, hm, hnames, -⟩ := h.block hsc
  have := congrArg Option.isSome (lookup_shows hnames n)
  rwa [Option.isSome_map, Option.isSome_map, ← hm n] at this

/-- Inside a body after a variable has been bound. -/
theorem Stage.bind (h : s.Stage x g this j (bs :: B) (names :: Γ)) {v : VariableId}
    {y : NamedVariable} {bs' : Bindings} (hsc : s.program.scopeAt? j = some sc)
    (hf : Frame s s' none none (some j)) (h' : s'.Setting x g this j (bs' :: B))
    (hy : s'.namedVar? v = some y)
    (hsc' : s'.program.scopeAt? j = some { sc with vars := sc.vars.insert n v }) :
    s'.Stage x g this j (bs' :: B) (((n, y) :: names) :: Γ) := by
  obtain ⟨p, ns, Δ, hk, hp, hm, hnames, hnested, hrest⟩ := h.block hsc
  have hs := h.setting.sound
  have hx : s.Extends s' := hf.extends_of_block hsc hk
  have hlt := (hs.scopes j sc hsc).parent p hp
  have hshow : s.Shows (ns :: Δ) (names :: Γ) := by
    unfold Shows at hrest ⊢
    rw [List.map_cons, List.map_cons, hnames, hrest]
  have hshow' := hshow.mono fun hz => hx.grows.namedVar? hs h'.sound hz
  refine ⟨h', h.tracks.published.mono hx hs h'.sound, ((n, v) :: ns) :: Δ, ?_, ?_⟩
  · refine .block hsc' hk hp (fun n' => ?_) (hnested.mono hf.toGrows hs fun l sc' hl hsl => ?_)
    · show (sc.vars.insert n v)[n']? = _
      rw [getElem?_insert_eq, List.lookup_cons, hm n']
      by_cases heq : n = n'
      · rw [if_pos heq, beq_iff_eq.2 heq.symm]
      · rw [if_neg heq, beq_eq_false_iff_ne.2 fun h => heq h.symm]
    · exact hf.sameScopes l sc' hsl fun h => by cases h; omega
  · unfold Shows at hshow' ⊢
    rw [List.map_cons, List.map_cons, List.cons.injEq] at hshow'
    show ((n, s'.namedVar? v) :: ns.map _) :: Δ.map _ = ((n, some y) :: names.map _) :: Γ.map _
    rw [hshow'.1, hshow'.2, hy]

/-- Inside a body after a block has been entered. -/
theorem Stage.enter (h : s.Stage x g this j B Γ) {l : ScopeId}
    (hf : Frame s s' none none none) (hs' : s'.Sound)
    (hl : s'.program.scopeAt? l = some (.empty .block (some j))) :
    s'.Stage x g this l ([] :: B) ([] :: Γ) := by
  have h' := h.frame hf hs'
  obtain ⟨Δ, hnested, hshow⟩ := h'.tracks.env
  refine ⟨h.setting.enter hf hs' hl, h'.tracks.published, [] :: Δ, ?_, ?_⟩
  · exact .block hl rfl rfl (fun n => by simp [Scope.empty]) hnested
  · unfold Shows at hshow ⊢
    rw [List.map_cons, List.map_cons, hshow]; rfl

/-! ## What statements lead to -/

/-- A statement has been resolved to `o`, and elaborated to `r`. -/
structure MirroredStmt (s' : Resolver) (x : Context) (g : Method) (this : Option TypeId)
    (j : ScopeId) (B : Blocks) (Γ : Env) (o : Option TypedStmt) (r : Option NamedStmt × Names) :
    Prop where
  named : o.map (fun t => t.named? s') = r.1.map some
  stage : ∃ bs, s'.Stage x g this j (bs :: B) (r.2 :: Γ)

/-- A statement that declares nothing. -/
theorem Stage.mirrored (h : s.Stage x g this j (bs :: B) (names :: Γ))
    (hf : Frame s s' none none none) (hs' : s'.Sound) {t : TypedStmt} {N : NamedStmt}
    (hN : t.named? s' = some N) :
    s'.MirroredStmt x g this j B Γ (some t) (some N, names) where
  named := congrArg some hN
  stage := ⟨bs, h.frame hf hs'⟩

end Resolver

open Resolver

variable {x : Context} {g : Method} {this : Option TypeId} {j : ScopeId} {B : Blocks} {Γ : Env}
  {s : Resolver}

theorem Expr.resolveCondition_mirrors (e : Expr) (h : s.Stage x g this j B Γ) :
    Mirrors (e.resolveCondition x.dialect j) s
      (fun t s' N => (Frame s s' none none none ∧ s'.Sound) ∧ t.named? s' = some N)
      (e.elaborateCondition x.body Γ) := by
  unfold Expr.resolveCondition Expr.elaborateCondition
  refine (e.resolve_mirrors h).seq ?_
  rintro t s₁ N ⟨ht, hN⟩
  refine (ask_mirrors (condition_agrees ht.sound hN)).imp ?_
  rintro _ _ _ ⟨rfl, hN⟩
  exact ⟨⟨ht.frame, ht.sound⟩, hN⟩

theorem Expr.resolveOptional_mirrors (o : Option Expr) (h : s.Stage x g this j B Γ) :
    Mirrors (Expr.resolveOptional x.dialect j o) s
      (fun t s' N => (Frame s s' none none none ∧ s'.Sound) ∧
        t.map (fun e => e.named? s') = N.map some)
      (Expr.elaborateOptional x.body Γ o) := by
  cases o with
  | none => exact Mirrors.pure ⟨⟨.refl s none none none, h.setting.sound⟩, rfl⟩
  | some e =>
    refine Mirrors.map ((e.resolve_mirrors h).imp ?_)
    rintro t s₁ N ⟨ht, hN⟩
    exact ⟨⟨ht.frame, ht.sound⟩, congrArg some hN⟩

/-- **Declaring a variable** in a block that does not bind its name. -/
theorem Resolver.Stage.bindLocal_leads {bs : Bindings} {names : Names} {sc : Scope} {ty : TypeId}
    {T : Ty} {n : String} (h : s.Stage x g this j (bs :: B) (names :: Γ))
    (hsc : s.program.scopeAt? j = some sc) (hT : s.registry.meaning? ty = some T)
    (hn : sc.vars[n]? = none) (sp : Span) :
    Leads (bindVariable j n ty .localVar sp) s
      (fun v s' => s.Extends s' ∧ s'.namedVar? v = some ⟨n, .localVar, T, sp⟩ ∧
        ∃ bs', s'.Stage x g this j (bs' :: B) (((n, ⟨n, .localVar, T, sp⟩) :: names) :: Γ))
      (fun _ => False) := by
  obtain ⟨-, -, -, hk, -⟩ := h.block hsc
  have hok : VarOk s ⟨n, ty, .localVar, none, sp⟩ :=
    ⟨Registry.has_of_meaning? h.setting.sound.registry hT, nofun⟩
  refine (bindVariable_leads h.setting.sound hsc hok (by rw [hk]; nofun)).imp ?_ fun _ hr => hr.2 hn
  rintro v s' ⟨hf, hs', -, -, hv, hsc', hr⟩
  rw [← hr] at hT
  have hy : s'.namedVar? v = some ⟨n, .localVar, T, sp⟩ :=
    namedVar?_eq_some_iff.2 ⟨_, hv, rfl, rfl, hT, rfl⟩
  refine ⟨hf.extends ?_, hy, _, h.bind hsc hf (h.setting.bind hsc hf hs' hv hT rfl hsc') hy hsc'⟩
  intro l sc' hl hl'
  cases hl
  rw [hsc] at hl'
  cases hl'
  exact hk

/-! ## Parts of a statement -/

/-- **The statement is resolved as it is elaborated**, in whatever block of the body it stands. -/
def Stmt.Mirrored (x : Context) (g : Method) (this : Option TypeId) (st : Stmt) : Prop :=
  ∀ ⦃s : Resolver⦄ ⦃bs : Bindings⦄ ⦃names : Names⦄ ⦃B : Blocks⦄ ⦃Γ : Env⦄ ⦃j : ScopeId⦄,
    s.Stage x g this j (bs :: B) (names :: Γ) →
    Mirrors (st.resolve x.dialect j) s (fun o s' r => s.ResolvedStmt s' x g this j bs B st o ∧
      s'.MirroredStmt x g this j B Γ o r) (st.elaborate x.body names Γ)

/-- **Statements are resolved as they are elaborated**, one after the other. -/
def Stmt.MirroredAll (x : Context) (g : Method) (this : Option TypeId) (body : List Stmt) : Prop :=
  ∀ ⦃s : Resolver⦄ ⦃bs : Bindings⦄ ⦃names : Names⦄ ⦃B : Blocks⦄ ⦃Γ : Env⦄ ⦃j : ScopeId⦄,
    s.Stage x g this j (bs :: B) (names :: Γ) →
    Mirrors (Stmt.resolveAll x.dialect j body) s (fun ts s' Ns =>
      s.ResolvedBody s' x g this j (bs :: B) body ts ∧ TypedStmt.namedAll? s' ts = some Ns)
      (Stmt.elaborateAll x.body names Γ body)

/-- **The block is resolved as it is elaborated**, in a scope of its own. -/
def Block.Mirrored (x : Context) (g : Method) (this : Option TypeId) (b : Block) : Prop :=
  ∀ ⦃s : Resolver⦄ ⦃B : Blocks⦄ ⦃Γ : Env⦄ ⦃j : ScopeId⦄, s.Stage x g this j B Γ →
    Mirrors (b.resolveNested x.dialect j) s (fun tb s' N =>
      s.ResolvedBlock s' x g this B b.body tb ∧ tb.named? s' = some N)
      (b.elaborateNested x.body Γ)

section Parts

variable {s s' : Resolver} {bs : Bindings} {names : Names} {α β : Type}
  {R : α → Resolver → β → Prop}

/-- What the result is like is known from its typing, so only its names are left to compare. -/
theorem Stmt.Mirrored.of_named {st : Stmt}
    (h : ∀ ⦃s : Resolver⦄ ⦃bs : Bindings⦄ ⦃names : Names⦄ ⦃B : Blocks⦄ ⦃Γ : Env⦄ ⦃j : ScopeId⦄,
      s.Stage x g this j (bs :: B) (names :: Γ) → Mirrors (st.resolve x.dialect j) s
        (fun o s' r => s'.MirroredStmt x g this j B Γ o r) (st.elaborate x.body names Γ)) :
    st.Mirrored x g this :=
  fun _ _ _ _ _ _ hs => (h hs).and (st.resolve_leads hs.setting)

/-- A condition that is resolved first. -/
theorem Expr.condition_seq (e : Expr) {k : TypedExpr → Resolve α}
    {l : NamedExpr → Except Diagnostic β} (h : s.Stage x g this j B Γ)
    (hk : ∀ t s' N, Frame s s' none none none → t.named? s' = some N → s'.Stage x g this j B Γ →
      Mirrors (k t) s' R (l N)) :
    Mirrors (e.resolveCondition x.dialect j >>= k) s R (e.elaborateCondition x.body Γ >>= l) := by
  refine (e.resolveCondition_mirrors h).seq ?_
  rintro t s' N ⟨⟨hf, hs'⟩, hN⟩
  exact hk t s' N hf hN (h.frame hf hs')

/-- A block that is resolved first. Readings of what was resolved before it stay. -/
theorem Block.Mirrored.seq {b : Block} (hb : b.Mirrored x g this) {k : TypedBlock → Resolve α}
    {l : NamedBlock → Except Diagnostic β} (h : s.Stage x g this j B Γ)
    (hk : ∀ tb s' N, Frame s s' none none none → s.Preserves s' → tb.named? s' = some N →
      s'.Stage x g this j B Γ → Mirrors (k tb) s' R (l N)) :
    Mirrors (b.resolveNested x.dialect j >>= k) s R (b.elaborateNested x.body Γ >>= l) := by
  refine (hb h).seq ?_
  rintro tb s' N ⟨htb, hN⟩
  exact hk tb s' N htb.frame (htb.frame.extends_of_none.preserves h.setting.sound htb.sound) hN
    (h.frame htb.frame htb.sound)

/-- A question about the state whose answer is the whole statement. -/
theorem Resolver.Stage.ask_mirrored (h : s.Stage x g this j (bs :: B) (names :: Γ))
    (hf : Frame s s' none none none) (hs' : s'.Sound) {f : Resolver → Except Diagnostic TypedStmt}
    {b : Except Diagnostic NamedStmt} (hf' : Agrees (fun st N => st.named? s' = some N) (f s') b) :
    Mirrors (some <$> ask f) s' (fun o s'' r => s''.MirroredStmt x g this j B Γ o r)
      ((fun N => (some N, names)) <$> b) := by
  refine Mirrors.map ((ask_mirrors hf').imp ?_)
  rintro st _ M ⟨rfl, hM⟩
  exact h.mirrored hf hs' hM

end Parts

/-! ## Statement by statement -/

namespace Stmt

variable {st : Stmt} {body rest : List Stmt} {c e a b : Expr} {yes no inner : Block}
  {value : Option Expr} {n : String} {type : TypeName} {sp : Span}

theorem Mirrored.expression : (Stmt.expression e sp).Mirrored x g this := by
  refine .of_named fun s bs names B Γ j h => ?_
  rw [Stmt.resolve, Stmt.elaborate]
  exact e.mirrored.seq h fun t s₁ N ht hN h₁ => h.ask_mirrored ht.frame ht.sound (callStmt_agrees hN)

theorem Mirrored.assignment : (Stmt.assignment a b sp).Mirrored x g this := by
  refine .of_named fun s bs names B Γ j h => ?_
  rw [Stmt.resolve, Stmt.elaborate]
  refine a.mirrored.seq h fun ta s₁ A hta hA h₁ => ?_
  refine b.mirrored.seq h₁ fun tb s₂ B htb hB h₂ => ?_
  have hp := htb.frame.extends_of_none.preserves hta.sound htb.sound
  exact h.ask_mirrored (hta.frame.trans htb.frame) htb.sound
    (assignment_agrees htb.sound (ta.named?_mono hp hA) hB)

theorem Mirrored.ret : (Stmt.ret value sp).Mirrored x g this := by
  refine .of_named fun s bs names B Γ j h => ?_
  rw [Stmt.resolve, Stmt.elaborate]
  refine ask_ok_seq h.setting.within.currentMethod ?_
  refine (Expr.resolveOptional_mirrors value h).seq ?_
  rintro t s₁ N ⟨⟨hf, hs₁⟩, hN⟩
  exact h.ask_mirrored hf hs₁ (ret_agrees hs₁ (h.frame hf hs₁).setting.within hN)

/-- The variable has been bound; what is left is to assign its value. -/
theorem initial_mirrored {v : VariableId} {ty : TypeId} {T : Ty} {names : Names} {t : TypedExpr}
    {N : NamedExpr} (hs : s.Sound) (hT : s.registry.meaning? ty = some T)
    (hv : s.namedVar? v = some ⟨n, .localVar, T, sp⟩) (hN : t.named? s = some N)
    (h : ∃ bs, s.Stage x g this j (bs :: B) (((n, ⟨n, .localVar, T, sp⟩) :: names) :: Γ)) :
    Mirrors (some <$> ask fun s => s.assignment (.var v ty sp) t sp) s
      (fun o s' r => s'.MirroredStmt x g this j B Γ o r)
      ((fun M => (some M, (n, ⟨n, .localVar, T, sp⟩) :: names)) <$>
        (NamedExpr.var ⟨n, .localVar, T, sp⟩ T sp).assign N sp) := by
  have hvar : (TypedExpr.var v ty sp).named? s = some (.var ⟨n, .localVar, T, sp⟩ T sp) := by
    rw [TypedExpr.named?, hv, hT]
    rfl
  refine Mirrors.map ((ask_mirrors (assignment_agrees hs hvar hN)).imp ?_)
  rintro st _ M ⟨rfl, hM⟩
  exact ⟨congrArg some hM, h⟩

/-- A declared variable is bound after its value has been resolved, so the value does not see it. -/
theorem Mirrored.varDecl : (Stmt.varDecl n type value sp).Mirrored x g this := by
  refine .of_named fun s bs names B Γ j h => ?_
  rw [Stmt.resolve, Stmt.elaborate]
  obtain ⟨sc, hsc⟩ := h.setting.scope
  refine (type.resolve_mirrors h.setting.sound h.setting.represents.types hsc).seq ?_
  rintro ty s₁ T ⟨⟨hf₁, hs₁, -⟩, hT⟩
  have h₁ := h.frame hf₁ hs₁
  refine (Expr.resolveOptional_mirrors value h₁).seq ?_
  rintro t s₂ N ⟨⟨hf₂, hs₂⟩, hN⟩
  have h₂ := h₁.frame hf₂ hs₂
  have hsc₂ := hf₂.keepsScope (hf₁.keepsScope hsc)
  have hT₂ := hf₂.toGrows.meaning? hs₁.registry hs₂.registry hT
  -- the name is taken in the state if and only if it is taken in the environment
  have htaken := h₂.lookup_isSome hsc₂ n
  cases hn : sc.vars[n]? with
  | some v =>
    rw [hn, Option.isSome_some] at htaken
    rw [if_pos htaken.symm]
    exact Mirrors.fails_seq (bindVariable_taken hsc₂ hn ty .localVar sp)
  | none =>
    rw [hn, Option.isSome_none] at htaken
    rw [if_neg (by rw [← htaken]; exact Bool.false_ne_true)]
    refine Mirrors.leads_seq (h₂.bindLocal_leads hsc₂ hT₂ hn sp) ?_
    rintro v s₃ ⟨hx, hy, bs₃, h₃⟩
    have hs₃ := h₃.setting.sound
    have hp := hx.preserves hs₂ hs₃
    have hN₃ := map_named?_mono hp hN
    cases t with
    | none =>
      cases N with
      | none => exact Mirrors.pure ⟨rfl, bs₃, h₃⟩
      | some N => cases hN₃
    | some t =>
      cases N with
      | none => cases hN₃
      | some N => exact initial_mirrored hs₃ (hp.types hT₂) hy (Option.some.inj hN₃) ⟨bs₃, h₃⟩

theorem Mirrored.ifElse (hyes : yes.Mirrored x g this) (hno : no.Mirrored x g this) :
    (Stmt.ifElse c yes no sp).Mirrored x g this := by
  refine .of_named fun s bs names B Γ j h => ?_
  rw [Stmt.resolve, Stmt.elaborate]
  refine c.condition_seq h fun t s₁ C hf₁ hC h₁ => ?_
  refine hyes.seq h₁ fun b₁ s₂ Y hf₂ hp₂ hY h₂ => ?_
  refine hno.seq h₂ fun b₂ s₃ M hf₃ hp₃ hM h₃ => ?_
  refine Mirrors.pure (h.mirrored ((hf₁.trans hf₂).trans hf₃) h₃.setting.sound ?_)
  rw [TypedStmt.named?, t.named?_mono hp₃ (t.named?_mono hp₂ hC), b₁.named?_mono hp₃ hY, hM]
  rfl

theorem Mirrored.whileDo (hinner : inner.Mirrored x g this) :
    (Stmt.whileDo c inner sp).Mirrored x g this := by
  refine .of_named fun s bs names B Γ j h => ?_
  rw [Stmt.resolve, Stmt.elaborate]
  refine c.condition_seq h fun t s₁ C hf₁ hC h₁ => ?_
  refine hinner.seq h₁ fun b s₂ Y hf₂ hp₂ hY h₂ => ?_
  refine Mirrors.pure (h.mirrored (hf₁.trans hf₂) h₂.setting.sound ?_)
  rw [TypedStmt.named?, t.named?_mono hp₂ hC, hY]
  rfl

theorem Mirrored.nested (hinner : inner.Mirrored x g this) :
    (Stmt.nested inner).Mirrored x g this := by
  refine .of_named fun s bs names B Γ j h => ?_
  rw [Stmt.resolve, Stmt.elaborate]
  refine hinner.seq h fun b s₁ Y hf hp hY h₁ => ?_
  refine Mirrors.pure (h.mirrored hf h₁.setting.sound ?_)
  rw [TypedStmt.named?, hY]
  rfl

theorem MirroredAll.nil : Stmt.MirroredAll x g this [] := by
  intro s bs names B Γ j h
  refine Mirrors.and ?_ (Stmt.resolveAll_leads [] h.setting)
  rw [Stmt.resolveAll, Stmt.elaborateAll]
  exact Mirrors.pure rfl

/-- The first statement may bind a name for those behind it. -/
theorem MirroredAll.cons (hst : st.Mirrored x g this) (hrest : Stmt.MirroredAll x g this rest) :
    Stmt.MirroredAll x g this (st :: rest) := by
  intro s bs names B Γ j h
  refine Mirrors.and ?_ (Stmt.resolveAll_leads (st :: rest) h.setting)
  rw [Stmt.resolveAll, Stmt.elaborateAll]
  refine (hst h).seq ?_
  rintro o s₁ ⟨o', names'⟩ ⟨ho, hnamed, bs', h₁⟩
  refine (hrest h₁).seq ?_
  rintro ts s₂ Ns ⟨hts, hNs⟩
  obtain ⟨sc, -, hsc, hk, -⟩ := h₁.setting.block
  have hx : s₁.Extends s₂ := hts.frame.extends_of_block hsc hk
  have hp := hx.preserves h₁.setting.sound hts.sound
  refine Mirrors.pure ?_
  cases o with
  | none =>
    cases o' with
    | none => exact hNs
    | some N => cases hnamed
  | some t =>
    cases o' with
    | none => cases hnamed
    | some N =>
      show TypedStmt.namedAll? s₂ (t :: ts) = some (N :: Ns)
      rw [TypedStmt.namedAll?, t.named?_mono hp (Option.some.inj hnamed), hNs]
      rfl

/-- A block is entered, and its statements are resolved in its own scope. -/
theorem MirroredAll.block (h : Stmt.MirroredAll x g this body) :
    (Block.mk body sp).Mirrored x g this := by
  intro s B Γ j hs
  refine Mirrors.and ?_ ((Block.mk body sp).resolveNested_leads hs.setting)
  rw [Block.resolveNested, Block.elaborateNested]
  obtain ⟨sc, hsc⟩ := hs.setting.scope
  refine Mirrors.leads_seq (pushScope_leads hs.setting.sound hsc) ?_
  rintro l s₁ ⟨hf, hs₁, -, -, hl⟩
  refine (h (hs.enter hf hs₁ hl)).seq ?_
  rintro ts s₂ Ns ⟨-, hNs⟩
  refine Mirrors.pure ?_
  rw [TypedBlock.named?, hNs]
  rfl

/-- Where `else` is missing, a scope is entered for it all the same. -/
theorem Mirrored.ifThen (hyes : yes.Mirrored x g this) :
    (Stmt.ifThen c yes sp).Mirrored x g this := by
  refine .of_named fun s bs names B Γ j h => ?_
  rw [Stmt.resolve_ifThen, Stmt.elaborate_ifThen]
  exact (Mirrored.ifElse hyes MirroredAll.nil.block h).imp fun _ _ _ h => h.2

end Stmt

/-! ## All statements -/

mutual

theorem Stmt.mirrored : (st : Stmt) → st.Mirrored x g this
  | .expression _ _ => .expression
  | .assignment _ _ _ => .assignment
  | .ret _ _ => .ret
  | .varDecl _ _ _ _ => .varDecl
  | .ifElse _ yes no _ => .ifElse (Block.mirrored yes) (Block.mirrored no)
  | .ifThen _ yes _ => .ifThen (Block.mirrored yes)
  | .whileDo _ body _ => .whileDo (Block.mirrored body)
  | .nested block => .nested (Block.mirrored block)

theorem Stmt.mirroredAll : (body : List Stmt) → Stmt.MirroredAll x g this body
  | [] => .nil
  | st :: rest => .cons (Stmt.mirrored st) (Stmt.mirroredAll rest)

theorem Block.mirrored : (b : Block) → b.Mirrored x g this
  | .mk body _ => (Stmt.mirroredAll body).block

end

/-- **Statements are resolved as they are elaborated.** -/
theorem Stmt.resolveAll_mirrors (body : List Stmt) {bs : Bindings} {names : Names}
    (h : s.Stage x g this j (bs :: B) (names :: Γ)) :
    Mirrors (Stmt.resolveAll x.dialect j body) s (fun ts s' Ns =>
      s.ResolvedBody s' x g this j (bs :: B) body ts ∧ TypedStmt.namedAll? s' ts = some Ns)
      (Stmt.elaborateAll x.body names Γ body) :=
  Stmt.mirroredAll body h

end ClassLang
