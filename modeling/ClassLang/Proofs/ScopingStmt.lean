import ClassLang.Proofs.ScopingBody

/-!
# Statements are scoped lexically

A statement that is resolved becomes what scoping says, and the variables that it declares are new.
They are added in front of what its block binds.

* `Resolver.Fresh`: which variables a step enters, all of them new.
* `Resolver.Inside.bindLocal_leads`: a declared variable is new.
* `Stmt.Scoped`, `Stmt.ScopedAll`, `Block.Scoped`: what is to be shown of statements and blocks, with
  one lemma for each kind of statement.
* `Stmt.resolveAll_lowers`: it holds of all bodies.
-/

namespace ClassLang

namespace Resolver

variable {s s' s'' : Resolver} {x : Context} {g : Method} {this : Option TypeId} {j p : ScopeId}
  {B : Blocks} {M : Members} {Δ : List Locals} {o : Option ClassId} {n : String}

/-! ## The form of statements -/

theorem assignment_form (s : Resolver) (l r : TypedExpr) (span : Span) :
    Yields (s.assignment l r span) (fun st => st = .assignment l r span) fun _ => True := by
  unfold assignment
  exact Yields.ite (Yields.error trivial) (Yields.ite (Yields.error trivial) (Yields.ok rfl))

theorem callStmt_form (s : Resolver) (t : TypedExpr) (span : Span) :
    Yields (s.callStmt t span) (fun st => st = .call t) fun _ => True := by
  unfold callStmt
  exact Yields.ite (Yields.ok rfl) (Yields.error trivial)

theorem condition_form (s : Resolver) (t : TypedExpr) :
    Yields (s.condition t) (fun t' => t' = t) fun _ => True := by
  unfold condition
  exact Yields.ite (Yields.ok rfl) (Yields.error trivial)

theorem ret_form (s : Resolver) (ty : TypeId) (t : Option TypedExpr) (span : Span) :
    Yields (s.ret ty t span) (fun st => st = .ret t span) fun _ => True := by
  unfold ret
  exact Yields.ite (Yields.error trivial) (Yields.ok rfl)

/-! ## New variables -/

/-- **The declarations `ds` have new variables**: they are distinct, and were not there before. -/
structure Fresh (s s' : Resolver) (ds : List Declaration) : Prop where
  grows : s.Grows s'
  distinct : (ds.map Declaration.id).Nodup
  new : ∀ w ∈ ds, s.program.varAt? w.id = none
  entered : ∀ w ∈ ds, ∃ ty, s'.program.varAt? w.id = some ⟨w.name, ty, .localVar, none, w.span⟩

theorem Fresh.nil (h : s.Grows s') : s.Fresh s' [] where
  grows := h
  distinct := List.nodup_nil
  new := nofun
  entered := nofun

/-- What is declared later is new as well. -/
theorem Fresh.append {ds ds' : List Declaration} (h : s.Fresh s' ds) (h' : s'.Fresh s'' ds') :
    s.Fresh s'' (ds ++ ds') where
  grows := h.grows.trans h'.grows
  distinct := by
    rw [List.map_append, List.nodup_append]
    refine ⟨h.distinct, h'.distinct, ?_⟩
    rintro _ ha _ hb rfl
    obtain ⟨w, hw, heq⟩ := List.mem_map.1 ha
    obtain ⟨w', hw', heq'⟩ := List.mem_map.1 hb
    -- what the first of them entered is not new to the second
    obtain ⟨ty, hentered⟩ := h.entered w hw
    have hnew := h'.new w' hw'
    rw [heq', ← heq, hentered] at hnew
    cases hnew
  new w hw := by
    rcases List.mem_append.1 hw with hw | hw
    · exact h.new w hw
    · cases hy : s.program.varAt? w.id with
      | none => rfl
      | some y =>
        have hnew := h'.new w hw
        rw [h.grows.vars _ y hy] at hnew
        cases hnew
  entered w hw := by
    rcases List.mem_append.1 hw with hw | hw
    · obtain ⟨ty, hty⟩ := h.entered w hw
      exact ⟨ty, h'.grows.vars _ _ hty⟩
    · exact h'.entered w hw

end Resolver

open Resolver Resolve

variable {x : Context} {g : Method} {this : Option TypeId} {M : Members}

/-! ## Statements -/

section

variable {s : Resolver} {j : ScopeId} {B : Blocks} {Δ : List Locals}

theorem Expr.resolve_inside (e : Expr) (h : s.Inside x g this j B M Δ) :
    Gives (e.resolve x.dialect j) s (fun t s' => e.Lowers M Δ t ∧ s.Fresh s' [] ∧
      s'.Inside x g this j B M Δ) := by
  refine ((e.resolve_leads h.setting).and (e.resolve_lowers h.lexical)).gives ?_
  rintro t s' ⟨ht, -, hl⟩
  exact ⟨hl, .nil ht.frame.toGrows, h.frame ht.frame ht.sound⟩

theorem Expr.resolveCondition_inside (e : Expr) (h : s.Inside x g this j B M Δ) :
    Gives (e.resolveCondition x.dialect j) s (fun t s' => e.Lowers M Δ t ∧ s.Fresh s' [] ∧
      s'.Inside x g this j B M Δ) := by
  unfold Expr.resolveCondition
  refine (e.resolve_inside h).seq fun t s₁ ht => ?_
  refine ask_leads ((s₁.condition_form t).post ?_)
  rintro _ rfl
  exact ht

theorem Expr.resolveOptional_inside (value : Option Expr) (h : s.Inside x g this j B M Δ) :
    Gives (Expr.resolveOptional x.dialect j value) s (fun t s' => Expr.LowersOptional M Δ value t ∧
      s.Fresh s' [] ∧ s'.Inside x g this j B M Δ) := by
  cases value with
  | none => exact Leads.pure ⟨.none, .nil (.refl s), h⟩
  | some e => exact Leads.map ((e.resolve_inside h).post (fun _ _ ht => ⟨.some ht.1, ht.2⟩))

theorem TypeName.resolve_inside (type : TypeName) (h : s.Inside x g this j B M Δ) :
    Gives (type.resolve x.dialect j) s (fun ty s' => (∃ T, s'.registry.meaning? ty = some T) ∧
      s.Fresh s' [] ∧ s'.Inside x g this j B M Δ) := by
  obtain ⟨sc, hsc⟩ := h.setting.scope
  refine (type.resolve_leads h.setting.sound h.setting.represents.types hsc).imp ?_
    fun _ _ => trivial
  rintro ty s' ⟨hf, hs', T, hT, -⟩
  exact ⟨⟨T, hT⟩, .nil hf.toGrows, h.frame hf hs'⟩

/-- **A declared variable is new**, and is the first thing that its block binds then. -/
theorem Resolver.Inside.bindLocal_leads {bs : Bindings} {names : Locals} {ty : TypeId} {T : Ty}
    {n : String} (h : s.Inside x g this j (bs :: B) M (names :: Δ))
    (hT : s.registry.meaning? ty = some T) (sp : Span) :
    Gives (bindVariable j n ty .localVar sp) s (fun v s' => s.Fresh s' [⟨v, n, sp⟩] ∧
      ∃ bs', s'.Inside x g this j (bs' :: B) M (((n, v) :: names) :: Δ)) := by
  obtain ⟨sc, -, hsc, hk, -⟩ := h.setting.block
  have hok : VarOk s ⟨n, ty, .localVar, none, sp⟩ :=
    ⟨Registry.has_of_meaning? h.setting.sound.registry hT, nofun⟩
  refine (bindVariable_leads h.setting.sound hsc hok (by rw [hk]; nofun)).gives ?_
  rintro v s' ⟨hf, hs', -, hnew, hv, hsc', hr⟩
  rw [← hr] at hT
  refine ⟨⟨hf.toGrows, by simp, ?_, ?_⟩, _, h.bind hsc hf (h.setting.bind hsc hf hs' hv hT rfl hsc')
    hv rfl hsc'⟩
  · rintro _ hw
    cases List.mem_singleton.1 hw
    exact hnew
  · rintro _ hw
    cases List.mem_singleton.1 hw
    exact ⟨ty, hv⟩

end

/-! ## Kinds of statements -/

variable (x g this M) in
/-- **The statement becomes what scoping says**, and its block binds what it declares. -/
def Stmt.Scoped (st : Stmt) : Prop :=
  ∀ ⦃s : Resolver⦄ ⦃j : ScopeId⦄ ⦃bs : Bindings⦄ ⦃B : Blocks⦄ ⦃names : Locals⦄ ⦃Δ : List Locals⦄,
    s.Inside x g this j (bs :: B) M (names :: Δ) →
    Gives (st.resolve x.dialect j) s (fun o s' => ∃ names' ds, st.Lowers M names Δ o names' ds ∧
      s.Fresh s' ds ∧ ∃ bs', s'.Inside x g this j (bs' :: B) M (names' :: Δ))

variable (x g this M) in
/-- The same of statements in turn. What they bind is of no use after the last of them. -/
def Stmt.ScopedAll (body : List Stmt) : Prop :=
  ∀ ⦃s : Resolver⦄ ⦃j : ScopeId⦄ ⦃bs : Bindings⦄ ⦃B : Blocks⦄ ⦃names : Locals⦄ ⦃Δ : List Locals⦄,
    s.Inside x g this j (bs :: B) M (names :: Δ) →
    Gives (Stmt.resolveAll x.dialect j body) s (fun ts s' => ∃ ds,
      Stmt.LowersAll M names Δ body ts ds ∧ s.Fresh s' ds)

variable (x g this M) in
/-- **A block becomes what scoping says.** What it binds is not seen outside. -/
def Block.Scoped (b : Block) : Prop :=
  ∀ ⦃s : Resolver⦄ ⦃j : ScopeId⦄ ⦃B : Blocks⦄ ⦃Δ : List Locals⦄, s.Inside x g this j B M Δ →
    Gives (b.resolveNested x.dialect j) s (fun tb s' => ∃ ds, b.Lowers M Δ tb ds ∧ s.Fresh s' ds ∧
      s'.Inside x g this j B M Δ)

namespace Stmt

variable {e a b c : Expr} {value : Option Expr} {n : String} {type : TypeName} {sp : Span}
  {yes no block : Block} {st : Stmt} {rest : List Stmt}

theorem Scoped.expression : (Stmt.expression e sp).Scoped x g this M := by
  intro s j bs B names Δ h
  rw [Stmt.resolve]
  refine (e.resolve_inside h).seq ?_
  rintro t s₁ ⟨ht, hf, h₁⟩
  refine Leads.map (ask_leads ((s₁.callStmt_form t sp).post ?_))
  rintro _ rfl
  exact ⟨names, [], .expression ht, hf, bs, h₁⟩

theorem Scoped.assignment : (Stmt.assignment a b sp).Scoped x g this M := by
  intro s j bs B names Δ h
  rw [Stmt.resolve]
  refine (a.resolve_inside h).seq ?_
  rintro l s₁ ⟨hl, hf₁, h₁⟩
  refine (b.resolve_inside h₁).seq ?_
  rintro r s₂ ⟨hr, hf₂, h₂⟩
  refine Leads.map (ask_leads ((s₂.assignment_form l r sp).post ?_))
  rintro _ rfl
  exact ⟨names, [], .assignment hl hr, hf₁.append hf₂, bs, h₂⟩

theorem Scoped.ret : (Stmt.ret value sp).Scoped x g this M := by
  intro s j bs B names Δ h
  rw [Stmt.resolve]
  refine ask_any fun g' => ?_
  refine (Expr.resolveOptional_inside value h).seq ?_
  rintro t s₁ ⟨ht, hf, h₁⟩
  refine Leads.map (ask_leads ((s₁.ret_form g'.result t sp).post ?_))
  rintro _ rfl
  exact ⟨names, [], .ret ht, hf, bs, h₁⟩

/-- A declaration. The name is not bound yet where its value is resolved. -/
theorem Scoped.varDecl : (Stmt.varDecl n type value sp).Scoped x g this M := by
  intro s j bs B names Δ h
  rw [Stmt.resolve]
  refine (type.resolve_inside h).seq ?_
  rintro ty s₁ ⟨⟨T, hT⟩, hf₁, h₁⟩
  refine (Expr.resolveOptional_inside value h₁).seq ?_
  rintro t s₂ ⟨ht, hf₂, h₂⟩
  have hT₂ := hf₂.grows.meaning? h₁.setting.sound.registry h₂.setting.sound.registry hT
  refine (h₂.bindLocal_leads hT₂ sp).seq ?_
  rintro v s₃ ⟨hf₃, h₃⟩
  have hfresh := (hf₁.append hf₂).append hf₃
  cases t with
  | none => exact Leads.pure ⟨_, _, .varDecl ty ht, hfresh, h₃⟩
  | some t =>
    refine Leads.map (ask_leads ((s₃.assignment_form (.var v ty sp) t sp).post ?_))
    rintro _ rfl
    exact ⟨_, _, .varDecl ty ht, hfresh, h₃⟩

theorem Scoped.ifElse (hyes : yes.Scoped x g this M) (hno : no.Scoped x g this M) :
    (Stmt.ifElse c yes no sp).Scoped x g this M := by
  intro s j bs B names Δ h
  rw [Stmt.resolve]
  refine (c.resolveCondition_inside h).seq ?_
  rintro t s₁ ⟨ht, hf₁, h₁⟩
  refine (hyes h₁).seq ?_
  rintro y s₂ ⟨ds, hy, hf₂, h₂⟩
  refine (hno h₂).seq ?_
  rintro z s₃ ⟨ds', hz, hf₃, h₃⟩
  exact Leads.pure ⟨names, ds ++ ds', .ifElse ht hy hz, (hf₁.append hf₂).append hf₃, bs, h₃⟩

/-- Without an `else` there is an empty block in its place, which declares nothing. -/
theorem Scoped.ifThen (hyes : yes.Scoped x g this M) :
    (Stmt.ifThen c yes sp).Scoped x g this M := by
  intro s j bs B names Δ h
  rw [Stmt.resolve]
  refine (c.resolveCondition_inside h).seq ?_
  rintro t s₁ ⟨ht, hf₁, h₁⟩
  refine (hyes h₁).seq ?_
  rintro y s₂ ⟨ds, hy, hf₂, h₂⟩
  obtain ⟨sc, hsc⟩ := h₂.setting.scope
  refine (pushScope_leads h₂.setting.sound hsc).seq (E := fun _ => True) ?_
  rintro l s₃ ⟨hf₃, hs₃, -⟩
  have hfresh := (hf₁.append hf₂).append (.nil hf₃.toGrows)
  rw [List.append_nil] at hfresh
  exact Leads.pure ⟨names, ds, .ifThen ht hy, hfresh, bs, h₂.frame hf₃ hs₃⟩

theorem Scoped.whileDo (hblock : block.Scoped x g this M) :
    (Stmt.whileDo c block sp).Scoped x g this M := by
  intro s j bs B names Δ h
  rw [Stmt.resolve]
  refine (c.resolveCondition_inside h).seq ?_
  rintro t s₁ ⟨ht, hf₁, h₁⟩
  refine (hblock h₁).seq ?_
  rintro b s₂ ⟨ds, hb, hf₂, h₂⟩
  exact Leads.pure ⟨names, ds, .whileDo ht hb, hf₁.append hf₂, bs, h₂⟩

theorem Scoped.nested (hblock : block.Scoped x g this M) :
    (Stmt.nested block).Scoped x g this M := by
  intro s j bs B names Δ h
  rw [Stmt.resolve]
  refine (hblock h).seq ?_
  rintro b s₁ ⟨ds, hb, hf, h₁⟩
  exact Leads.pure ⟨names, ds, .nested hb, hf, bs, h₁⟩

theorem ScopedAll.nil : Stmt.ScopedAll x g this M [] := by
  intro s j bs B names Δ h
  rw [Stmt.resolveAll]
  exact Leads.pure ⟨[], .nil, .nil (.refl s)⟩

theorem ScopedAll.cons (hst : st.Scoped x g this M) (hrest : Stmt.ScopedAll x g this M rest) :
    Stmt.ScopedAll x g this M (st :: rest) := by
  intro s j bs B names Δ h
  rw [Stmt.resolveAll]
  refine (hst h).seq ?_
  rintro o s₁ ⟨names', ds, ho, hf₁, bs', h₁⟩
  refine (hrest h₁).seq ?_
  rintro ts s₂ ⟨ds', hts, hf₂⟩
  exact Leads.pure ⟨ds ++ ds', .cons ho hts, hf₁.append hf₂⟩

end Stmt

/-- A block from its statements. They are resolved in a scope of their own, and the scope around is
as it was. -/
theorem Block.Scoped.mk {body : List Stmt} {sp : Span} (hbody : Stmt.ScopedAll x g this M body) :
    (Block.mk body sp).Scoped x g this M := by
  intro s j B Δ h
  have hlowers : Gives ((Block.mk body sp).resolveNested x.dialect j) s
      (fun tb s' => ∃ ds, (Block.mk body sp).Lowers M Δ tb ds ∧ s.Fresh s' ds) := by
    rw [Block.resolveNested]
    obtain ⟨sc, hsc⟩ := h.setting.scope
    refine (pushScope_leads h.setting.sound hsc).seq (E := fun _ => True) ?_
    rintro l s₁ ⟨hf, hs₁, -, -, hl⟩
    refine (hbody (h.enter hf hs₁ hl)).seq ?_
    rintro ts s₂ ⟨ds, hts, hfresh⟩
    exact Leads.pure ⟨ds, .mk hts, (Fresh.nil hf.toGrows).append hfresh⟩
  refine (((Block.mk body sp).resolveNested_leads h.setting).and hlowers).gives ?_
  rintro tb s' ⟨hb, ds, hl, hfresh⟩
  exact ⟨ds, hl, hfresh, h.frame hb.frame hb.sound⟩

/-! ## All statements -/

mutual

theorem Stmt.scoped : (st : Stmt) → st.Scoped x g this M
  | .expression _ _ => .expression
  | .assignment _ _ _ => .assignment
  | .ret _ _ => .ret
  | .varDecl _ _ _ _ => .varDecl
  | .ifElse _ yes no _ => .ifElse (Block.scoped yes) (Block.scoped no)
  | .ifThen _ yes _ => .ifThen (Block.scoped yes)
  | .whileDo _ block _ => .whileDo (Block.scoped block)
  | .nested block => .nested (Block.scoped block)

theorem Stmt.scopedAll : (body : List Stmt) → Stmt.ScopedAll x g this M body
  | [] => .nil
  | st :: rest => .cons (Stmt.scoped st) (Stmt.scopedAll rest)

theorem Block.scoped : (b : Block) → b.Scoped x g this M
  | .mk body _ => .mk (Stmt.scopedAll body)

end

/-- **What statements are resolved to**, one after the other. -/
theorem Stmt.resolveAll_lowers (body : List Stmt) {s : Resolver} {j : ScopeId} {bs : Bindings}
    {B : Blocks} {names : Locals} {Δ : List Locals}
    (h : s.Inside x g this j (bs :: B) M (names :: Δ)) :
    Gives (Stmt.resolveAll x.dialect j body) s (fun ts s' => ∃ ds,
      Stmt.LowersAll M names Δ body ts ds ∧ s.Fresh s' ds) :=
  Stmt.scopedAll body h

end ClassLang
