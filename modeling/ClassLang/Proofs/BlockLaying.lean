import ClassLang.Proofs.BlockScopes

/-!
# Statements lay out their blocks

Every statement that is resolved adds the scopes of the blocks in it to the program, and the scope that
it is in binds the variable that it declares.

* `Resolver.Lays`: what some statements in a scope have done.
* `Stmt.LaysOut`, `Stmt.LaysOutAll`, `Block.LaysOut`: what is to be shown of statements and blocks, with
  one lemma for each kind of statement.
* `Stmt.resolveAll_lays`: what all statements of a body add to the scope they are in.
-/

namespace ClassLang

open Resolver Resolve

/-! ## Statements and blocks -/

/-- What some statements in the scope `j` have done: the scopes of the blocks in them have been added,
and the scope binds the variables that they declare. Blocks from the number `first` on belong to
bodies. -/
structure Resolver.Lays (s s' : Resolver) (first : Nat) (j outer : ScopeId) (vs : List VariableId)
    (body : List Stmt) (ts : List TypedStmt) (ws : List VariableId) : Prop where
  spreads : s.Spreads s' (some j) (TypedStmt.scopesAll ts)
  placed : s'.program.Placed fun k => first ≤ k.index
  opens : s'.program.Opens j outer (vs ++ ws)
  laying : Laying s'.program j body ts ws

namespace Resolver

variable {s s' s'' : Resolver} {first : Nat} {j outer : ScopeId} {vs ws : List VariableId}

/-- A statement without blocks that declares nothing. -/
theorem Lays.plain {st : Stmt} {t : TypedStmt}
    (hp : s.program.Placed fun k => first ≤ k.index) (hj : s.program.Opens j outer vs)
    (h : s'.program = s.program) (hvar : st.variable? = none) (hst : st.blocks = [])
    (ht : t.blocks = []) : s.Lays s' first j outer vs [st] [t] [] where
  spreads := by
    rw [TypedStmt.scopesAll_eq, List.flatMap_cons, ht]
    exact .of_program h _
  placed := by rw [h]; exact hp
  opens := by rw [h, List.append_nil]; exact hj
  laying := .plain hvar hst ht

/-- A statement that consists of blocks. -/
theorem Lays.nested {st : Stmt} {t : TypedStmt} (hvar : st.variable? = none)
    (hj : s.program.Opens j outer vs) (hspreads : s.Spreads s' none t.scopes)
    (hp : s'.program.Placed fun k => first ≤ k.index) (hcount : st.blocks.length = t.blocks.length)
    (hinner : ∀ q ∈ st.blocks.zip t.blocks, q.1.Laid s'.program j [] q.2) :
    s.Lays s' first j outer vs [st] [t] [] where
  spreads := by
    rw [TypedStmt.scopesAll, TypedStmt.scopesAll, List.append_nil]
    exact hspreads.weaken _
  placed := hp
  opens := by rw [List.append_nil]; exact hspreads.opens hj
  laying := by
    refine ⟨?_, ?_, ?_⟩
    · rw [List.filterMap_cons_none hvar]; rfl
    · rw [List.flatMap_singleton, List.flatMap_singleton]; exact hcount
    · rw [List.flatMap_singleton, List.flatMap_singleton]; exact hinner

/-- A statement with two blocks, the second of which is resolved after the first. -/
theorem Lays.branches {s₁ s₂ : Resolver} {st : Stmt} {yes no : Block} {c : TypedExpr}
    {y z : TypedBlock} {sp : Span} (hvar : st.variable? = none) (hblocks : st.blocks = [yes, no])
    (hj : s.program.Opens j outer vs) (hp : s'.program.Placed fun k => first ≤ k.index)
    (hcond : s.Spreads s₁ none []) (hy : s₁.Spreads s₂ none y.scopes)
    (hz : s₂.Spreads s' none z.scopes) (hyes : yes.Laid s₂.program j [] y)
    (hno : no.Laid s'.program j [] z) : s.Lays s' first j outer vs [st] [.ifElse c y z sp] [] := by
  refine .nested hvar hj ?_ hp (by rw [hblocks]; rfl) ?_
  · rw [TypedStmt.scopes]
    exact hcond.trans (hy.trans hz)
  · intro q hq
    rw [hblocks] at hq
    rcases List.mem_cons.1 hq with rfl | hq
    · exact hyes.mono hz.vars fun k _ sc hsc => hz.scopes k sc hsc (Option.some_ne_none k).symm
    · cases List.mem_singleton.1 hq
      exact hno

/-- A declared variable, which its value leaves alone. -/
theorem Lays.declares {n : String} {ty : TypeId} {type : TypeName} {value : Option Expr} {sp : Span}
    {sc : Scope} {ts : List TypedStmt} (hp : s.program.Placed fun k => first ≤ k.index)
    (hj : s.program.Opens j outer vs) (hprogram : s'.program = s.program)
    (hsc : s'.program.scopeAt? j = some sc) (hfree : sc.vars[n]? = none)
    (hts : ts.flatMap TypedStmt.blocks = []) :
    s.Lays (s'.bindVar j sc ⟨n, ty, .localVar, none, sp⟩) first j outer vs
      [.varDecl n type value sp] ts [s'.nextVar] := by
  have hvar : (s'.bindVar j sc ⟨n, ty, .localVar, none, sp⟩).program.local? s'.nextVar =
      some (n, sp) := by
    unfold Program.local?
    rw [varAt?_bindVar, if_pos rfl]
    rfl
  rw [← hprogram] at hp hj
  refine ⟨?_, placed_bindVar hp hsc hfree, opens_bindVar hj hsc hfree, ?_, ?_, ?_⟩
  · rw [TypedStmt.scopesAll_eq, hts]
    exact (Spreads.of_program hprogram _).trans (spreads_bindVar hsc)
  · rw [List.map_singleton, hvar]
    rfl
  · rw [hts]; rfl
  · rw [hts]; simp

/-- An empty block. -/
theorem laid_empty (s : Resolver) (j : ScopeId) (sp : Span) :
    (Block.mk [] sp).Laid (s.pushScope (.empty .block (some j))).program j []
      (.mk [] s.nextScope sp) := by
  have hnone : [].map (s.pushScope (.empty .block (some j))).program.local? =
      (Block.mk [] sp).variables.map some := rfl
  exact .mk (opens_pushScope s j) hnone rfl (by simp [Block.blocks, Block.body])

/-- Statements and then further ones. -/
theorem Lays.append {body body' : List Stmt} {ts ts' : List TypedStmt} {ws' : List VariableId}
    (h : s.Lays s' first j outer vs body ts ws)
    (h' : s'.Lays s'' first j outer (vs ++ ws) body' ts' ws')
    (hj : s.program.Opens j outer vs) :
    s.Lays s'' first j outer vs (body ++ body') (ts ++ ts') (ws ++ ws') where
  spreads := by
    rw [TypedStmt.scopesAll_append]
    exact h.spreads.trans h'.spreads
  placed := h'.placed
  opens := by rw [← List.append_assoc]; exact h'.opens
  laying := by
    -- the later statements change the scope around, but none of the blocks before
    obtain ⟨sc, hsc, -⟩ := hj.block
    refine (h.laying.mono h'.spreads.vars fun k hk sc' hsc' => ?_).append h'.laying
    exact h'.spreads.scopes k sc' hsc' fun heq => h.spreads.ne_of_mem hsc hk (Option.some.inj heq)

end Resolver

theorem Expr.resolveOptional_steady (d : Dialect) (j : ScopeId) (e : Option Expr) :
    Steady (Expr.resolveOptional d j e) := by
  cases e with
  | none => exact .pure _
  | some e => exact (e.resolve_steady d j).map

theorem Expr.resolveCondition_steady (d : Dialect) (j : ScopeId) (e : Expr) :
    Steady (e.resolveCondition d j) := (e.resolve_steady d j).seq fun _ => .ask _

/-- A condition adds no scopes, so what was to be known of the state is known after it too. -/
theorem Expr.resolveCondition_lays (d : Dialect) (j : ScopeId) (c : Expr) {s : Resolver} {first : Nat}
    (hfirst : first ≤ s.nextScope.index) (hp : s.program.Placed fun k => first ≤ k.index) :
    Gives (c.resolveCondition d j) s (fun _ s' => s.Spreads s' none [] ∧
      first ≤ s'.nextScope.index ∧ s'.program.Placed fun k => first ≤ k.index) := by
  refine (c.resolveCondition_steady d j s).post ?_
  rintro _ s' ⟨hprogram, -⟩
  have hspreads := Spreads.of_program hprogram none
  refine ⟨hspreads, ?_, ?_⟩
  · rw [hspreads.next]
    exact hfirst
  · rw [hprogram]
    exact hp

/-! ## Kinds of statements -/

/-- **What a statement adds to the scopes.** -/
def Stmt.LaysOut (d : Dialect) (st : Stmt) : Prop :=
  ∀ ⦃s : Resolver⦄ ⦃first : Nat⦄ ⦃j outer : ScopeId⦄ ⦃vs : List VariableId⦄,
    first ≤ s.nextScope.index → s.program.Placed (fun k => first ≤ k.index) →
    s.program.Opens j outer vs →
    Gives (st.resolve d j) s
      (fun t s' => ∃ ws, s.Lays s' first j outer vs [st] t.toList ws)

/-- **What statements in turn add to the scopes.** -/
def Stmt.LaysOutAll (d : Dialect) (body : List Stmt) : Prop :=
  ∀ ⦃s : Resolver⦄ ⦃first : Nat⦄ ⦃j outer : ScopeId⦄ ⦃vs : List VariableId⦄,
    first ≤ s.nextScope.index → s.program.Placed (fun k => first ≤ k.index) →
    s.program.Opens j outer vs →
    Gives (Stmt.resolveAll d j body) s
      (fun ts s' => ∃ ws, s.Lays s' first j outer vs body ts ws)

/-- **A block in a scope of its own.** -/
def Block.LaysOut (d : Dialect) (b : Block) : Prop :=
  ∀ ⦃s : Resolver⦄ ⦃first : Nat⦄ ⦃j : ScopeId⦄,
    first ≤ s.nextScope.index → s.program.Placed (fun k => first ≤ k.index) →
    Gives (b.resolveNested d j) s (fun t s' => s.Spreads s' none t.scopes ∧
      s'.program.Placed (fun k => first ≤ k.index) ∧ b.Laid s'.program j [] t)

namespace Stmt

variable {d : Dialect} {e a b c : Expr} {value : Option Expr} {n : String} {type : TypeName}
  {sp : Span} {yes no block : Block} {st : Stmt} {rest : List Stmt}

theorem LaysOut.expression : (Stmt.expression e sp).LaysOut d := by
  intro s first j outer vs _ hp hj
  rw [Stmt.resolve]
  refine (e.resolve_steady d j s).seq fun t s₁ h₁ => ?_
  refine Leads.map (ask_leads ((s₁.callStmt_form t sp).post ?_))
  rintro _ rfl
  exact ⟨[], .plain hp hj h₁.1 rfl rfl rfl⟩

theorem LaysOut.assignment : (Stmt.assignment a b sp).LaysOut d := by
  intro s first j outer vs _ hp hj
  rw [Stmt.resolve]
  refine (a.resolve_steady d j s).seq fun l s₁ h₁ => ?_
  refine (b.resolve_steady d j s₁).seq fun r s₂ h₂ => ?_
  refine Leads.map (ask_leads ((s₂.assignment_form l r sp).post ?_))
  rintro _ rfl
  exact ⟨[], .plain hp hj (h₁.trans h₂).1 rfl rfl rfl⟩

theorem LaysOut.ret : (Stmt.ret value sp).LaysOut d := by
  intro s first j outer vs _ hp hj
  rw [Stmt.resolve]
  refine ask_any fun g => ?_
  refine (Expr.resolveOptional_steady d j value s).seq fun t s₁ h₁ => ?_
  refine Leads.map (ask_leads ((s₁.ret_form g.result t sp).post ?_))
  rintro _ rfl
  exact ⟨[], .plain hp hj h₁.1 rfl rfl rfl⟩

/-- A declaration binds its variable in the scope around, whether or not it gives a value. -/
theorem LaysOut.varDecl : (Stmt.varDecl n type value sp).LaysOut d := by
  intro s first j outer vs _ hp hj
  rw [Stmt.resolve]
  refine (type.resolve_steady d j s).seq fun ty s₁ h₁ => ?_
  refine (Expr.resolveOptional_steady d j value s₁).seq fun t s₂ h₂ => ?_
  have hprogram := (h₁.trans h₂).1
  refine bindVariable_runs.seq ?_
  rintro _ _ ⟨sc, hsc, hfree, rfl, rfl⟩
  cases t with
  | none => exact Leads.pure ⟨_, .declares hp hj hprogram hsc hfree rfl⟩
  | some t =>
    refine Leads.map (ask_leads ((assignment_form _ (.var s₂.nextVar ty sp) t sp).post ?_))
    rintro _ rfl
    exact ⟨_, .declares hp hj hprogram hsc hfree rfl⟩

/-- Both branches are laid out, one after the other. -/
theorem LaysOut.ifElse (hyes : yes.LaysOut d) (hno : no.LaysOut d) :
    (Stmt.ifElse c yes no sp).LaysOut d := by
  intro s first j outer vs hfirst hp hj
  rw [Stmt.resolve]
  refine (c.resolveCondition_lays d j hfirst hp).seq ?_
  rintro t s₁ ⟨hcond, hfirst₁, hp₁⟩
  refine (hyes hfirst₁ hp₁).seq ?_
  rintro y s₂ ⟨hy, hp₂, hlaid⟩
  have hfirst₂ : first ≤ s₂.nextScope.index := by
    rw [hy.next]
    exact Nat.le_add_right_of_le hfirst₁
  refine (hno hfirst₂ hp₂).seq ?_
  rintro z s₃ ⟨hz, hp₃, hlaid'⟩
  exact Leads.pure ⟨[], .branches rfl rfl hj hp₃ hcond hy hz hlaid hlaid'⟩

/-- The missing `else` is an empty block. -/
theorem LaysOut.ifThen (hyes : yes.LaysOut d) : (Stmt.ifThen c yes sp).LaysOut d := by
  intro s first j outer vs hfirst hp hj
  rw [Stmt.resolve]
  refine (c.resolveCondition_lays d j hfirst hp).seq ?_
  rintro t s₁ ⟨hcond, hfirst₁, hp₁⟩
  refine (hyes hfirst₁ hp₁).seq ?_
  rintro y s₂ ⟨hy, hp₂, hlaid⟩
  have hfirst₂ : first ≤ s₂.nextScope.index := by
    rw [hy.next]
    exact Nat.le_add_right_of_le hfirst₁
  refine (pushScope_runs .block j s₂).seq ?_
  rintro _ _ ⟨rfl, rfl⟩
  exact Leads.pure ⟨[], .branches rfl rfl hj (placed_enter j hfirst₂ hp₂) hcond hy
    (spreads_pushScope s₂ j) hlaid (laid_empty s₂ j sp)⟩

theorem LaysOut.whileDo (hblock : block.LaysOut d) : (Stmt.whileDo c block sp).LaysOut d := by
  intro s first j outer vs hfirst hp hj
  rw [Stmt.resolve]
  refine (c.resolveCondition_lays d j hfirst hp).seq ?_
  rintro t s₁ ⟨hcond, hfirst₁, hp₁⟩
  refine (hblock hfirst₁ hp₁).seq ?_
  rintro y s₂ ⟨hy, hp₂, hlaid⟩
  refine Leads.pure ⟨[], .nested rfl hj ?_ hp₂ rfl ?_⟩
  · rw [TypedStmt.scopes]
    exact hcond.trans hy
  · intro q hq
    cases List.mem_singleton.1 hq
    exact hlaid

theorem LaysOut.nested (hblock : block.LaysOut d) : (Stmt.nested block).LaysOut d := by
  intro s first j outer vs hfirst hp hj
  rw [Stmt.resolve]
  refine (hblock hfirst hp).seq ?_
  rintro y s₁ ⟨hy, hp₁, hlaid⟩
  refine Leads.pure ⟨[], .nested rfl hj ?_ hp₁ rfl ?_⟩
  · rw [TypedStmt.scopes]
    exact hy
  · intro q hq
    cases List.mem_singleton.1 hq
    exact hlaid

theorem LaysOutAll.nil : Stmt.LaysOutAll d [] := by
  intro s first j outer vs _ hp hj
  rw [Stmt.resolveAll]
  refine Leads.pure ⟨[], .of_program rfl _, hp, ?_, .nil⟩
  rw [List.append_nil]
  exact hj

theorem LaysOutAll.cons (hst : st.LaysOut d) (hrest : Stmt.LaysOutAll d rest) :
    Stmt.LaysOutAll d (st :: rest) := by
  intro s first j outer vs hfirst hp hj
  rw [Stmt.resolveAll]
  refine (hst hfirst hp hj).seq ?_
  rintro t s₁ ⟨ws, h₁⟩
  have hfirst₁ : first ≤ s₁.nextScope.index := by
    rw [h₁.spreads.next]
    exact Nat.le_add_right_of_le hfirst
  refine (hrest hfirst₁ h₁.placed h₁.opens).seq ?_
  rintro ts s₂ ⟨ws', h₂⟩
  exact Leads.pure ⟨ws ++ ws', h₁.append h₂ hj⟩

end Stmt

/-- A block from its statements. Its scope is new, so nothing that was there before has changed. -/
theorem Block.LaysOut.mk {d : Dialect} {body : List Stmt} {sp : Span}
    (hbody : Stmt.LaysOutAll d body) : (Block.mk body sp).LaysOut d := by
  intro s first j hfirst hp
  rw [Block.resolveNested]
  refine (pushScope_runs .block j s).seq ?_
  rintro _ _ ⟨rfl, rfl⟩
  have hpush := spreads_pushScope s j
  have hfirst₁ : first ≤ (s.pushScope (.empty .block (some j))).nextScope.index := by
    rw [hpush.next]
    exact Nat.le_add_right_of_le hfirst
  refine (hbody hfirst₁ (placed_enter j hfirst hp) (opens_pushScope s j)).seq ?_
  rintro ts s₁ ⟨ws, h₁⟩
  refine Leads.pure ⟨?_, h₁.placed, .mk h₁.opens h₁.laying.declared h₁.laying.count
    h₁.laying.inner⟩
  rw [TypedBlock.scopes]
  exact hpush.comp h₁.spreads fun k sc hk heq => by
    cases heq
    rw [scopeAt?_nextScope] at hk
    cases hk

/-! ## All statements -/

section

variable {d : Dialect}

mutual

theorem Stmt.laysOut : (st : Stmt) → st.LaysOut d
  | .expression _ _ => .expression
  | .assignment _ _ _ => .assignment
  | .ret _ _ => .ret
  | .varDecl _ _ _ _ => .varDecl
  | .ifElse _ yes no _ => .ifElse (Block.laysOut yes) (Block.laysOut no)
  | .ifThen _ yes _ => .ifThen (Block.laysOut yes)
  | .whileDo _ block _ => .whileDo (Block.laysOut block)
  | .nested block => .nested (Block.laysOut block)

theorem Stmt.laysOutAll : (body : List Stmt) → Stmt.LaysOutAll d body
  | [] => .nil
  | st :: rest => .cons (Stmt.laysOut st) (Stmt.laysOutAll rest)

theorem Block.laysOut : (b : Block) → b.LaysOut d
  | .mk body _ => .mk (Stmt.laysOutAll body)

end

end

/-- **What all statements of a body add** to the scope they are in. -/
theorem Stmt.resolveAll_lays (d : Dialect) (body : List Stmt) {s : Resolver} {first : Nat}
    {j outer : ScopeId} {vs : List VariableId} (hfirst : first ≤ s.nextScope.index)
    (hp : s.program.Placed fun k => first ≤ k.index) (hj : s.program.Opens j outer vs) :
    Gives (Stmt.resolveAll d j body) s
      (fun ts s' => ∃ ws, s.Lays s' first j outer vs body ts ws) :=
  Stmt.laysOutAll body hfirst hp hj

end ClassLang
