import ClassLang.Proofs.ScopeMap
import ClassLang.Proofs.ScopingUnit

/-!
# The states in which bodies are resolved

What an expression means depends on the state in which it is resolved and on the scope around it.
`CompilationUnit.Visits` says which states and scopes come up in the body of a method.

* `InBody`: what is known of them. Each step keeps it (`InBody.type`, `InBody.expr`, `InBody.stmt`,
  `InBody.block`), so all states have it (`Visits.inBody`).
* `Stmt.visitsBlocks`: a statement visits all blocks in it, with one lemma for each kind of statement.
* `resolveBodies_visits`: so the scopes of all methods and of all blocks in their bodies are visited.
-/

namespace ClassLang

open Resolver Resolve

/-! ## States inside bodies -/

/-- The scopes of a method: its own, and those of the blocks in its body. -/
def Method.scopes (g : Method) : List ScopeId := g.scope.toList ++ g.inner

/-- **The states in which the body of a method is resolved**, each with the scope in which the next
thing would be looked up. After the signatures have been read and the bodies before it have been
resolved, the body is entered; then types, expressions and statements are resolved, and blocks are
entered. Which of them are there depends on the source; here any are allowed, so that all states in
which an expression of the body is resolved are among those that are visited. -/
inductive CompilationUnit.Visits (d : Dialect) (u : CompilationUnit) (l : MethodId) :
    Resolver → ScopeId → Prop where
  | enter {pre post m s s' g j} : readSignatures d u .initial = .ok (pre ++ (l, m) :: post) s →
      (pre.forM fun b => resolveBody d b.1 b.2) s = .ok ⟨⟩ s' → s'.program.methodAt? l = some g →
      g.scope = some j → Visits d u l (s'.within (some l)) j
  | type {type : TypeName} {s j ty s'} : Visits d u l s j → type.resolve d j s = .ok ty s' →
      Visits d u l s' j
  | expr {e : Expr} {s j t s'} : Visits d u l s j → e.resolve d j s = .ok t s' → Visits d u l s' j
  | stmt {st : Stmt} {s j t s'} : Visits d u l s j → st.resolve d j s = .ok t s' → Visits d u l s' j
  | block {s j k s'} : Visits d u l s j → Resolve.pushScope .block j s = .ok k s' → Visits d u l s' k

namespace Resolver

variable {s s' s₀ : Resolver} {d : Dialect} {u : CompilationUnit} {l : MethodId} {j k : ScopeId}
  {bodies : List (MethodId × MethodDecl)} {classes : List NamedClass}

/-- **A state in the body of `l`**, where `s₀` is the state before all bodies. -/
structure InBody (s₀ s : Resolver) (d : Dialect) (l : MethodId) (j : ScopeId) : Prop where
  kept : s₀.Extends s
  known : ∃ g, s₀.program.methodAt? l = some g
  current : s.current = some l
  inside : ∃ x g this bs B M names Δ, x.dialect = d ∧
    s.Inside x g this j (bs :: B) M (names :: Δ)

/-- Something that binds no names stays in the body. -/
theorem InBody.frame (h : InBody s₀ s d l j) (hf : Frame s s' none none none) (hs' : s'.Sound) :
    InBody s₀ s' d l j := by
  obtain ⟨x, g, this, bs, B, M, names, Δ, hx, hin⟩ := h.inside
  exact ⟨h.kept.trans hf.extends_of_none, h.known, hf.current.trans h.current,
    x, g, this, bs, B, M, names, Δ, hx, hin.frame hf hs'⟩

/-- Resolving a type stays in the body, -/
theorem InBody.type {type : TypeName} {ty : TypeId} (h : InBody s₀ s d l j)
    (hrun : type.resolve d j s = .ok ty s') : InBody s₀ s' d l j := by
  obtain ⟨x, g, this, bs, B, M, names, Δ, rfl, hin⟩ := h.inside
  obtain ⟨sc, hsc⟩ := hin.setting.scope
  obtain ⟨hf, hs', -⟩ :=
    (type.resolve_leads hin.setting.sound hin.setting.represents.types hsc).of_ok hrun
  exact h.frame hf hs'

/-- and so does resolving an expression -/
theorem InBody.expr {e : Expr} {t : TypedExpr} (h : InBody s₀ s d l j)
    (hrun : e.resolve d j s = .ok t s') : InBody s₀ s' d l j := by
  obtain ⟨x, g, this, bs, B, M, names, Δ, rfl, hin⟩ := h.inside
  have ht := (e.resolve_leads hin.setting).of_ok hrun
  exact h.frame ht.frame ht.sound

/-- or a statement, after which the block may bind another name. -/
theorem InBody.stmt {st : Stmt} {t : Option TypedStmt} (h : InBody s₀ s d l j)
    (hrun : st.resolve d j s = .ok t s') : InBody s₀ s' d l j := by
  obtain ⟨x, g, this, bs, B, M, names, Δ, rfl, hin⟩ := h.inside
  have hf := ((st.resolve_leads hin.setting).of_ok hrun).frame
  obtain ⟨names', ds, -, -, bs', hin'⟩ := (st.scoped hin).of_ok hrun
  obtain ⟨sc, p, hsc, hk, -⟩ := hin.setting.block
  exact ⟨h.kept.trans (hf.extends_of_block hsc hk), h.known, hf.current.trans h.current,
    x, g, this, bs', B, M, names', Δ, rfl, hin'⟩

/-- A block that is entered is in the body. -/
theorem InBody.block (h : InBody s₀ s d l j) (hrun : Resolve.pushScope .block j s = .ok k s') :
    InBody s₀ s' d l k := by
  obtain ⟨x, g, this, bs, B, M, names, Δ, rfl, hin⟩ := h.inside
  obtain ⟨sc, hsc⟩ := hin.setting.scope
  obtain ⟨hf, hs', -, -, hk⟩ :=
    (pushScope_leads hin.setting.sound hsc (E := fun _ => True)).of_ok hrun
  exact ⟨h.kept.trans hf.extends_of_none, h.known, hf.current.trans h.current,
    x, g, this, [], bs :: B, M, [], names :: Δ, rfl, hin.enter hf hs' hk⟩

/-- What is known after the bodies of `pre`. -/
theorem bodiesRead_of_run (h₀ : s₀.Signed d u bodies) (hread : s₀.Readied d u bodies classes)
    {pre post : List (MethodId × MethodDecl)} (hl : bodies = pre ++ post)
    (hrun : (pre.forM fun b => resolveBody d b.1 b.2) s₀ = .ok ⟨⟩ s) :
    ∃ Ns, BodiesRead s₀ s d u bodies pre Ns := by
  have hleads := Leads.forM (l := pre) (s := s₀) (E := fun _ => True)
    (f := fun b : MethodId × MethodDecl => resolveBody d b.1 b.2)
    (fun pre s => ∃ Ns, BodiesRead s₀ s d u bodies pre Ns) ⟨[], hread.bodiesRead h₀⟩ ?_
  · exact hleads.of_ok hrun
  · rintro before b after s' hpre ⟨Ns, hI⟩
    have hsplit : bodies = before ++ b :: (after ++ post) := by
      rw [hl, hpre, List.append_assoc, List.cons_append]
    obtain ⟨hbefore, hrest⟩ := distinct_split (List.pairwise_map.1 h₀.distinct) hsplit
    have hb : b ∈ bodies := by
      rw [hsplit]
      simp
    refine (resolveBody_mirrors h₀ hread hI hb hbefore hrest).leads.gives ?_
    rintro _ s'' ⟨N, -, hN⟩
    exact ⟨Ns ++ [N], hN⟩

/-- The state in which a body is entered. -/
theorem entered (h₀ : s₀.Signed d u bodies) (hread : s₀.Readied d u bodies classes)
    {pre post : List (MethodId × MethodDecl)} {m : MethodDecl} (hl : bodies = pre ++ (l, m) :: post)
    (hrun : (pre.forM fun b => resolveBody d b.1 b.2) s₀ = .ok ⟨⟩ s) :
    ∃ g j, s.program.methodAt? l = some g ∧ g.scope = some j ∧ g.body = none ∧
      InBody s₀ (s.within (some l)) d l j := by
  obtain ⟨Ns, hbodies⟩ := bodiesRead_of_run h₀ hread hl hrun
  have hb : (l, m) ∈ bodies := by
    rw [hl]
    simp
  have hnot : (l, m) ∉ pre := fun hmem =>
    (distinct_split (List.pairwise_map.1 h₀.distinct) hl).1 _ hmem rfl
  obtain ⟨x, g, j, bs, hx, hg, hj, hbody, -, hin⟩ := hbodies.inside h₀ hread hb hnot
  obtain ⟨owner, g₀, j₀, -, hr⟩ := h₀.ready (l, m) hb
  exact ⟨g, j, hg, hj, hbody, hbodies.kept.trans (Extends.within s (some l)), ⟨g₀, hr.method⟩, rfl,
    x, g, _, bs, [], _, _, [], hx, hin⟩

end Resolver

namespace CompilationUnit

variable {s s₀ : Resolver} {d : Dialect} {u : CompilationUnit} {l : MethodId} {j : ScopeId}
  {bodies : List (MethodId × MethodDecl)} {classes : List NamedClass}

/-- **All states that are visited are in the body.** -/
theorem Visits.inBody (h : u.Visits d l s j) (hrun : readSignatures d u .initial = .ok bodies s₀)
    (h₀ : s₀.Signed d u bodies) (hread : s₀.Readied d u bodies classes) : InBody s₀ s d l j := by
  induction h with
  | enter hsig hpre hg hj =>
    rw [hrun] at hsig
    cases hsig
    obtain ⟨g', j', hg', hj', -, hin⟩ := entered h₀ hread rfl hpre
    rw [hg] at hg'
    cases hg'
    rw [hj] at hj'
    cases hj'
    exact hin
  | type _ hstep ih => exact ih.type hstep
  | expr _ hstep ih => exact ih.expr hstep
  | stmt _ hstep ih => exact ih.stmt hstep
  | block _ hstep ih => exact ih.block hstep

/-- A condition is visited as an expression is, -/
theorem Visits.condition {c : Expr} (h : u.Visits d l s j) :
    Gives (c.resolveCondition d j) s (fun _ s' => u.Visits d l s' j) := by
  unfold Expr.resolveCondition
  refine Leads.runs.seq fun t s₁ hrun => ?_
  exact ask_leads (Yields.of_forall fun _ => h.expr hrun)

/-- and a block like the statement that is nothing but a block. -/
theorem Visits.nested {b : Block} {t : TypedBlock} {s' : Resolver} (h : u.Visits d l s j)
    (hrun : b.resolveNested d j s = .ok t s') : u.Visits d l s' j := by
  have hstmt : (Stmt.nested b).resolve d j s = .ok (some (.nested t)) s' := by
    rw [Stmt.resolve, bind_of_ok hrun]
    rfl
  exact h.stmt hstmt

end CompilationUnit

/-! ## All blocks are visited -/

section

variable {d : Dialect} {u : CompilationUnit} {l : MethodId}

/-- **A statement visits all blocks in it.** -/
def Stmt.VisitsBlocks (u : CompilationUnit) (d : Dialect) (l : MethodId) (st : Stmt) : Prop :=
  ∀ ⦃s : Resolver⦄ ⦃j : ScopeId⦄, u.Visits d l s j →
    Gives (st.resolve d j) s
      (fun o _ => ∀ k ∈ TypedStmt.scopesAll o.toList, ∃ s', u.Visits d l s' k)

/-- **So do statements in turn**, -/
def Stmt.VisitsBlocksAll (u : CompilationUnit) (d : Dialect) (l : MethodId) (body : List Stmt) :
    Prop :=
  ∀ ⦃s : Resolver⦄ ⦃j : ScopeId⦄, u.Visits d l s j →
    Gives (Stmt.resolveAll d j body) s
      (fun ts _ => ∀ k ∈ TypedStmt.scopesAll ts, ∃ s', u.Visits d l s' k)

/-- **and a block in a scope of its own**, which is visited first. -/
def Block.VisitsBlocks (u : CompilationUnit) (d : Dialect) (l : MethodId) (b : Block) : Prop :=
  ∀ ⦃s : Resolver⦄ ⦃j : ScopeId⦄, u.Visits d l s j →
    Gives (b.resolveNested d j) s (fun t _ => ∀ k ∈ t.scopes, ∃ s', u.Visits d l s' k)

namespace Stmt

variable {e a b c : Expr} {value : Option Expr} {n : String} {type : TypeName} {sp : Span}
  {yes no block : Block} {st : Stmt} {rest : List Stmt}

theorem VisitsBlocks.expression : (Stmt.expression e sp).VisitsBlocks u d l := by
  intro s j _
  rw [Stmt.resolve]
  refine Leads.runs.seq fun t s₁ _ => ?_
  refine Leads.map (ask_leads ((s₁.callStmt_form t sp).post ?_))
  rintro _ rfl
  simp [TypedStmt.scopesAll, TypedStmt.scopes]

theorem VisitsBlocks.assignment : (Stmt.assignment a b sp).VisitsBlocks u d l := by
  intro s j _
  rw [Stmt.resolve]
  refine Leads.runs.seq fun left s₁ _ => ?_
  refine Leads.runs.seq fun right s₂ _ => ?_
  refine Leads.map (ask_leads ((s₂.assignment_form left right sp).post ?_))
  rintro _ rfl
  simp [TypedStmt.scopesAll, TypedStmt.scopes]

theorem VisitsBlocks.ret : (Stmt.ret value sp).VisitsBlocks u d l := by
  intro s j _
  rw [Stmt.resolve]
  refine Leads.runs.seq fun g s₁ _ => ?_
  refine Leads.runs.seq fun t s₂ _ => ?_
  refine Leads.map (ask_leads ((s₂.ret_form g.result t sp).post ?_))
  rintro _ rfl
  simp [TypedStmt.scopesAll, TypedStmt.scopes]

theorem VisitsBlocks.varDecl : (Stmt.varDecl n type value sp).VisitsBlocks u d l := by
  intro s j _
  rw [Stmt.resolve]
  refine Leads.runs.seq fun ty s₁ _ => ?_
  refine Leads.runs.seq fun t s₂ _ => ?_
  refine Leads.runs.seq fun v s₃ _ => ?_
  cases t with
  | none => exact Leads.pure (by simp [TypedStmt.scopesAll])
  | some t =>
    refine Leads.map (ask_leads ((s₃.assignment_form (.var v ty sp) t sp).post ?_))
    rintro _ rfl
    simp [TypedStmt.scopesAll, TypedStmt.scopes]

theorem VisitsBlocks.ifElse (hyes : yes.VisitsBlocks u d l) (hno : no.VisitsBlocks u d l) :
    (Stmt.ifElse c yes no sp).VisitsBlocks u d l := by
  intro s j h
  rw [Stmt.resolve]
  refine h.condition.seq fun t s₁ h₁ => ?_
  refine ((hyes h₁).and Leads.runs).seq ?_
  rintro y s₂ ⟨hy, hrun⟩
  refine (hno (h₁.nested hrun)).seq fun z s₃ hz => ?_
  refine Leads.pure fun k hk => ?_
  simp only [Option.toList_some, TypedStmt.scopesAll, TypedStmt.scopes, List.append_nil] at hk
  rcases List.mem_append.1 hk with hk | hk
  · exact hy k hk
  · exact hz k hk

/-- The block of the missing `else` is entered and left at once. -/
theorem VisitsBlocks.ifThen (hyes : yes.VisitsBlocks u d l) :
    (Stmt.ifThen c yes sp).VisitsBlocks u d l := by
  intro s j h
  rw [Stmt.resolve]
  refine h.condition.seq fun t s₁ h₁ => ?_
  refine ((hyes h₁).and Leads.runs).seq ?_
  rintro y s₂ ⟨hy, hrun⟩
  refine Leads.runs.seq fun empty s₃ hpush => ?_
  refine Leads.pure fun k hk => ?_
  simp only [Option.toList_some, TypedStmt.scopesAll, TypedStmt.scopes, List.append_nil] at hk
  rcases List.mem_append.1 hk with hk | hk
  · exact hy k hk
  · rw [TypedBlock.scopes, TypedStmt.scopesAll, List.mem_singleton] at hk
    subst hk
    exact ⟨s₃, (h₁.nested hrun).block hpush⟩

theorem VisitsBlocks.whileDo (hblock : block.VisitsBlocks u d l) :
    (Stmt.whileDo c block sp).VisitsBlocks u d l := by
  intro s j h
  rw [Stmt.resolve]
  refine h.condition.seq fun t s₁ h₁ => ?_
  refine (hblock h₁).seq fun y s₂ hy => ?_
  refine Leads.pure fun k hk => hy k ?_
  simpa only [Option.toList_some, TypedStmt.scopesAll, TypedStmt.scopes, List.append_nil] using hk

theorem VisitsBlocks.nested (hblock : block.VisitsBlocks u d l) :
    (Stmt.nested block).VisitsBlocks u d l := by
  intro s j h
  rw [Stmt.resolve]
  refine (hblock h).seq fun y s₁ hy => ?_
  refine Leads.pure fun k hk => hy k ?_
  simpa only [Option.toList_some, TypedStmt.scopesAll, TypedStmt.scopes, List.append_nil] using hk

theorem VisitsBlocksAll.nil : Stmt.VisitsBlocksAll u d l [] := by
  intro s j _
  rw [Stmt.resolveAll]
  exact Leads.pure (by simp [TypedStmt.scopesAll])

theorem VisitsBlocksAll.cons (hst : st.VisitsBlocks u d l)
    (hrest : Stmt.VisitsBlocksAll u d l rest) : Stmt.VisitsBlocksAll u d l (st :: rest) := by
  intro s j h
  rw [Stmt.resolveAll]
  refine ((hst h).and Leads.runs).seq ?_
  rintro t s₁ ⟨ht, hrun⟩
  refine (hrest (h.stmt hrun)).seq fun ts s₂ hts => ?_
  refine Leads.pure fun k hk => ?_
  rw [TypedStmt.scopesAll_append] at hk
  rcases List.mem_append.1 hk with hk | hk
  · exact ht k hk
  · exact hts k hk

end Stmt

theorem Block.VisitsBlocks.mk {body : List Stmt} {sp : Span}
    (hbody : Stmt.VisitsBlocksAll u d l body) : (Block.mk body sp).VisitsBlocks u d l := by
  intro s j h
  rw [Block.resolveNested]
  refine Leads.runs.seq fun i s₁ hpush => ?_
  have h₁ := h.block hpush
  refine (hbody h₁).seq fun ts s₂ hts => ?_
  refine Leads.pure fun k hk => ?_
  rw [TypedBlock.scopes] at hk
  rcases List.mem_cons.1 hk with rfl | hk
  · exact ⟨s₁, h₁⟩
  · exact hts k hk

mutual

theorem Stmt.visitsBlocks : (st : Stmt) → st.VisitsBlocks u d l
  | .expression _ _ => .expression
  | .assignment _ _ _ => .assignment
  | .ret _ _ => .ret
  | .varDecl _ _ _ _ => .varDecl
  | .ifElse _ yes no _ => .ifElse (Block.visitsBlocks yes) (Block.visitsBlocks no)
  | .ifThen _ yes _ => .ifThen (Block.visitsBlocks yes)
  | .whileDo _ block _ => .whileDo (Block.visitsBlocks block)
  | .nested block => .nested (Block.visitsBlocks block)

theorem Stmt.visitsBlocksAll : (body : List Stmt) → Stmt.VisitsBlocksAll u d l body
  | [] => .nil
  | st :: rest => .cons (Stmt.visitsBlocks st) (Stmt.visitsBlocksAll rest)

theorem Block.visitsBlocks : (b : Block) → b.VisitsBlocks u d l
  | .mk body _ => .mk (Stmt.visitsBlocksAll body)

end

end

namespace Resolver

variable {s s₀ : Resolver} {d : Dialect} {u : CompilationUnit}
  {bodies pre post : List (MethodId × MethodDecl)} {classes : List NamedClass}
  {b : MethodId × MethodDecl}

/-- **A body visits the scopes of its method.** -/
theorem resolveBody_visits (h₀ : s₀.Signed d u bodies) (hread : s₀.Readied d u bodies classes)
    (hsig : readSignatures d u .initial = .ok bodies s₀) (hl : bodies = pre ++ b :: post)
    (hpre : (pre.forM fun b => resolveBody d b.1 b.2) s₀ = .ok ⟨⟩ s) :
    Gives (resolveBody d b.1 b.2) s (fun _ s' => ∀ g, s'.program.methodAt? b.1 = some g →
      ∀ k ∈ g.scopes, ∃ s'', u.Visits d b.1 s'' k) := by
  obtain ⟨g, j, hg, hj, hnone, hin⟩ := entered h₀ hread hl hpre
  have henter : u.Visits d b.1 (s.within (some b.1)) j := by
    rw [hl] at hsig
    exact .enter hsig hpre hg hj
  refine resolveBody_seq hg hj (fun _ g' hg' k hk => ?_) fun body span _ => ?_
  · rw [hg] at hg'
    cases hg'
    rw [Method.scopes, Method.inner, hj, hnone] at hk
    cases List.mem_singleton.1 hk
    exact ⟨_, henter⟩
  · obtain ⟨x, g', this, bs, B, M, names, Δ, rfl, hinside⟩ := hin.inside
    refine ((Stmt.resolveAll_leads body hinside.setting).and
      (Stmt.visitsBlocksAll body henter)).gives ?_
    rintro ts s₂ ⟨hres, hts⟩
    have hg₂ : s₂.program.methodAt? b.1 = some g := hres.frame.keepsMethod hg
    refine ⟨hg₂, fun g₂ hstored k hk => ?_⟩
    have hbody := (methodAt?_setBody hg₂ (.mk ts j span) b.1).trans (if_pos rfl)
    cases hbody.symm.trans hstored
    rw [Method.scopes, hj] at hk
    rcases List.mem_cons.1 hk with rfl | hk
    · exact ⟨_, henter⟩
    · exact hts k hk

/-- What has been run and one thing more. -/
theorem forM_concat_of_ok {α : Type} {f : α → Resolve PUnit} {l : List α} {a : α} {s₁ s₂ : Resolver}
    (hl : l.forM f s = .ok ⟨⟩ s₁) (ha : f a s₁ = .ok ⟨⟩ s₂) : (l ++ [a]).forM f s = .ok ⟨⟩ s₂ := by
  rw [List.forM_eq_forM] at hl ⊢
  rw [List.forM_append, bind_of_ok hl, List.forM_cons, bind_of_ok ha]
  rfl

/-- **The third pass visits the scopes of all methods.** -/
theorem resolveBodies_visits (h₀ : s₀.Signed d u bodies) (hread : s₀.Readied d u bodies classes)
    (hsig : readSignatures d u .initial = .ok bodies s₀) :
    Gives (resolveBodies d bodies) s₀ (fun _ s' => ∀ b ∈ bodies, ∀ g,
      s'.program.methodAt? b.1 = some g → ∀ k ∈ g.scopes, ∃ s'', u.Visits d b.1 s'' k) := by
  unfold resolveBodies
  have run := Leads.forM (l := bodies) (s := s₀) (E := fun _ => True)
    (f := fun b : MethodId × MethodDecl => resolveBody d b.1 b.2)
    (fun pre s' => (pre.forM fun b => resolveBody d b.1 b.2) s₀ = .ok ⟨⟩ s' ∧
      ∀ b ∈ pre, ∀ g, s'.program.methodAt? b.1 = some g →
        ∀ k ∈ g.scopes, ∃ s'', u.Visits d b.1 s'' k) ⟨rfl, by simp⟩ ?_
  · exact run.seq fun _ s' h => Leads.modify h.2
  · rintro pre b post s₁ hl ⟨hpre, hdone⟩
    obtain ⟨Ns, hbodies⟩ := bodiesRead_of_run h₀ hread hl hpre
    obtain ⟨hother, -⟩ := distinct_split (List.pairwise_map.1 h₀.distinct) hl
    have hmem : ∀ w ∈ pre, w ∈ bodies := by
      intro w hw
      rw [hl]
      exact List.mem_append_left _ hw
    have hb : b ∈ bodies := by
      rw [hl]
      simp
    have hnot : b ∉ pre := fun hmem => hother b hmem rfl
    refine (((resolveBody_visits h₀ hread hsig hl hpre).and
      (resolveBody_lowers h₀ hread hbodies hb hnot)).and Leads.runs).post ?_
    rintro _ s' ⟨⟨hvisits, -, j, -, hadd, -, -⟩, hrun⟩
    refine ⟨forM_concat_of_ok hpre hrun, fun w hw g hg => ?_⟩
    rcases List.mem_append.1 hw with hw | hw
    · -- the methods before keep their bodies
      obtain ⟨owner, g₀, j₀, -, hr⟩ := h₀.ready w (hmem w hw)
      obtain ⟨-, body, hbody, -⟩ := hbodies.bodied.done w hw owner g₀ j₀ hr
      have hkept := hadd.methods w.1 _ hbody (hother w hw)
      rw [hg] at hkept
      cases hkept
      exact hdone w hw _ hbody
    · cases List.mem_singleton.1 hw
      exact hvisits g hg

end Resolver

end ClassLang
