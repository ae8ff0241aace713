import ClassLang.Proofs.ScopingExpr

/-!
# Variables have their places

A variable is added together with the scope that binds it, the right operands of native operators
apart; and a block is added for a method or for a block inside one. So at any moment
(`Program.Placed`) every variable has one scope, which knows it by its own name, and every block has
a method, except for those that are told.

* `Steady`: computations that leave the program as it is, as those of expressions do.
* `placed_bindVar`, `placed_pushScope`, `placed_setMethod`: what the single steps do to this.
-/

namespace ClassLang

open Resolver Resolve

/-! ## Expressions leave the program as it is -/

/-- A computation that changes types at most. -/
def Steady {α : Type} (m : Resolve α) : Prop :=
  ∀ s, Gives m s (fun _ s' => s.KeepsProgram s')

namespace Steady

variable {α β : Type} {m : Resolve α} {k : α → Resolve β}

theorem pure (a : α) : Steady (Pure.pure a) := fun s => KeepsProgram.refl s

theorem ask (f : Resolver → Except Diagnostic α) : Steady (Resolve.ask f) :=
  fun s => ask_leads (Yields.of_forall fun _ => KeepsProgram.refl s)

theorem refuse (cause : Cause) (span : Span) : Steady (Resolve.refuse cause span : Resolve α) :=
  fun _ => refuse_leads trivial

theorem seq (h : Steady m) (hk : ∀ a, Steady (k a)) : Steady (m >>= k) := by
  intro s
  refine (h s).seq fun a s₁ h₁ => ?_
  exact (hk a s₁).post (fun _ _ h₂ => h₁.trans h₂)

theorem map {f : α → β} (h : Steady m) : Steady (f <$> m) :=
  fun s => Leads.map (R := fun _ s' => s.KeepsProgram s') (h s)

end Steady

theorem TypeName.resolve_steady (d : Dialect) (j : ScopeId) (type : TypeName) :
    Steady (type.resolve d j) := type.resolve_keeps

theorem Expr.resolve_steady (d : Dialect) (j : ScopeId) (e : Expr) : Steady (e.resolve d j) :=
  e.resolve_keeps

/-! ## Places -/

namespace Program

/-- A scope binds a name to a variable. -/
def NamesVar (p : Program) (j : ScopeId) (n : String) (v : VariableId) : Prop :=
  ∃ sc, p.scopeAt? j = some sc ∧ sc.vars[n]? = some v

/-- An argument of a native operator. -/
def IsOperand (p : Program) (v : VariableId) : Prop :=
  ∃ x index m g, p.varAt? v = some x ∧ x.kind = .argument index ∧ p.methodAt? m = some g ∧
    g.isOperator = true ∧ v ∈ g.arguments

/-- **Variables have their places**: bound under their own names, in one scope each; and every block
belongs to a method, except for the `loose` ones. -/
structure Placed (p : Program) (loose : ScopeId → Prop) : Prop where
  named : ∀ j n v, p.NamesVar j n v → ∃ x, p.varAt? v = some x ∧ x.name = n
  once : ∀ j j' n n' v, p.NamesVar j n v → p.NamesVar j' n' v → j = j'
  bound : ∀ v x, p.varAt? v = some x → p.IsOperand v ∨ ∃ j, p.NamesVar j x.name v
  owned : ∀ j sc, p.scopeAt? j = some sc → sc.kind = .block →
    loose j ∨ ∃ m g, p.methodAt? m = some g ∧ g.scope = some j

variable {p p' : Program} {loose loose' : ScopeId → Prop}

theorem placed_initial : Program.initial.Placed fun _ => False := by
  have hglobal : ∀ j sc, Program.initial.scopeAt? j = some sc → sc = .empty .global none := by
    intro j sc hsc
    have hmem := List.mem_of_getElem? ((Array.getElem?_toList ..).trans hsc)
    exact List.mem_singleton.1 hmem
  have hnothing : ∀ j n v, ¬ Program.initial.NamesVar j n v := by
    rintro j n v ⟨sc, hsc, hv⟩
    rw [hglobal j sc hsc] at hv
    simp [Scope.empty] at hv
  refine ⟨fun j n v h => absurd h (hnothing j n v), fun j _ n _ v h => absurd h (hnothing j n v),
    fun v x hx => ?_, fun j sc hsc hk => ?_⟩
  · cases hx
  · rw [hglobal j sc hsc] at hk
    cases hk

/-- Methods may come, and may learn their scope: operators and scopes of methods stay. -/
def KeepsOwners (p p' : Program) : Prop :=
  ∀ m g, p.methodAt? m = some g → ∃ g', p'.methodAt? m = some g' ∧
    (g.isOperator = true → g'.isOperator = true ∧ g'.arguments = g.arguments) ∧
    ∀ j, g.scope = some j → g'.scope = some j

theorem KeepsOwners.of_eq (h : p'.methods = p.methods) : p.KeepsOwners p' := by
  intro m g hg
  refine ⟨g, ?_, fun hop => ⟨hop, rfl⟩, fun _ hj => hj⟩
  unfold methodAt? at hg ⊢
  rw [h]
  exact hg

theorem KeepsOwners.operand (h : p.KeepsOwners p')
    (hvars : ∀ v x, p.varAt? v = some x → p'.varAt? v = some x) {v : VariableId}
    (hv : p.IsOperand v) : p'.IsOperand v := by
  obtain ⟨x, index, m, g, hx, hk, hg, hop, hmem⟩ := hv
  obtain ⟨g', hg', hop', -⟩ := h m g hg
  exact ⟨x, index, m, g', hvars v x hx, hk, hg', (hop' hop).1, (hop' hop).2 ▸ hmem⟩

theorem KeepsOwners.owner (h : p.KeepsOwners p') {j : ScopeId}
    (hj : ∃ m g, p.methodAt? m = some g ∧ g.scope = some j) :
    ∃ m g, p'.methodAt? m = some g ∧ g.scope = some j := by
  obtain ⟨m, g, hg, hscope⟩ := hj
  obtain ⟨g', hg', -, hscope'⟩ := h m g hg
  exact ⟨m, g', hg', hscope' j hscope⟩

/-- **Where nothing is bound anew**, places stay if the blocks that are there have methods or are
told. -/
theorem Placed.keep (h : p.Placed loose) (hvars : p'.vars = p.vars) (howners : p.KeepsOwners p')
    (hbound : ∀ j n v, p'.NamesVar j n v ↔ p.NamesVar j n v)
    (howned : ∀ j sc, p'.scopeAt? j = some sc → sc.kind = .block →
      loose' j ∨ ∃ m g, p'.methodAt? m = some g ∧ g.scope = some j) : p'.Placed loose' := by
  have hat : ∀ v, p'.varAt? v = p.varAt? v := by
    intro v
    unfold varAt?
    rw [hvars]
  refine ⟨fun j n v hv => ?_, fun j j' n n' v hv hv' => ?_, fun v x hx => ?_, howned⟩
  · rw [hat]
    exact h.named j n v ((hbound j n v).1 hv)
  · exact h.once j j' n n' v ((hbound j n v).1 hv) ((hbound j' n' v).1 hv')
  · rw [hat] at hx
    rcases h.bound v x hx with hop | ⟨j, hj⟩
    · exact .inl (howners.operand (fun w y hy => (hat w).trans hy) hop)
    · exact .inr ⟨j, (hbound j x.name v).2 hj⟩

theorem namesVar_iff_of_scopes (h : p'.scopes = p.scopes) {j : ScopeId} {n : String}
    {v : VariableId} : p'.NamesVar j n v ↔ p.NamesVar j n v := by
  unfold NamesVar scopeAt?
  rw [h]

/-- Places stay where only methods, classes and tables change. -/
theorem Placed.keepScopes (h : p.Placed loose) (hvars : p'.vars = p.vars)
    (hscopes : p'.scopes = p.scopes) (howners : p.KeepsOwners p') : p'.Placed loose := by
  refine h.keep hvars howners (fun _ _ _ => namesVar_iff_of_scopes hscopes) fun j sc hsc hk => ?_
  unfold scopeAt? at hsc
  rw [hscopes] at hsc
  exact (h.owned j sc hsc hk).imp_right howners.owner

/-- More blocks may be told. -/
theorem Placed.weaken (h : p.Placed loose) (hl : ∀ j, loose j → loose' j) : p.Placed loose' :=
  { h with owned := fun j sc hsc hk => (h.owned j sc hsc hk).imp_left (hl j) }

end Program

namespace Resolver

open Program

variable {s : Resolver} {loose : ScopeId → Prop} {j : ScopeId} {sc sc' : Scope}

theorem keepsOwners_pushMethod (g : Method) : s.program.KeepsOwners (s.pushMethod g).program :=
  fun _ g' hg' =>
    ⟨g', methodAt?_pushMethod_of_some hg', fun hop => ⟨hop, rfl⟩, fun _ hj => hj⟩

/-- Names of methods and types make no difference. -/
theorem placed_setScope (h : s.program.Placed loose) (hj : s.program.scopeAt? j = some sc)
    (hkind : sc'.kind = sc.kind) (hvars : sc'.vars = sc.vars) :
    (s.setScope j sc').program.Placed loose := by
  have hat := scopeAt?_setScope hj sc'
  refine h.keep rfl (.of_eq rfl) (fun k n v => ?_) fun k sc₁ hsc₁ hk => ?_
  · unfold NamesVar
    rw [hat]
    by_cases hkj : k = j
    · subst hkj
      rw [if_pos rfl, hj]
      simp only [Option.some.injEq, exists_eq_left', hvars]
    · rw [if_neg hkj]
  · rw [hat] at hsc₁
    split at hsc₁
    · rename_i hkj
      cases hsc₁
      subst hkj
      exact h.owned k sc hj (hkind ▸ hk)
    · exact h.owned k sc₁ hsc₁ hk

/-- **A new scope** binds nothing; if it is a block, it has to be told. -/
theorem placed_pushScope (h : s.program.Placed loose) {kind : ScopeKind} {parent : Option ScopeId} :
    (s.pushScope (.empty kind parent)).program.Placed
      fun j => loose j ∨ kind = .block ∧ j = s.nextScope := by
  have hat := scopeAt?_pushScope (s := s) (.empty kind parent)
  refine h.keep rfl (.of_eq rfl) (fun k n v => ?_) fun k sc₁ hsc₁ hk => ?_
  · unfold NamesVar
    rw [hat]
    by_cases hkj : k = s.nextScope
    · subst hkj
      rw [if_pos rfl, scopeAt?_nextScope]
      simp [Scope.empty]
    · rw [if_neg hkj]
  · rw [hat] at hsc₁
    split at hsc₁
    · rename_i hkj
      cases hsc₁
      exact .inl (.inr ⟨hk, hkj⟩)
    · exact (h.owned k sc₁ hsc₁ hk).imp_left .inl

/-- The state with a variable more, which the scope `j` binds to its name. -/
def bindVar (s : Resolver) (j : ScopeId) (sc : Scope) (x : Variable) : Resolver :=
  (s.pushVar x).setScope j { sc with vars := sc.vars.insert x.name s.nextVar }

theorem varAt?_bindVar (x : Variable) (v : VariableId) :
    (s.bindVar j sc x).program.varAt? v =
      if v = s.nextVar then some x else s.program.varAt? v := varAt?_pushVar x v

theorem varAt?_bindVar_of_some {x y : Variable} {v : VariableId}
    (h : s.program.varAt? v = some y) : (s.bindVar j sc x).program.varAt? v = some y := by
  rw [varAt?_bindVar, if_neg]
  · exact h
  · rintro rfl; rw [varAt?_nextVar] at h; cases h

theorem scopeAt?_bindVar (hj : s.program.scopeAt? j = some sc) (x : Variable) (k : ScopeId) :
    (s.bindVar j sc x).program.scopeAt? k =
      if k = j then some { sc with vars := sc.vars.insert x.name s.nextVar }
      else s.program.scopeAt? k :=
  scopeAt?_setScope (s := s.pushVar x) hj _ k

theorem namesVar_bindVar (hj : s.program.scopeAt? j = some sc) {x : Variable}
    (hfree : sc.vars[x.name]? = none) {k : ScopeId} {n : String} {v : VariableId} :
    (s.bindVar j sc x).program.NamesVar k n v ↔
      s.program.NamesVar k n v ∨ k = j ∧ n = x.name ∧ v = s.nextVar := by
  unfold NamesVar
  rw [scopeAt?_bindVar hj]
  by_cases hkj : k = j
  · subst hkj
    rw [if_pos rfl, hj]
    simp only [Option.some.injEq, exists_eq_left', getElem?_insert_eq, true_and]
    by_cases hn : x.name = n
    · subst hn
      simp [hfree, eq_comm]
    · simp [hn, Ne.symm hn]
  · rw [if_neg hkj]
    simp [hkj]

/-- **A new variable** has its place in the scope that binds it. -/
theorem placed_bindVar (h : s.program.Placed loose) (hj : s.program.scopeAt? j = some sc)
    {x : Variable} (hfree : sc.vars[x.name]? = none) :
    (s.bindVar j sc x).program.Placed loose := by
  have hnew : (s.bindVar j sc x).program.varAt? s.nextVar = some x :=
    (varAt?_bindVar _ _).trans (if_pos rfl)
  -- nothing that is bound already is the new variable
  have hold : ∀ k n v, s.program.NamesVar k n v → v ≠ s.nextVar := by
    rintro k n v hv rfl
    obtain ⟨y, hy, -⟩ := h.named k n _ hv
    rw [varAt?_nextVar] at hy
    cases hy
  refine ⟨fun k n v hv => ?_, fun k k' n n' v hv hv' => ?_, fun v y hy => ?_, fun k sc₁ hsc₁ hk => ?_⟩
  · rcases (namesVar_bindVar hj hfree).1 hv with hv | ⟨-, rfl, rfl⟩
    · obtain ⟨y, hy, hn⟩ := h.named k n v hv
      exact ⟨y, varAt?_bindVar_of_some hy, hn⟩
    · exact ⟨x, hnew, rfl⟩
  · rcases (namesVar_bindVar hj hfree).1 hv with hv | ⟨hk, -, hnext⟩ <;>
      rcases (namesVar_bindVar hj hfree).1 hv' with hv' | ⟨hk', -, hnext'⟩
    · exact h.once k k' n n' v hv hv'
    · exact absurd hnext' (hold k n v hv)
    · exact absurd hnext (hold k' n' v hv')
    · rw [hk, hk']
  · rw [varAt?_bindVar] at hy
    split at hy
    · rename_i hv
      cases hy
      exact .inr ⟨j, (namesVar_bindVar hj hfree).2 (.inr ⟨rfl, rfl, hv⟩)⟩
    · rcases h.bound v y hy with hop | ⟨k, hk⟩
      · have hkeeps : s.program.KeepsOwners (s.bindVar j sc x).program := .of_eq rfl
        exact .inl (hkeeps.operand (fun w z hz => varAt?_bindVar_of_some hz) hop)
      · exact .inr ⟨k, (namesVar_bindVar hj hfree).2 (.inl hk)⟩
  · rw [scopeAt?_bindVar hj] at hsc₁
    split at hsc₁
    · rename_i hkj
      cases hsc₁
      subst hkj
      exact h.owned k sc hj hk
    · exact h.owned k sc₁ hsc₁ hk

/-- **A method takes a block over.** -/
theorem placed_setMethod {l : MethodId} {g g' : Method} (h : s.program.Placed (· = j))
    (hl : s.program.methodAt? l = some g) (hop : g.isOperator = false) (hnone : g.scope = none)
    (hscope : g'.scope = some j) : (s.setMethod l g').program.Placed fun _ => False := by
  have hat := methodAt?_setMethod hl g'
  have hkeeps : s.program.KeepsOwners (s.setMethod l g').program := by
    intro m k hk
    rw [hat]
    split
    · rename_i hm
      subst hm
      rw [hl] at hk
      cases hk
      refine ⟨g', rfl, fun hop' => ?_, fun i hi => ?_⟩
      · rw [hop] at hop'; cases hop'
      · rw [hnone] at hi; cases hi
    · exact ⟨k, hk, fun hop' => ⟨hop', rfl⟩, fun _ hi => hi⟩
  refine h.keep rfl hkeeps (fun _ _ _ => namesVar_iff_of_scopes rfl) fun k sc hsc hk => ?_
  rcases h.owned k sc hsc hk with rfl | howner
  · exact .inr ⟨l, g', (hat l).trans (if_pos rfl), hscope⟩
  · exact .inr (hkeeps.owner howner)

/-- The right operand of an operator is bound nowhere. -/
theorem placed_operator (h : s.program.Placed loose) {x : Variable} {index : Nat}
    (hx : x.kind = .argument index) {g : Method} (hop : g.isOperator = true)
    (hargs : s.nextVar ∈ g.arguments) : ((s.pushVar x).pushMethod g).program.Placed loose := by
  have hvar : ∀ v y, s.program.varAt? v = some y →
      ((s.pushVar x).pushMethod g).program.varAt? v = some y := by
    intro v y hy
    refine (varAt?_pushVar x v).trans ((if_neg ?_).trans hy)
    rintro rfl
    rw [varAt?_nextVar] at hy
    cases hy
  have hkeeps : s.program.KeepsOwners ((s.pushVar x).pushMethod g).program :=
    keepsOwners_pushMethod (s := s.pushVar x) g
  refine ⟨fun j n v hv => ?_, h.once, fun v y hy => ?_, fun j sc hsc hk => ?_⟩
  · obtain ⟨y, hy, hn⟩ := h.named j n v hv
    exact ⟨y, hvar v y hy, hn⟩
  · have hy' := (varAt?_pushVar x v).symm.trans hy
    split at hy'
    · rename_i hv
      cases hy'
      subst hv
      refine .inl ⟨x, index, s.nextMethod, g, hy, hx, ?_, hop, hargs⟩
      exact (methodAt?_pushMethod (s := s.pushVar x) g _).trans (if_pos rfl)
    · exact (h.bound v y hy').imp_left (hkeeps.operand hvar)
  · exact (h.owned j sc hsc hk).imp_right hkeeps.owner

end Resolver

end ClassLang
