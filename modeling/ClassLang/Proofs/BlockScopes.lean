import ClassLang.Proofs.PlacementPasses
import ClassLang.Proofs.ScopingStmt

/-!
# The scopes of the blocks of a body

A body has a scope for every block in it, inside the scope of the block around, and such a scope binds
the variables that are declared directly in the block (`Block.Laid`).

* `Block.blocks`, `Block.variables`: the blocks and the variables directly in a block.
* `TypedBlock.inner`: the scopes of the blocks in a body, from the outside in.
* `Resolver.Spreads`: which scopes a part of a body adds, and which one it may change.
-/

namespace ClassLang

open Resolver Resolve

/-! ## Blocks in blocks -/

/-- The blocks directly in a statement. An `if` without an `else` has an empty one. -/
def Stmt.blocks : Stmt → List Block
  | .ifElse _ yes no _ => [yes, no]
  | .ifThen _ yes span => [yes, .mk [] span]
  | .whileDo _ body _ => [body]
  | .nested block => [block]
  | _ => []

/-- The variable that a statement declares, and where. -/
def Stmt.variable? : Stmt → Option (String × Span)
  | .varDecl n _ _ span => some (n, span)
  | _ => none

/-- The blocks directly in a block. -/
def Block.blocks (b : Block) : List Block := b.body.flatMap Stmt.blocks

/-- The variables that are declared directly in a block. -/
def Block.variables (b : Block) : List (String × Span) := b.body.filterMap Stmt.variable?

/-- The blocks directly in a statement. -/
def TypedStmt.blocks : TypedStmt → List TypedBlock
  | .ifElse _ yes no _ => [yes, no]
  | .whileDo _ body _ => [body]
  | .nested block => [block]
  | _ => []

/-- The blocks directly in a block. -/
def TypedBlock.blocks (b : TypedBlock) : List TypedBlock := b.body.flatMap TypedStmt.blocks

mutual

/-- The scopes of all blocks in a statement, those around before those inside. -/
def TypedStmt.scopes : TypedStmt → List ScopeId
  | .ifElse _ yes no _ => yes.scopes ++ no.scopes
  | .whileDo _ body _ => body.scopes
  | .nested block => block.scopes
  | .assignment .. => []
  | .ret .. => []
  | .call .. => []

/-- The scopes of all blocks in some statements. -/
def TypedStmt.scopesAll : List TypedStmt → List ScopeId
  | [] => []
  | t :: ts => t.scopes ++ TypedStmt.scopesAll ts

/-- The scope of a block and those of all blocks in it. -/
def TypedBlock.scopes : TypedBlock → List ScopeId
  | .mk body scope _ => scope :: TypedStmt.scopesAll body

end

/-- The scopes of all blocks in a block, its own apart. -/
def TypedBlock.inner (b : TypedBlock) : List ScopeId := TypedStmt.scopesAll b.body

theorem TypedBlock.scopes_eq (b : TypedBlock) : b.scopes = b.scope :: b.inner := by
  obtain ⟨body, scope, span⟩ := b
  rw [TypedBlock.scopes]
  rfl

theorem TypedStmt.scopes_eq (t : TypedStmt) : t.scopes = t.blocks.flatMap TypedBlock.scopes := by
  cases t <;> simp [TypedStmt.scopes, TypedStmt.blocks]

theorem TypedStmt.scopesAll_eq (ts : List TypedStmt) :
    TypedStmt.scopesAll ts = (ts.flatMap TypedStmt.blocks).flatMap TypedBlock.scopes := by
  induction ts with
  | nil => rfl
  | cons t ts ih => rw [scopesAll, ih, scopes_eq, List.flatMap_cons, List.flatMap_append]

theorem TypedStmt.scopesAll_append (ts ts' : List TypedStmt) :
    TypedStmt.scopesAll (ts ++ ts') = TypedStmt.scopesAll ts ++ TypedStmt.scopesAll ts' := by
  rw [scopesAll_eq, scopesAll_eq, scopesAll_eq, List.flatMap_append, List.flatMap_append]

/-! ## What a scope binds -/

namespace Program

/-- **A scope binds exactly these variables**, each to its own name. -/
structure Binds (p : Program) (j : ScopeId) (vs : List VariableId) : Prop where
  all : ∀ v ∈ vs, ∃ x, p.varAt? v = some x ∧ p.NamesVar j x.name v
  only : ∀ n v, p.NamesVar j n v → v ∈ vs ∧ ∃ x, p.varAt? v = some x ∧ x.name = n

/-- The scope of a block inside `outer`, and the variables it binds. -/
structure Opens (p : Program) (j outer : ScopeId) (vs : List VariableId) : Prop where
  block : ∃ sc, p.scopeAt? j = some sc ∧ sc.kind = .block ∧ sc.parent = some outer
  binds : p.Binds j vs

/-- The name of a local variable, and where it is declared. -/
def local? (p : Program) (v : VariableId) : Option (String × Span) :=
  (p.varAt? v).bind fun x => if x.kind = .localVar then some (x.name, x.span) else none

variable {p p' : Program} {j outer : ScopeId} {vs : List VariableId}

theorem Binds.mono (h : p.Binds j vs) (hj : p'.scopeAt? j = p.scopeAt? j)
    (hvars : ∀ v x, p.varAt? v = some x → p'.varAt? v = some x) : p'.Binds j vs := by
  have hnames : ∀ n v, p'.NamesVar j n v ↔ p.NamesVar j n v := by
    intro n v
    unfold NamesVar
    rw [hj]
  refine ⟨fun v hv => ?_, fun n v hv => ?_⟩
  · obtain ⟨x, hx, hn⟩ := h.all v hv
    exact ⟨x, hvars v x hx, (hnames _ _).2 hn⟩
  · obtain ⟨hmem, x, hx, hn⟩ := h.only n v ((hnames n v).1 hv)
    exact ⟨hmem, x, hvars v x hx, hn⟩

theorem Opens.mono (h : p.Opens j outer vs)
    (hj : ∀ sc, p.scopeAt? j = some sc → p'.scopeAt? j = some sc)
    (hvars : ∀ v x, p.varAt? v = some x → p'.varAt? v = some x) : p'.Opens j outer vs := by
  obtain ⟨sc, hsc, hblock⟩ := h.block
  exact ⟨⟨sc, hj sc hsc, hblock⟩, h.binds.mono ((hj sc hsc).trans hsc.symm) hvars⟩

theorem local?_mono (hvars : ∀ v x, p.varAt? v = some x → p'.varAt? v = some x) {v : VariableId}
    {q : String × Span} (h : p.local? v = some q) : p'.local? v = some q := by
  obtain ⟨x, hx, hq⟩ := Option.bind_eq_some_iff.1 h
  unfold local?
  rw [hvars v x hx]
  exact hq

end Program

/-! ## Blocks that are laid out -/

/-- **A block as it is written and its scope tree**: the scope of the block stands inside `outer` and
binds `start` and the variables that are declared directly in the block; and the blocks directly in it
are laid out inside it, one after the other. -/
inductive Block.Laid (p : Program) : ScopeId → List VariableId → Block → TypedBlock → Prop where
  | mk {outer : ScopeId} {start vs : List VariableId} {b : Block} {t : TypedBlock}
    (opens : p.Opens t.scope outer (start ++ vs))
    (declared : vs.map p.local? = b.variables.map some)
    (count : b.blocks.length = t.blocks.length)
    (inner : ∀ q ∈ b.blocks.zip t.blocks, Block.Laid p t.scope [] q.1 q.2) :
    Block.Laid p outer start b t

/-- The statements of a block in its scope `j`: they declare `vs`, and the blocks directly in them are
laid out. -/
structure Laying (p : Program) (j : ScopeId) (body : List Stmt) (ts : List TypedStmt)
    (vs : List VariableId) : Prop where
  declared : vs.map p.local? = (body.filterMap Stmt.variable?).map some
  count : (body.flatMap Stmt.blocks).length = (ts.flatMap TypedStmt.blocks).length
  inner : ∀ q ∈ (body.flatMap Stmt.blocks).zip (ts.flatMap TypedStmt.blocks),
    q.1.Laid p j [] q.2

theorem Block.Laid.mono {p p' : Program} {outer : ScopeId} {start : List VariableId} {b : Block}
    {t : TypedBlock} (hvars : ∀ v x, p.varAt? v = some x → p'.varAt? v = some x)
    (h : b.Laid p outer start t)
    (hscopes : ∀ k ∈ t.scopes, ∀ sc, p.scopeAt? k = some sc → p'.scopeAt? k = some sc) :
    b.Laid p' outer start t := by
  induction h with
  | @mk outer start vs b t opens declared count inner ih =>
    rw [TypedBlock.scopes_eq] at hscopes
    refine .mk (opens.mono (hscopes _ List.mem_cons_self) hvars) ?_ count fun q hq => ih q hq ?_
    · exact map_eq_map_some_mono (fun v _ _ hv => Program.local?_mono hvars hv) declared
    · intro k hk
      refine hscopes k (List.mem_cons_of_mem _ ?_)
      rw [TypedBlock.inner, TypedStmt.scopesAll_eq]
      exact List.mem_flatMap.2 ⟨q.2, (List.of_mem_zip hq).2, hk⟩

namespace Laying

variable {p p' : Program} {j : ScopeId} {body body' : List Stmt} {ts ts' : List TypedStmt}
  {vs vs' : List VariableId}

theorem nil : Laying p j [] [] [] := ⟨rfl, rfl, by simp⟩

theorem append (h : Laying p j body ts vs) (h' : Laying p j body' ts' vs') :
    Laying p j (body ++ body') (ts ++ ts') (vs ++ vs') where
  declared := by
    rw [List.map_append, h.declared, h'.declared, List.filterMap_append, List.map_append]
  count := by
    rw [List.flatMap_append, List.flatMap_append, List.length_append, List.length_append, h.count,
      h'.count]
  inner q hq := by
    rw [List.flatMap_append, List.flatMap_append, List.zip_append h.count] at hq
    rcases List.mem_append.1 hq with hq | hq
    · exact h.inner q hq
    · exact h'.inner q hq

theorem mono (h : Laying p j body ts vs)
    (hvars : ∀ v x, p.varAt? v = some x → p'.varAt? v = some x)
    (hscopes : ∀ k ∈ TypedStmt.scopesAll ts, ∀ sc, p.scopeAt? k = some sc →
      p'.scopeAt? k = some sc) : Laying p' j body ts vs where
  declared := map_eq_map_some_mono (fun _ _ _ hv => Program.local?_mono hvars hv) h.declared
  count := h.count
  inner q hq := by
    refine (h.inner q hq).mono hvars fun k hk => hscopes k ?_
    rw [TypedStmt.scopesAll_eq]
    exact List.mem_flatMap.2 ⟨q.2, (List.of_mem_zip hq).2, hk⟩

/-- A statement without blocks that declares nothing. -/
theorem plain {st : Stmt} {t : TypedStmt} (hvar : st.variable? = none) (hst : st.blocks = [])
    (ht : t.blocks = []) : Laying p j [st] [t] [] := by
  refine ⟨?_, ?_, ?_⟩
  · rw [List.filterMap_cons_none hvar]; rfl
  · simp [hst, ht]
  · simp [hst]

end Laying

/-! ## Which scopes are added -/

namespace Resolver

variable {s s' s'' : Resolver} {e : Option ScopeId} {new new' : List ScopeId} {j : ScopeId}

/-- **Since `s`, the scopes `new` have been added** in this order, and at most the scope `e` has been
changed of those that were there. -/
structure Spreads (s s' : Resolver) (e : Option ScopeId) (new : List ScopeId) : Prop where
  fresh : new = (List.range' s.nextScope.index new.length).map ScopeId.mk
  next : s'.nextScope.index = s.nextScope.index + new.length
  scopes : ∀ k sc, s.program.scopeAt? k = some sc → e ≠ some k → s'.program.scopeAt? k = some sc
  vars : ∀ v x, s.program.varAt? v = some x → s'.program.varAt? v = some x
  methods : s'.program.methods = s.program.methods

theorem Spreads.of_program (h : s'.program = s.program) (e : Option ScopeId) :
    s.Spreads s' e [] where
  fresh := rfl
  next := by rw [nextScope, h]; rfl
  scopes _ _ hk _ := by rw [h]; exact hk
  vars _ _ hx := by rw [h]; exact hx
  methods := by rw [h]

/-- One part after the other. The second may change scopes that the first has added. -/
theorem Spreads.comp {e' : Option ScopeId} (h : s.Spreads s' e new) (h' : s'.Spreads s'' e' new')
    (he : ∀ k sc, s.program.scopeAt? k = some sc → e' = some k → e = some k) :
    s.Spreads s'' e (new ++ new') where
  fresh := by
    rw [List.length_append, ← List.range'_append_1, List.map_append, ← h.fresh, ← h.next,
      ← h'.fresh]
  next := by rw [h'.next, h.next, List.length_append, Nat.add_assoc]
  scopes k sc hk hne := h'.scopes k sc (h.scopes k sc hk hne) fun heq => hne (he k sc hk heq)
  vars v x hx := h'.vars v x (h.vars v x hx)
  methods := h'.methods.trans h.methods

theorem Spreads.trans (h : s.Spreads s' e new) (h' : s'.Spreads s'' e new') :
    s.Spreads s'' e (new ++ new') := h.comp h' fun _ _ _ heq => heq

theorem Spreads.weaken (h : s.Spreads s' none new) (e : Option ScopeId) : s.Spreads s' e new :=
  { h with scopes := fun k sc hk _ => h.scopes k sc hk (Option.some_ne_none k).symm }

/-- What is added was not there. -/
theorem Spreads.le_of_mem (h : s.Spreads s' e new) {k : ScopeId} (hk : k ∈ new) :
    s.nextScope.index ≤ k.index ∧ k.index < s'.nextScope.index := by
  rw [h.fresh] at hk
  obtain ⟨i, hi, rfl⟩ := List.mem_map.1 hk
  have := List.mem_range'_1.1 hi
  rw [h.next]
  exact this

theorem Spreads.ne_of_mem (h : s.Spreads s' e new) {sc : Scope}
    (hj : s.program.scopeAt? j = some sc) {k : ScopeId} (hk : k ∈ new) : j ≠ k := by
  rintro rfl
  have := (h.le_of_mem hk).1
  have := scope_lt_next hj
  omega

theorem Spreads.opens {outer : ScopeId} {vs : List VariableId} (h : s.Spreads s' none new)
    (hj : s.program.Opens j outer vs) : s'.program.Opens j outer vs :=
  hj.mono (fun sc hsc => h.scopes j sc hsc (Option.some_ne_none j).symm) h.vars

theorem spreads_pushScope (s : Resolver) (parent : ScopeId) :
    s.Spreads (s.pushScope (.empty .block (some parent))) none [s.nextScope] where
  fresh := rfl
  next := Array.size_push _
  scopes _ _ hk _ := scopeAt?_pushScope_of_some hk
  vars _ _ hx := hx
  methods := rfl

/-- A block of a body has a number from `first` on. -/
theorem placed_enter {first : Nat} (parent : ScopeId) (hfirst : first ≤ s.nextScope.index)
    (hp : s.program.Placed fun k => first ≤ k.index) :
    (s.pushScope (.empty .block (some parent))).program.Placed fun k => first ≤ k.index :=
  (placed_pushScope hp).weaken fun _ hk => hk.elim id fun h => h.2 ▸ hfirst

/-- A new block binds nothing. -/
theorem opens_pushScope (s : Resolver) (parent : ScopeId) :
    (s.pushScope (.empty .block (some parent))).program.Opens s.nextScope parent [] := by
  have hat : (s.pushScope (.empty .block (some parent))).program.scopeAt? s.nextScope =
      some (.empty .block (some parent)) := (scopeAt?_pushScope _ _).trans (if_pos rfl)
  refine ⟨⟨_, hat, rfl, rfl⟩, nofun, ?_⟩
  rintro n v ⟨sc, hsc, hv⟩
  rw [hat] at hsc
  cases hsc
  simp [Scope.empty] at hv

variable {sc : Scope} {x : Variable}

theorem spreads_bindVar (hj : s.program.scopeAt? j = some sc) :
    s.Spreads (s.bindVar j sc x) (some j) [] where
  fresh := rfl
  next := congrArg ScopeId.index (nextScope_setScope (s := s.pushVar x))
  scopes k sc' hk hne := by
    rw [scopeAt?_bindVar hj, if_neg fun heq => hne (congrArg some heq.symm)]
    exact hk
  vars _ _ hy := varAt?_bindVar_of_some hy
  methods := rfl

/-- A scope binds one variable more. -/
theorem opens_bindVar {outer : ScopeId} {vs : List VariableId} (h : s.program.Opens j outer vs)
    (hj : s.program.scopeAt? j = some sc) (hfree : sc.vars[x.name]? = none) :
    (s.bindVar j sc x).program.Opens j outer (vs ++ [s.nextVar]) := by
  obtain ⟨sc', hsc', hblock, hparent⟩ := h.block
  rw [hj] at hsc'
  cases hsc'
  have hnew : (s.bindVar j sc x).program.varAt? s.nextVar = some x :=
    (varAt?_bindVar x _).trans (if_pos rfl)
  refine ⟨⟨_, (scopeAt?_bindVar hj x j).trans (if_pos rfl), hblock, hparent⟩, fun v hv => ?_,
    fun n v hv => ?_⟩
  · rcases List.mem_append.1 hv with hv | hv
    · obtain ⟨y, hy, hn⟩ := h.binds.all v hv
      exact ⟨y, varAt?_bindVar_of_some hy, (namesVar_bindVar hj hfree).2 (.inl hn)⟩
    · cases List.mem_singleton.1 hv
      exact ⟨x, hnew, (namesVar_bindVar hj hfree).2 (.inr ⟨rfl, rfl, rfl⟩)⟩
  · rcases (namesVar_bindVar hj hfree).1 hv with hv | ⟨-, rfl, rfl⟩
    · obtain ⟨hmem, y, hy, hn⟩ := h.binds.only n v hv
      exact ⟨List.mem_append_left _ hmem, y, varAt?_bindVar_of_some hy, hn⟩
    · exact ⟨List.mem_append_right _ List.mem_cons_self, x, hnew, rfl⟩

end Resolver

end ClassLang
