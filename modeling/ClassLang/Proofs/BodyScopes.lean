import Mathlib.Data.List.Nodup
import Mathlib.Data.List.Pairwise
import ClassLang.Proofs.Resolution
import ClassLang.Proofs.BlockLaying
import ClassLang.Proofs.Coverage

/-!
# The scopes of all bodies

Resolving a body adds the scopes of its blocks, after all scopes that are there, and gives the body to
its method.

* `Method.Laid`: the scope of a method, and those of the blocks in its body.
* `Presents.laid`: a signature has its scope when it has been read.
* `resolveBody_lays`: what one body adds. It gets a run of new scopes, and of the scopes that were
  there it changes that of the method only.
* `BodiesLaid.step`, `resolveBodies_lays`: so the bodies get one run after the other, and no two
  blocks share a scope.
-/

namespace ClassLang

open Resolver Resolve

variable {g : Method} {m : MethodDecl}

/-! ## The scopes of a method -/

/-- The scopes of the blocks in the body of a method, the method's own apart. -/
def Method.inner (g : Method) : List ScopeId := g.body.elim [] TypedBlock.inner

/-- The variables that a method starts with. -/
def Method.variables (g : Method) : List VariableId := g.receiver.toList ++ g.arguments

/-- **The scope of a method and the blocks of its body** as it is written: the scope stands inside
`outer` and binds the receiver and the arguments, and it is the scope of the body if there is one. -/
inductive Method.Laid (p : Program) (outer : ScopeId) (g : Method) : Option Block → Prop where
  | bare {j : ScopeId} (scope : g.scope = some j) (body : g.body = none)
    (opens : p.Opens j outer g.variables) : Method.Laid p outer g none
  | full {b : Block} {t : TypedBlock} (scope : g.scope = some t.scope) (body : g.body = some t)
    (laid : b.Laid p outer g.variables t) : Method.Laid p outer g (some b)

namespace Program

/-- The scopes of the blocks in a method. -/
def innerOf (p : Program) (m : MethodId) : List ScopeId := (p.methodAt? m).elim [] Method.inner

/-- The scope in which the methods of a class, or the functions, are named. -/
def home? (p : Program) : Option ClassId → Option ScopeId
  | none => some ScopeTree.globalId
  | some c => (p.classAt? c).map ClassInfo.scope

theorem innerOf_eq {p : Program} {m : MethodId} (h : p.methodAt? m = some g) :
    p.innerOf m = g.inner := by
  rw [innerOf, h]; rfl

end Program

theorem Resolver.Home.home? {s : Resolver} {o : Option ClassId} {j : ScopeId} (h : s.Home o j) :
    s.program.home? o = some j := by
  cases o with
  | none => exact congrArg some h.symm
  | some c =>
    obtain ⟨i, hi, rfl⟩ := h
    rw [Program.home?, hi, Option.map_some]

/-- A method keeps its scopes. -/
theorem Method.Laid.mono {p p' : Program} {outer : ScopeId} {b : Option Block}
    (h : g.Laid p outer b) (hvars : ∀ v x, p.varAt? v = some x → p'.varAt? v = some x)
    (hscopes : ∀ k, g.scope = some k ∨ k ∈ g.inner →
      ∀ sc, p.scopeAt? k = some sc → p'.scopeAt? k = some sc) : g.Laid p' outer b := by
  cases h with
  | bare scope body opens => exact .bare scope body (opens.mono (hscopes _ (.inl scope)) hvars)
  | @full b t scope body laid =>
    refine .full scope body (laid.mono hvars fun k hk => hscopes k ?_)
    rw [TypedBlock.scopes_eq] at hk
    rcases List.mem_cons.1 hk with rfl | hk
    · exact .inl scope
    · right
      rw [Method.inner, body]
      exact hk

/-! ## The scope of a signature -/

/-- A list of distinct names finds all that is in it. -/
theorem lookup_eq_some_iff_mem {β : Type} {l : List (String × β)} (hl : (l.map Prod.fst).Nodup)
    {n : String} {v : β} : l.lookup n = some v ↔ (n, v) ∈ l := by
  rw [← getElem?_ofList_eq_lookup hl, getElem?_ofList_iff hl]

theorem MethodDecl.locals_variables (h : g.arguments.length = m.arguments.length) :
    (m.locals g).map Prod.snd = g.variables := by
  have hlen : g.arguments.length ≤ (m.arguments.map ArgumentDecl.name).length := by simp [h]
  rw [locals, Method.variables, List.map_append, List.map_snd_zip hlen, List.map_map]
  cases g.receiver <;> rfl

/-- The names that a method starts with are distinct. -/
theorem MethodDecl.Declared.locals_names {d : Dialect} {u : CompilationUnit}
    (h : m.Declared d u g.owner.isSome) (hr : g.receiver.isSome = g.owner.isSome)
    (hlen : g.arguments.length = m.arguments.length) : ((m.locals g).map Prod.fst).Nodup := by
  have hnames : (m.arguments.map ArgumentDecl.name).length ≤ g.arguments.length := by simp [hlen]
  rw [locals, List.map_append, List.map_fst_zip hnames]
  cases hg : g.receiver with
  | none => exact h.distinct
  | some v =>
    rw [hg] at hr
    exact List.nodup_cons.2 ⟨h.notThis hr.symm, h.distinct⟩

theorem CompilationUnit.WellDeclared.declared {d : Dialect} {u : CompilationUnit}
    (h : u.WellDeclared d) {owner : Option ClassDecl} (hm : u.Declares owner m) :
    m.Declared d u owner.isSome := by
  cases owner with
  | none => exact h.functions m hm
  | some c => exact (h.classes c hm.1).methods m hm.2

namespace Resolver

variable {s s₁ s' : Resolver} {d : Dialect} {u : CompilationUnit} {m : MethodDecl} {l : MethodId}
  {g : Method} {j outer : ScopeId} {first : Nat}

theorem Owns.isSome_eq {o : Option ClassId} {owner : Option ClassDecl} (h : s.Owns u o owner) :
    o.isSome = owner.isSome := by
  cases o <;> cases owner
  · rfl
  · cases h
  · cases h
  · rfl

/-- After its signature, a method has its scope, which binds the receiver and the arguments. -/
theorem Presents.laid {owner : Option ClassDecl} {N : NamedMethod} {loose : ScopeId → Prop}
    (h : s.Presents m l g j N) (hr : s.Ready d u owner l m g j) (hm : m.Declared d u owner.isSome)
    (hs : s.Sound) (hp : s.program.Placed loose) :
    ∃ outer, s.program.home? g.owner = some outer ∧ g.Laid s.program outer none := by
  obtain ⟨sc, hsc, htable⟩ := h.table
  obtain ⟨sc', outer, hsc', hblock, hparent, hhome⟩ := (hs.methods l g h.method).scope j h.scope
  rw [hsc] at hsc'
  cases hsc'
  have hlen : g.arguments.length = m.arguments.length := by
    have hnames := congrArg List.length h.names
    have hargs := congrArg List.length h.arguments
    rw [List.length_map, List.length_map] at hnames hargs
    rw [hargs, hnames]
  rw [← hr.owned.isSome_eq] at hm
  have hvars := MethodDecl.locals_variables hlen
  -- what the scope binds are the names that the method starts with
  have hbinds : ∀ n v, s.program.NamesVar j n v ↔ (n, v) ∈ m.locals g := by
    intro n v
    rw [← lookup_eq_some_iff_mem (hm.locals_names hr.receiver hlen), ← htable n]
    unfold Program.NamesVar
    simp only [hsc, Option.some.injEq, exists_eq_left']
  refine ⟨outer, hhome.home?, .bare h.scope hr.body ⟨⟨sc, hsc, hblock, hparent⟩, ?_, ?_⟩⟩
  · intro v hv
    rw [← hvars] at hv
    obtain ⟨⟨n, w⟩, hw, rfl⟩ := List.mem_map.1 hv
    have hnames := (hbinds n w).2 hw
    obtain ⟨x, hx, rfl⟩ := hp.named j n w hnames
    exact ⟨x, hx, hnames⟩
  · intro n v hv
    refine ⟨?_, hp.named j n v hv⟩
    rw [← hvars]
    exact List.mem_map_of_mem ((hbinds n v).1 hv)

/-! ## One body -/

/-- **Since `s`, the method `l` with the scope `j` has got its body** as in `m`, and has become `g`:
the blocks of the body have new scopes, and of the others only `j` has changed. -/
structure BodyLaid (s s' : Resolver) (first : Nat) (m : MethodDecl) (l : MethodId) (j outer : ScopeId)
    (g : Method) : Prop where
  method : s'.program.methodAt? l = some g
  others : ∀ k, k ≠ l → s'.program.methodAt? k = s.program.methodAt? k
  laid : g.Laid s'.program outer m.body
  placed : s'.program.Placed fun k => first ≤ k.index
  spreads : ∃ s₁, s.Spreads s₁ (some j) g.inner ∧ s'.program.scopes = s₁.program.scopes ∧
    s'.program.vars = s₁.program.vars

theorem BodyLaid.scopes (h : s.BodyLaid s' first m l j outer g) {k : ScopeId} {sc : Scope}
    (hk : s.program.scopeAt? k = some sc) (hne : k ≠ j) : s'.program.scopeAt? k = some sc := by
  obtain ⟨s₁, hspreads, hscopes, -⟩ := h.spreads
  unfold Program.scopeAt?
  rw [hscopes]
  exact hspreads.scopes k sc hk fun heq => hne (Option.some.inj heq).symm

theorem BodyLaid.vars (h : s.BodyLaid s' first m l j outer g) {v : VariableId} {x : Variable}
    (hv : s.program.varAt? v = some x) : s'.program.varAt? v = some x := by
  obtain ⟨s₁, hspreads, -, hvars⟩ := h.spreads
  unfold Program.varAt?
  rw [hvars]
  exact hspreads.vars v x hv

theorem BodyLaid.fresh (h : s.BodyLaid s' first m l j outer g) :
    g.inner = (List.range' s.nextScope.index g.inner.length).map ScopeId.mk ∧
      s'.nextScope.index = s.nextScope.index + g.inner.length := by
  obtain ⟨s₁, hspreads, hscopes, -⟩ := h.spreads
  refine ⟨hspreads.fresh, ?_⟩
  rw [← hspreads.next, nextScope, nextScope, hscopes]

/-- A body changes neither which scopes methods have nor which of them are operators. -/
theorem keepsOwners_setBody (hl : s.program.methodAt? l = some g) (b : TypedBlock) :
    s.program.KeepsOwners (s.setBody l g b).program := by
  intro k g' hg'
  rw [methodAt?_setBody hl]
  split
  · rename_i hk
    subst hk
    rw [hl] at hg'
    cases hg'
    exact ⟨_, rfl, fun hop => ⟨hop, rfl⟩, fun _ hj => hj⟩
  · exact ⟨g', hg', fun hop => ⟨hop, rfl⟩, fun _ hj => hj⟩

end Resolver

/-- **What one body adds to the scopes.** -/
theorem resolveBody_lays {s : Resolver} (d : Dialect) {first : Nat} {l : MethodId}
    {j outer : ScopeId} (hfirst : first ≤ s.nextScope.index)
    (hp : s.program.Placed fun k => first ≤ k.index) (hg : s.program.methodAt? l = some g)
    (hj : g.scope = some j) (hlaid : g.Laid s.program outer none) :
    Gives (resolveBody d l m) s (fun _ s' => ∃ g', g'.owner = g.owner ∧
      s.BodyLaid s' first m l j outer g') := by
  obtain ⟨hscope, hnone, hopens⟩ := hlaid
  rw [hj] at hscope
  cases hscope
  refine resolveBody_seq hg hj (fun hbody => ?_) fun body span hbody => ?_
  · refine ⟨g, rfl, hg, fun _ _ => rfl, ?_, hp, s, ?_, rfl, rfl⟩
    · rw [hbody]
      exact .bare hj hnone hopens
    · rw [Method.inner, hnone]
      exact .of_program rfl _
  · refine (Stmt.resolveAll_lays (s := s.within (some l)) d body hfirst hp hopens).post ?_
    rintro ts s₂ ⟨ws, h₂⟩
    -- the body has added scopes and variables, but no methods
    have hmethods : ∀ k, s₂.program.methodAt? k = s.program.methodAt? k := by
      intro k
      unfold Program.methodAt?
      rw [h₂.spreads.methods]
      rfl
    have hg₂ : s₂.program.methodAt? l = some g := (hmethods l).trans hg
    have hat := methodAt?_setBody hg₂ (.mk ts j span)
    refine ⟨hg₂, { g with body := some (.mk ts j span) }, rfl, (hat l).trans (if_pos rfl),
      fun k hk => ((hat k).trans (if_neg hk)).trans (hmethods k), ?_, ?_, s₂, ?_, rfl, rfl⟩
    · rw [hbody]
      have hblock : (Block.mk body span).Laid s₂.program outer g.variables (.mk ts j span) :=
        .mk h₂.opens h₂.laying.declared h₂.laying.count h₂.laying.inner
      refine .full (t := .mk ts j span) hj rfl (hblock.mono ?_ ?_)
      · exact fun _ _ hx => hx
      · exact fun _ _ _ hsc => hsc
    · exact h₂.placed.keepScopes rfl rfl (keepsOwners_setBody hg₂ _)
    · exact ⟨h₂.spreads.fresh, h₂.spreads.next, h₂.spreads.scopes, h₂.spreads.vars,
        h₂.spreads.methods⟩

/-! ## All bodies -/

/-- A method has its scope, and those of the body `b`. -/
def Program.LaysOut (p : Program) (l : MethodId) (b : Option Block) : Prop :=
  ∃ g outer, p.methodAt? l = some g ∧ p.home? g.owner = some outer ∧ g.Laid p outer b

namespace Resolver

variable {s s₁ s' : Resolver} {d : Dialect} {u : CompilationUnit}
  {bodies pre : List (MethodId × MethodDecl)} {Ns Ns' : List NamedMethod} {classes : List NamedClass}

theorem Extends.home?_eq (hx : s.Extends s') (o : Option ClassId) :
    s'.program.home? o = s.program.home? o := by
  cases o with
  | none => rfl
  | some c => rw [Program.home?, Program.home?, hx.classAt?_eq]

/-- **The third pass is under way**: since `s`, the bodies of `pre` have been laid out, one after the
other, in scopes that are all new. -/
structure BodiesLaid (s s' : Resolver) (d : Dialect) (u : CompilationUnit)
    (bodies pre : List (MethodId × MethodDecl)) (Ns : List NamedMethod) : Prop where
  read : BodiesRead s s' d u bodies pre Ns
  placed : s'.program.Placed fun k => s.nextScope.index ≤ k.index
  spread : ∃ n, s'.nextScope.index = s.nextScope.index + n ∧
    pre.flatMap (fun b => s'.program.innerOf b.1) =
      (List.range' s.nextScope.index n).map ScopeId.mk
  done : ∀ b ∈ pre, s'.program.LaysOut b.1 b.2.body
  waiting : ∀ b ∈ bodies, b ∉ pre → s'.program.LaysOut b.1 none
  others : ∀ l, l ∉ bodies.map Prod.fst → s'.program.methodAt? l = s.program.methodAt? l

/-- The blocks of bodies have scopes that are new since `s`. -/
theorem BodiesLaid.mem_inner (h : BodiesLaid s s' d u bodies pre Ns) {b : MethodId × MethodDecl}
    (hb : b ∈ pre) {k : ScopeId} (hk : k ∈ s'.program.innerOf b.1) :
    s.nextScope.index ≤ k.index ∧ k.index < s'.nextScope.index := by
  obtain ⟨n, hnext, hspread⟩ := h.spread
  have hmem : k ∈ pre.flatMap fun b => s'.program.innerOf b.1 := List.mem_flatMap.2 ⟨b, hb, hk⟩
  rw [hspread] at hmem
  obtain ⟨i, hi, rfl⟩ := List.mem_map.1 hmem
  rw [hnext]
  exact List.mem_range'_1.1 hi

/-- Before the first body. -/
theorem Readied.bodiesLaid (h₀ : s.Signed d u bodies) (hread : s.Readied d u bodies classes)
    (hp : s.program.Placed fun _ => False) : BodiesLaid s s d u bodies [] [] where
  read := hread.bodiesRead h₀
  placed := hp.weaken fun _ => False.elim
  spread := ⟨0, rfl, rfl⟩
  done := by simp
  waiting b hb _ := by
    obtain ⟨owner, g, j, N, hdecl, hr, hpresents, -⟩ :=
      (hread.bodiesRead h₀).stage h₀ hread hb List.not_mem_nil
    obtain ⟨outer, hhome, hlaid⟩ := hpresents.laid hr (h₀.declared.declared hdecl) h₀.sound hp
    exact ⟨g, outer, hr.method, hhome, hlaid⟩
  others _ _ := rfl

/-- **One body more.** -/
theorem BodiesLaid.step {b : MethodId × MethodDecl} {g' : Method} {j outer : ScopeId} {sc : Scope}
    (h : BodiesLaid s s₁ d u bodies pre Ns) (hb : b ∈ bodies) (hpre : ∀ w ∈ pre, w.1 ≠ b.1)
    (hrest : ∀ w ∈ bodies, w ≠ b → w.1 ≠ b.1) (hread : BodiesRead s s' d u bodies (pre ++ [b]) Ns')
    (hg : s₁.program.methodAt? b.1 = some g) (hj : g.scope = some j)
    (hsc : s.program.scopeAt? j = some sc) (hhome : s₁.program.home? g'.owner = some outer)
    (hadd : s₁.BodyLaid s' s.nextScope.index b.2 b.1 j outer g') :
    BodiesLaid s s' d u bodies (pre ++ [b]) Ns' := by
  have hhomes : ∀ o, s'.program.home? o = s₁.program.home? o := fun o =>
    (hread.kept.home?_eq o).trans (h.read.kept.home?_eq o).symm
  -- no other method has the scope `j`, and neither has a block in one
  have hkeep : ∀ l body, l ≠ b.1 → (∀ k ∈ s₁.program.innerOf l, s.nextScope.index ≤ k.index) →
      s₁.program.LaysOut l body → s'.program.LaysOut l body := by
    rintro l body hl hinner ⟨gl, ol, hgl, hol, hlaid⟩
    refine ⟨gl, ol, (hadd.others l hl).trans hgl, (hhomes _).trans hol,
      hlaid.mono (fun _ _ => hadd.vars) fun k hk _ hk' => hadd.scopes hk' ?_⟩
    rintro rfl
    rcases hk with hk | hk
    · exact hl (h.read.bodied.sound.own l b.1 gl g k hgl hg hk hj)
    · rw [Program.innerOf_eq hgl] at hinner
      have hle := hinner k hk
      have hlt := scope_lt_next hsc
      omega
  refine ⟨hread, hadd.placed, ?_, fun w hw => ?_, fun w hw hnot => ?_, fun l hl => ?_⟩
  · obtain ⟨n, hnext, hspread⟩ := h.spread
    obtain ⟨hfresh, hnext'⟩ := hadd.fresh
    refine ⟨n + g'.inner.length, by rw [hnext', hnext, Nat.add_assoc], ?_⟩
    have hold : pre.flatMap (fun w => s'.program.innerOf w.1) =
        pre.flatMap fun w => s₁.program.innerOf w.1 := by
      rw [List.flatMap_def, List.flatMap_def]
      refine congrArg List.flatten (List.map_congr_left fun w hw => ?_)
      rw [Program.innerOf, Program.innerOf, hadd.others w.1 (hpre w hw)]
    rw [List.flatMap_append, List.flatMap_singleton, Program.innerOf_eq hadd.method, hold, hspread,
      ← List.range'_append_1, List.map_append, ← hnext, ← hfresh]
  · rcases List.mem_append.1 hw with hw | hw
    · exact hkeep w.1 _ (hpre w hw) (fun k hk => (h.mem_inner hw hk).1) (h.done w hw)
    · cases List.mem_singleton.1 hw
      exact ⟨g', outer, hadd.method, (hhomes _).trans hhome, hadd.laid⟩
  · have hwb : w.1 ≠ b.1 := hrest w hw fun heq => hnot (by rw [heq]; simp)
    have hlaid := h.waiting w hw fun hmem => hnot (List.mem_append_left _ hmem)
    refine hkeep w.1 none hwb (fun k hk => ?_) hlaid
    -- a method that waits has no blocks yet
    obtain ⟨gw, _, hgw, -, hnone⟩ := hlaid
    rw [Program.innerOf_eq hgw, Method.inner] at hk
    cases hnone with
    | bare _ hbody _ =>
      rw [hbody] at hk
      cases hk
  · have hlb : l ≠ b.1 := by
      rintro rfl
      exact hl (List.mem_map_of_mem hb)
    exact (hadd.others l hlb).trans (h.others l hl)

/-- **The third pass lays out all bodies.** -/
theorem resolveBodies_lays (h₀ : s.Signed d u bodies) (hread : s.Readied d u bodies classes)
    (hp : s.program.Placed fun _ => False) :
    Gives (resolveBodies d bodies) s (fun _ s' => ∃ s₁ Ns,
      BodiesLaid s s₁ d u bodies bodies Ns ∧ s' = s₁.within none) := by
  unfold resolveBodies
  have run := Leads.forM (l := bodies) (s := s)
    (f := fun (b : MethodId × MethodDecl) => resolveBody d b.1 b.2) (E := fun _ => True)
    (fun pre s' => ∃ Ns, BodiesLaid s s' d u bodies pre Ns) ⟨[], hread.bodiesLaid h₀ hp⟩ ?_
  · refine run.seq ?_
    rintro _ s₁ ⟨Ns, h₁⟩
    exact Leads.modify ⟨s₁, Ns, h₁, rfl⟩
  · rintro pre b post s₁ hl ⟨Ns, h₁⟩
    -- every method gets its body once
    obtain ⟨hpre, hrest⟩ := distinct_split (List.pairwise_map.1 h₀.distinct) hl
    have hb : b ∈ bodies := by rw [hl]; simp
    have hnot : b ∉ pre := fun hmem => hpre b hmem rfl
    obtain ⟨owner, g, j, -, hr⟩ := h₀.ready b hb
    have hr₁ := h₁.read.bodied.waiting b hb hnot owner g j hr
    obtain ⟨sc, -, hsc, -⟩ := hr.signature
    obtain ⟨g₁, outer, hg₁, hhome, hlaid⟩ := h₁.waiting b hb hnot
    rw [hr₁.method] at hg₁
    cases hg₁
    obtain ⟨n, hnext, -⟩ := h₁.spread
    refine ((resolveBody_mirrors h₀ hread h₁.read hb hpre hrest).leads.and
      (resolveBody_lays d (hnext ▸ Nat.le_add_right _ n) h₁.placed hr₁.method hr₁.scope hlaid)).imp
      ?_ fun _ _ => trivial
    rintro _ s' ⟨⟨N, -, hN⟩, g', howner, hadd⟩
    rw [← howner] at hhome
    exact ⟨_, h₁.step hb hpre hrest hN hr₁.method hr₁.scope hsc hhome hadd⟩

end Resolver

end ClassLang
