import ClassLang.Proofs.BodyScopes

/-!
# The scope tree mirrors the block structure

The scopes of a program have places in the text (`Region`): the whole unit, a class, a method, or a
block in the body of a method.

* `Program.scopeOf?`: the scope of a place.
* `Program.MirrorsBlocks`: the places and the scopes match, and the scopes bind what is declared there.
* `CompilationUnit.staged_of_resolve`: what is known after all passes.
* `CompilationUnit.scopes_mirror_blocks`: in every unit that is resolved the places and the scopes
  match one to one, each scope hangs where its place says and binds what is declared there, and every
  variable is bound in one scope.
-/

namespace ClassLang

open Resolver Resolve

/-! ## Places of scopes -/

/-- A place that has a scope of its own. The blocks in a method are numbered from the outside in and
in the order of the text. -/
inductive Region where
  | global
  | ofClass (c : ClassId)
  | method (m : MethodId)
  | block (m : MethodId) (index : Nat)

namespace Program

/-- The scope of a place. -/
def scopeOf? (p : Program) : Region → Option ScopeId
  | .global => some ScopeTree.globalId
  | .ofClass c => (p.classAt? c).map ClassInfo.scope
  | .method m => (p.methodAt? m).bind Method.scope
  | .block m index => (p.innerOf m)[index]?

/-- **The scope tree mirrors the block structure** of a unit. -/
structure MirrorsBlocks (p : Program) (u : CompilationUnit) : Prop where
  /-- The scopes are those of the places. -/
  regions : ∀ j, (∃ sc, p.scopeAt? j = some sc) ↔ ∃ a, p.scopeOf? a = some j
  /-- No two places share a scope. -/
  apart : ∀ a b j, p.scopeOf? a = some j → p.scopeOf? b = some j → a = b
  /-- The global scope is inside no other and binds no variables. -/
  global : ∃ sc, p.scopeAt? ScopeTree.globalId = some sc ∧ sc.kind = .global ∧ sc.parent = none ∧
    ∀ n : String, sc.vars[n]? = none
  /-- The scope of a class is inside the global one and binds the fields. -/
  classes : ∀ c i, p.classAt? c = some i → ∃ sc, p.scopeAt? i.scope = some sc ∧
    sc.kind = .ofClass c ∧ sc.parent = some ScopeTree.globalId ∧
    ∀ n : String, sc.vars[n]? = i.fields[n]?
  /-- A method that is no operator is declared, and its scope is inside that of its class or inside
  the global one. -/
  methods : ∀ l g, p.methodAt? l = some g → g.isOperator = false →
    ∃ owner m outer, u.Declares owner m ∧ g.name = m.name ∧
      (g.owner.bind p.classAt?).map ClassInfo.name = owner.map ClassDecl.name ∧
      p.home? g.owner = some outer ∧ g.Laid p outer m.body
  /-- Operators have no scopes. -/
  operators : ∀ l g, p.methodAt? l = some g → g.isOperator = true → g.scope = none ∧ g.body = none
  /-- Every variable is bound in one scope, under its own name. -/
  vars : ∀ v x, p.varAt? v = some x → ¬ p.IsOperand v → ∃ j, p.NamesVar j x.name v ∧
    ∀ j' n, p.NamesVar j' n v → j' = j ∧ n = x.name

end Program

/-! ## Places and scopes -/

namespace Resolver

variable {s s₁ : Resolver} {d : Dialect} {u : CompilationUnit}
  {bodies : List (MethodId × MethodDecl)} {Ns : List NamedMethod} {classes : List NamedClass}
  {j : ScopeId}

/-- **After all passes**: what is known of the state `s` after the second pass, and of the state `s₁`
after the last body. -/
structure Staged (s s₁ : Resolver) (d : Dialect) (u : CompilationUnit)
    (bodies : List (MethodId × MethodDecl)) (classes : List NamedClass) (Ns : List NamedMethod) :
    Prop where
  elaborated : u.elaborateSignatures d = .ok classes
  signed : s.Signed d u bodies
  readied : s.Readied d u bodies classes
  covered : s.program.CoveredBy (bodies.map Prod.fst)
  laid : BodiesLaid s s₁ d u bodies bodies Ns

/-- What kind of scope a place has, and when: blocks in bodies come from the number `first` on. -/
inductive Stands (p : Program) (first : Nat) (j : ScopeId) : ScopeKind → Region → Prop where
  | global : Stands p first j .global .global
  | ofClass (c : ClassId) : Stands p first j (.ofClass c) (.ofClass c)
  | method {l : MethodId} {g : Method} (before : j.index < first) (method : p.methodAt? l = some g)
    (scope : g.scope = some j) : Stands p first j .block (.method l)
  | block {l : MethodId} {index : Nat} (after : first ≤ j.index)
    (inner : (p.innerOf l)[index]? = some j) : Stands p first j .block (.block l index)

/-- A method of the program is declared and has its scopes, or is an operator and has none. -/
theorem Staged.method_cases (h : Staged s s₁ d u bodies classes Ns) {l : MethodId} {g : Method}
    (hg : s₁.program.methodAt? l = some g) :
    (g.isOperator = false ∧ ∃ b ∈ bodies, b.1 = l ∧ ∃ owner g₀ j, u.Declares owner b.2 ∧
      s.Ready d u owner l b.2 g₀ j ∧ g.scope = some j ∧ g.owner = g₀.owner ∧ g.name = g₀.name) ∨
    (g.isOperator = true ∧ g.scope = none ∧ g.body = none) := by
  by_cases hl : l ∈ bodies.map Prod.fst
  · obtain ⟨b, hb, rfl⟩ := List.mem_map.1 hl
    obtain ⟨owner, g₀, j, hdecl, hr⟩ := h.signed.ready b hb
    obtain ⟨-, body, hbody, -⟩ := h.laid.read.bodied.done b hb owner g₀ j hr
    rw [hg] at hbody
    cases hbody
    rcases h.covered b.1 g₀ hr.method with ⟨hop, -⟩ | ⟨-, hscope⟩
    · exact .inl ⟨hop, b, hb, rfl, owner, g₀, j, hdecl, hr, hr.scope, rfl, rfl⟩
    · rw [hr.scope] at hscope
      cases hscope
  · rw [h.laid.others l hl] at hg
    rcases h.covered l g hg with ⟨-, hmem⟩ | ⟨hop, hscope⟩
    · exact absurd hmem hl
    · exact .inr ⟨hop, hscope, h.signed.bodyless l g hg⟩

/-- A block in a body belongs to a method that has one. -/
theorem Staged.body_of_inner (h : Staged s s₁ d u bodies classes Ns) {l : MethodId}
    (hj : j ∈ s₁.program.innerOf l) : ∃ b ∈ bodies, b.1 = l := by
  cases hg : s₁.program.methodAt? l with
  | none =>
    rw [Program.innerOf, hg] at hj
    cases hj
  | some g =>
    rcases h.method_cases hg with ⟨-, b, hb, hl, -⟩ | ⟨-, -, hnone⟩
    · exact ⟨b, hb, hl⟩
    · rw [Program.innerOf_eq hg, Method.inner, hnone] at hj
      cases hj

/-- The scope of a block in a body is a block, and new since `s`. -/
theorem Staged.block_of_inner (h : Staged s s₁ d u bodies classes Ns) {b : MethodId × MethodDecl}
    (hb : b ∈ bodies) (hj : j ∈ s₁.program.innerOf b.1) :
    s.nextScope.index ≤ j.index ∧ ∃ sc, s₁.program.scopeAt? j = some sc ∧ sc.kind = .block := by
  obtain ⟨hle, hlt⟩ := h.laid.mem_inner hb hj
  obtain ⟨sc, hsc⟩ : ∃ sc, s₁.program.scopeAt? j = some sc := ⟨_, Array.getElem?_eq_getElem hlt⟩
  refine ⟨hle, sc, hsc, ?_⟩
  -- scopes of other kinds were there before
  have hnew : ∀ sc', s.program.scopeAt? j ≠ some sc' := fun sc' hsc' => by
    have := scope_lt_next hsc'
    omega
  have hok := h.laid.read.bodied.sound.scopes j sc hsc
  cases hkind : sc.kind with
  | block => rfl
  | global =>
    obtain ⟨sc', hsc'⟩ := h.signed.sound.global
    rw [← hok.root.1 hkind] at hsc'
    exact absurd hsc' (hnew sc')
  | ofClass c =>
    obtain ⟨-, i, hi, rfl⟩ := hok.ofClass c hkind
    rw [h.laid.read.kept.classAt?_eq] at hi
    obtain ⟨sc', hsc', -⟩ := (h.signed.sound.classes c i hi).scope
    exact absurd hsc' (hnew sc')

/-- **Every place has a scope** of its kind. -/
theorem Staged.stands (h : Staged s s₁ d u bodies classes Ns) {a : Region}
    (ha : s₁.program.scopeOf? a = some j) :
    ∃ sc, s₁.program.scopeAt? j = some sc ∧ Stands s₁.program s.nextScope.index j sc.kind a := by
  have hs := h.laid.read.bodied.sound
  cases a with
  | global =>
    cases ha
    obtain ⟨sc, hsc⟩ := hs.global
    refine ⟨sc, hsc, ?_⟩
    rw [(hs.scopes _ sc hsc).root.2 rfl]
    exact .global
  | ofClass c =>
    obtain ⟨i, hi, rfl⟩ := Option.map_eq_some_iff.1 ha
    obtain ⟨sc, hsc, hkind⟩ := (hs.classes c i hi).scope
    refine ⟨sc, hsc, ?_⟩
    rw [hkind]
    exact .ofClass c
  | method l =>
    obtain ⟨g, hg, hj⟩ := Option.bind_eq_some_iff.1 ha
    obtain ⟨sc, -, hsc, hkind, -⟩ := (hs.methods l g hg).scope j hj
    refine ⟨sc, hsc, ?_⟩
    rw [hkind]
    refine .method ?_ hg hj
    -- the method had its scope before its body
    rcases h.method_cases hg with ⟨-, b, -, -, owner, g₀, j₀, -, hr, hj₀, -⟩ | ⟨-, hnone, -⟩
    · rw [hj] at hj₀
      cases hj₀
      obtain ⟨sc₀, -, hsc₀, -⟩ := hr.signature
      exact scope_lt_next hsc₀
    · rw [hj] at hnone
      cases hnone
  | block l index =>
    have hmem : j ∈ s₁.program.innerOf l := List.mem_of_getElem? ha
    obtain ⟨b, hb, rfl⟩ := h.body_of_inner hmem
    obtain ⟨hle, sc, hsc, hkind⟩ := h.block_of_inner hb hmem
    refine ⟨sc, hsc, ?_⟩
    rw [hkind]
    exact .block hle ha

/-- **Every scope has a place.** -/
theorem BodiesLaid.region (h : BodiesLaid s s₁ d u bodies bodies Ns) {sc : Scope}
    (hsc : s₁.program.scopeAt? j = some sc) : ∃ a, s₁.program.scopeOf? a = some j := by
  have hok := h.read.bodied.sound.scopes j sc hsc
  cases hkind : sc.kind with
  | global => exact ⟨.global, congrArg some (hok.root.1 hkind).symm⟩
  | ofClass c =>
    obtain ⟨-, i, hi, hj⟩ := hok.ofClass c hkind
    exact ⟨.ofClass c, Option.map_eq_some_iff.2 ⟨i, hi, hj⟩⟩
  | block =>
    rcases h.placed.owned j sc hsc hkind with hle | ⟨l, g, hg, hj⟩
    · -- the new scopes are those of the bodies, one run after the other
      obtain ⟨n, hnext, hspread⟩ := h.spread
      have hlt := scope_lt_next hsc
      rw [hnext] at hlt
      have hmem : j ∈ (List.range' s.nextScope.index n).map ScopeId.mk :=
        List.mem_map.2 ⟨j.index, List.mem_range'_1.2 ⟨hle, hlt⟩, rfl⟩
      rw [← hspread] at hmem
      obtain ⟨b, -, hb⟩ := List.mem_flatMap.1 hmem
      obtain ⟨index, hindex⟩ := List.mem_iff_getElem?.1 hb
      exact ⟨.block b.1 index, hindex⟩
    · exact ⟨.method l, Option.bind_eq_some_iff.2 ⟨g, hg, hj⟩⟩

/-- No two blocks in bodies share a scope. -/
theorem BodiesLaid.inner_unique (h : BodiesLaid s s₁ d u bodies bodies Ns)
    {b b' : MethodId × MethodDecl} (hb : b ∈ bodies) (hb' : b' ∈ bodies) {k k' : Nat}
    (hk : (s₁.program.innerOf b.1)[k]? = some j) (hk' : (s₁.program.innerOf b'.1)[k']? = some j) :
    b.1 = b'.1 ∧ k = k' := by
  obtain ⟨n, -, hspread⟩ := h.spread
  have hnodup : (bodies.flatMap fun b => s₁.program.innerOf b.1).Nodup := by
    rw [hspread]
    refine List.Nodup.map (fun _ _ heq => ?_) List.nodup_range'
    exact congrArg ScopeId.index heq
  obtain ⟨heach, hdisjoint⟩ := List.pairwise_flatMap.1 hnodup
  have : Std.Symm fun b b' : MethodId × MethodDecl =>
      ∀ x ∈ s₁.program.innerOf b.1, ∀ y ∈ s₁.program.innerOf b'.1, x ≠ y :=
    ⟨fun _ _ hne y hy x hx => (hne x hx y hy).symm⟩
  by_cases heq : b = b'
  · subst heq
    refine ⟨rfl, ?_⟩
    have hlt := (List.getElem?_eq_some_iff.1 hk).1
    exact (List.getElem?_inj hlt (heach b hb)).1 (hk.trans hk'.symm)
  · have hne := hdisjoint.forall hb hb' heq
    exact absurd rfl (hne j (List.mem_of_getElem? hk) j (List.mem_of_getElem? hk'))

/-- No two places share a scope. -/
theorem Staged.apart (h : Staged s s₁ d u bodies classes Ns) {a a' : Region}
    (ha : s₁.program.scopeOf? a = some j) (ha' : s₁.program.scopeOf? a' = some j) : a = a' := by
  obtain ⟨sc, hsc, hstands⟩ := h.stands ha
  obtain ⟨sc', hsc', hstands'⟩ := h.stands ha'
  rw [hsc] at hsc'
  cases hsc'
  generalize sc.kind = kind at hstands hstands'
  cases hstands with
  | global => cases hstands' with
    | global => rfl
  | ofClass c => cases hstands' with
    | ofClass => rfl
  | method hlt hg hj => cases hstands' with
    | method _ hg' hj' => rw [h.laid.read.bodied.sound.own _ _ _ _ j hg hg' hj hj']
    | block hle _ => exact absurd hlt (Nat.not_lt.2 hle)
  | block hle hindex => cases hstands' with
    | method hlt _ _ => exact absurd hlt (Nat.not_lt.2 hle)
    | block _ hindex' =>
      obtain ⟨b, hb, rfl⟩ := h.body_of_inner (List.mem_of_getElem? hindex)
      obtain ⟨b', hb', rfl⟩ := h.body_of_inner (List.mem_of_getElem? hindex')
      obtain ⟨hl, rfl⟩ := h.laid.inner_unique hb hb' hindex hindex'
      rw [hl]

/-- **After the last body** the scopes mirror the blocks. -/
theorem Staged.mirrorsBlocks (h : Staged s s₁ d u bodies classes Ns) : s₁.program.MirrorsBlocks u := by
  have hs := h.laid.read.bodied.sound
  refine ⟨fun j => ⟨?_, ?_⟩, fun _ _ _ => h.apart, ?_, fun c i hi => ?_, fun l g hg hop => ?_,
    fun l g hg hop => ?_, fun v x hx hoperand => ?_⟩
  · rintro ⟨sc, hsc⟩
    exact h.laid.region hsc
  · rintro ⟨a, ha⟩
    obtain ⟨sc, hsc, -⟩ := h.stands ha
    exact ⟨sc, hsc⟩
  · obtain ⟨sc, hsc⟩ := hs.global
    have hok := hs.scopes _ sc hsc
    have hkind := hok.root.2 rfl
    refine ⟨sc, hsc, hkind, hok.inside.2 rfl, fun n => ?_⟩
    refine Option.eq_none_iff_forall_ne_some.2 fun v hv => ?_
    obtain ⟨x, -, hbinds⟩ := hok.var n v hv
    rw [hkind] at hbinds
    exact hbinds
  · obtain ⟨sc, hsc, hkind⟩ := (hs.classes c i hi).scope
    obtain ⟨decl, -, hholds⟩ := h.laid.read.bodied.represents.classes c i hi
    exact ⟨sc, hsc, hkind, ((hs.scopes _ sc hsc).ofClass c hkind).1, hholds.scopeVars sc hsc⟩
  · rcases h.method_cases hg with
      ⟨-, b, hb, rfl, owner, g₀, j, hdecl, hr, -, howner, hname⟩ | ⟨hop', -⟩
    · -- the declaration is that of the body resolved for this number
      obtain ⟨g', outer, hg', hhome, hlaid⟩ := h.laid.done b hb
      rw [hg] at hg'
      cases hg'
      refine ⟨owner, b.2, outer, hdecl, hname.trans hr.name, ?_, hhome, hlaid⟩
      rw [howner]
      exact (hr.owned.mono h.laid.read.bodied.grows).name_eq
    · rw [hop] at hop'
      cases hop'
  · rcases h.method_cases hg with ⟨hop', -⟩ | ⟨-, hnone⟩
    · rw [hop] at hop'
      cases hop'
    · exact hnone
  · rcases h.laid.placed.bound v x hx with hop | ⟨j, hj⟩
    · exact absurd hop hoperand
    · refine ⟨j, hj, fun j' n hn => ⟨h.laid.placed.once j' j n x.name v hn hj, ?_⟩⟩
      obtain ⟨y, hy, rfl⟩ := h.laid.placed.named j' n v hn
      rw [hx] at hy
      cases hy
      rfl

end Resolver

/-! ## Units -/

/-- **After the first two passes.** -/
theorem readSignatures_leads (d : Dialect) (u : CompilationUnit) {s₀ : Resolver}
    (h₀ : s₀ = .initial) : Gives (readSignatures d u) s₀ (fun bodies s => ∃ classes,
      u.elaborateSignatures d = .ok classes ∧ s.Signed d u bodies ∧ s.Readied d u bodies classes ∧
      s.program.Placed (fun _ => False) ∧ s.program.CoveredBy (bodies.map Prod.fst)) := by
  have hstart : s₀.program.Placed fun _ => False := by
    rw [h₀]
    exact Program.placed_initial
  unfold readSignatures
  refine ((installOperators_leads h₀).and ((installOperators_places s₀ _ hstart).and
    (installOperators_operators h₀))).seq_imp (fun _ _ => trivial) ?_
  rintro _ s₁ ⟨h₁, hp₁, hops⟩
  refine ((declare_leads h₁).and ((declare_places d u s₁ _ hp₁).and (declare_adds d u s₁))).seq_imp
    (fun _ _ => trivial) ?_
  rintro known s₂ ⟨h₂, hp₂, hadds⟩
  -- before the second pass, the methods are the operators and the functions
  have hcovers : ∀ l g, s₂.program.methodAt? l = some g → g.isOperator = false →
      l ∈ known.functions.values.map Prod.fst := by
    intro l g hg hop
    rcases hadds l g hg with ⟨-, hl | ⟨g₁, hg₁, hop₁⟩⟩ | ⟨hop', -⟩
    · exact hl
    · rw [hops l g₁ hg₁] at hop₁
      cases hop₁
    · rw [hop] at hop'
      cases hop'
  refine ((resolveSignatures_mirrors h₂).leads.and (resolveSignatures_covers h₂ hp₂ hcovers)).imp ?_
    fun _ _ => trivial
  rintro bodies s₃ ⟨⟨classes, hclasses, hsigned, hread⟩, hp₃, hmethods⟩
  exact ⟨classes, hclasses, hsigned, hread, hp₃, hmethods⟩

/-- **All passes in turn.** -/
theorem resolveUnit_stages (d : Dialect) (u : CompilationUnit) {s₀ : Resolver} (h₀ : s₀ = .initial) :
    Gives (resolveUnit d u) s₀ (fun _ s => ∃ s₃ s₄ bodies classes Ns,
      Staged s₃ s₄ d u bodies classes Ns ∧ s = s₄.within none ∧
      readSignatures d u .initial = .ok bodies s₃ ∧
      resolveBodies d bodies s₃ = .ok ⟨⟩ (s₄.within none)) := by
  rw [resolveUnit_eq]
  refine ((readSignatures_leads d u h₀).and Leads.runs).seq ?_
  rintro bodies s₃ ⟨⟨classes, hclasses, hsigned, hread, hp₃, hmethods⟩, hrun⟩
  rw [h₀] at hrun
  refine ((resolveBodies_lays hsigned hread hp₃).and Leads.runs).post ?_
  rintro _ _ ⟨⟨s₄, Ns, h₄, rfl⟩, hbodies⟩
  exact ⟨s₃, s₄, bodies, classes, Ns, ⟨hclasses, hsigned, hread, hmethods, h₄⟩, rfl, hrun, hbodies⟩

/-- What is resolved comes from a state after all passes. -/
theorem CompilationUnit.staged_of_resolve {d : Dialect} {u : CompilationUnit} {r : Registry}
    {p : Program} (h : u.resolve d = .ok (r, p)) : ∃ s₃ s₄ bodies classes Ns,
      Staged s₃ s₄ d u bodies classes Ns ∧ s₄.registry = r ∧ s₄.program = p ∧
      readSignatures d u .initial = .ok bodies s₃ ∧
      resolveBodies d bodies s₃ = .ok ⟨⟩ (s₄.within none) := by
  refine yields_of_leads (E := fun _ => True) (P := fun r p => ∃ s₃ s₄ bodies classes Ns,
    Staged s₃ s₄ d u bodies classes Ns ∧ s₄.registry = r ∧ s₄.program = p ∧
      readSignatures d u .initial = .ok bodies s₃ ∧
      resolveBodies d bodies s₃ = .ok ⟨⟩ (s₄.within none)) (fun _ h₀ => ?_) h
  refine (resolveUnit_stages d u h₀).post ?_
  rintro _ _ ⟨s₃, s₄, bodies, classes, Ns, h₄, rfl, hrun, hbodies⟩
  exact ⟨s₃, s₄, bodies, classes, Ns, h₄, rfl, rfl, hrun, hbodies⟩

/-- **The scope tree mirrors the block structure.** In a unit that is resolved, the whole unit, each
class, each method and each block in a body has a scope of its own, and there are no others. Each scope
is inside that of the place around it, and binds the fields of the class, or the receiver, the
arguments and the variables that are declared directly in the block. Every variable, the operands of
native operators apart, is bound in one scope and under its own name. -/
theorem CompilationUnit.scopes_mirror_blocks {d : Dialect} {u : CompilationUnit} {r : Registry}
    {p : Program} (h : u.resolve d = .ok (r, p)) : p.MirrorsBlocks u := by
  obtain ⟨s₃, s₄, bodies, classes, Ns, hstaged, -, rfl, -⟩ := staged_of_resolve h
  exact hstaged.mirrorsBlocks

/-- Blocks of each kind, and a variable in each of them:
```
class Gauge
  level: Integer;
  raise(by: Integer): Integer do
    var old: Integer := level;
    if by < 10 then
      var next: Integer := level + by;
      level := next;
    end
    while level < old do
      var step: Integer := 1;
      do
        var step: Integer := by;
        level := level + step;
      end
    end
    return level;
  end
end
reset(g: Gauge);
``` -/
def Gauge.unit : CompilationUnit :=
  let sp := Span.nowhere
  let integer := TypeName.named "Integer" sp
  let name := fun n => Expr.symbol n sp
  ⟨[.ofClass ⟨"Gauge",
      [.field ⟨"level", integer, sp⟩,
       .method ⟨"raise", [⟨"by", integer, sp⟩], some integer,
        some (.mk
          [.varDecl "old" integer (some (name "level")) sp,
           .ifThen (.binary .less (name "by") (.number 10 sp) sp)
            (.mk [.varDecl "next" integer (some (.binary .add (name "level") (name "by") sp)) sp,
              .assignment (name "level") (name "next") sp] sp) sp,
           .whileDo (.binary .less (name "level") (name "old") sp)
            (.mk [.varDecl "step" integer (some (.number 1 sp)) sp,
              .nested (.mk [.varDecl "step" integer (some (name "by")) sp,
                .assignment (name "level") (.binary .add (name "level") (name "step") sp) sp]
                sp)] sp) sp,
           .ret (some (name "level")) sp] sp), sp⟩], sp⟩,
    .ofFunction ⟨"reset", [⟨"g", .named "Gauge" sp, sp⟩], none, none, sp⟩], sp⟩

set_option maxRecDepth 100000 in
/-- The unit, the class, two methods and four blocks, one of them for the missing `else`. -/
theorem Gauge.scope_count :
    ((Gauge.unit.resolve .standard).toOption.map fun q => q.2.scopes.size) = some 8 := by
  decide +kernel

theorem Gauge.scopes_mirror_its_blocks : ∃ r p, Gauge.unit.resolve .standard = .ok (r, p) ∧
    p.scopes.size = 8 ∧ p.MirrorsBlocks Gauge.unit := by
  have hcount := Gauge.scope_count
  cases h : Gauge.unit.resolve .standard with
  | error f =>
    rw [h] at hcount
    cases hcount
  | ok q =>
    rw [h] at hcount
    exact ⟨q.1, q.2, rfl, Option.some.inj hcount, CompilationUnit.scopes_mirror_blocks h⟩

end ClassLang
