import ClassLang.Proofs.Resolution
import ClassLang.Proofs.ScopingStmt

/-!
# A unit is resolved with lexical scoping

* `LoweredUnit`: each body of a program is what the body in the source may become by scoping, and no
  two declarations share a variable.
* `resolveBody_lowers`, `resolveBodies_lowers`: one body, and all of them in turn. The scopes of the
  bodies before are still in the table, but no name finds them.
* `CompilationUnit.resolve_scoped`: so it is with every unit that is resolved.
-/

namespace ClassLang

open Resolver Resolve

/-- **A program is scoped as its unit**: each variable that a body declares, `ds` for the methods, is
a local variable of its own, and each method is what its declaration may become among the members that
the unit declares for its class. -/
structure Program.LoweredUnit (p : Program) (r : Registry) (d : Dialect) (u : CompilationUnit)
    (ds : MethodId → List Declaration) : Prop where
  distinct : (p.declared.flatMap fun l => (ds l).map Declaration.id).Nodup
  entered : ∀ l ∈ p.declared, ∀ w ∈ ds l, ∃ ty,
    p.varAt? w.id = some ⟨w.name, ty, .localVar, none, w.span⟩
  methods : ∀ owner m, u.Declares owner m → ∃ l ∈ p.declared, ∃ g, g.name = m.name ∧
    (g.owner.bind p.classAt?).map ClassInfo.name = owner.map ClassDecl.name ∧
    (p.members g.owner).Reads ⟨r, p, none⟩ (u.interface d) (owner.map ClassDecl.name) ∧
    p.LoweredMethod m l g (ds l)

/-! ## Arguments -/

theorem ArgumentDecl.elaborate_facts {I : Interface} {taken : List String}
    {before : List ArgumentDecl} {a : ArgumentDecl} {y : NamedVariable}
    (h : a.elaborate I taken before = .ok y) : (y.name, y.role) = (a.name, .argument before.length) := by
  obtain ⟨T, -, h⟩ := exists_of_bind_eq_ok h
  split at h
  · cases h
  · cases h; rfl

/-- The arguments of a method are numbered in order. -/
theorem ArgumentDecl.inTurn_roles {I : Interface} {taken : List String}
    {l before : List ArgumentDecl} {ys : List NamedVariable}
    (h : inTurn (ArgumentDecl.elaborate I taken) before l = .ok ys) :
    ys.map (fun y => (y.name, y.role)) =
      (l.zipIdx before.length).map fun q => (q.1.name, .argument q.2) := by
  induction l generalizing before ys with
  | nil => cases h; rfl
  | cons a l ih =>
    rw [inTurn] at h
    obtain ⟨y, ha, h⟩ := exists_of_bind_eq_ok h
    obtain ⟨zs, hl, ⟨⟩⟩ := exists_of_bind_eq_ok h
    -- the numbers go on after the arguments before
    have hrest := ih hl
    rw [List.length_append, List.length_singleton] at hrest
    rw [List.map_cons, List.zipIdx_cons, List.map_cons, hrest, elaborate_facts ha]

namespace Resolver

variable {s s₁ s' : Resolver} {d : Dialect} {u : CompilationUnit} {g : Method}
  {bodies pre : List (MethodId × MethodDecl)} {Ns : List NamedMethod} {classes : List NamedClass}
  {m : MethodDecl} {b : MethodId × MethodDecl}

theorem kind_of_argument {kind : VariableKind} {i : Nat}
    (h : s.role? kind = some (.argument i)) : kind = .argument i := by
  cases kind with
  | argument k => cases h; rfl
  | localVar => cases h
  | receiver => cases h
  | field c k =>
    change (s.className? c).map _ = _ at h
    obtain ⟨name, -, hrole⟩ := Option.map_eq_some_iff.1 h
    cases hrole

/-- Variables that read as arguments are arguments. -/
theorem kinds_of_named {vs : List VariableId} {ys : List NamedVariable}
    {l : List (ArgumentDecl × Nat)} (h : vs.map s.namedVar? = ys.map some)
    (hl : ys.map (fun y => (y.name, y.role)) = l.map fun q => (q.1.name, .argument q.2)) :
    (vs.map fun v => (s.program.varAt? v).map fun y => (y.name, y.kind)) =
      (l.map fun q => (q.1.name, VariableKind.argument q.2)).map some := by
  induction vs generalizing ys l with
  | nil =>
    cases ys with
    | cons y ys => cases h
    | nil => cases l with
      | nil => rfl
      | cons q l => cases hl
  | cons v vs ih =>
    cases ys with
    | nil => cases h
    | cons y ys => cases l with
      | nil => cases hl
      | cons q l =>
        rw [List.map_cons, List.map_cons, List.cons.injEq] at h hl
        obtain ⟨z, hz, hname, hrole, -⟩ := namedVar?_eq_some_iff.1 h.1
        obtain ⟨hname', hrole'⟩ := Prod.mk.inj hl.1
        rw [hrole'] at hrole
        rw [List.map_cons, List.map_cons, List.map_cons, ih h.2 hl.2, hz, Option.map_some, hname,
          hname', kind_of_argument hrole]

theorem Presents.argument_kinds {I : Interface} {owner : Option String} {l : MethodId} {j : ScopeId}
    {N : NamedMethod} (h : s.Presents m l g j N) (hN : m.elaborateSignature I owner = .ok N) :
    (g.arguments.map fun v => (s.program.varAt? v).map fun y => (y.name, y.kind)) =
      (m.arguments.zipIdx.map fun q => (q.1.name, VariableKind.argument q.2)).map some :=
  kinds_of_named h.arguments
    (ArgumentDecl.inTurn_roles (MethodDecl.elaborateSignature_facts hN).2.2)

/-- The names that a body starts with are those of the receiver and of ordinary variables. -/
theorem Usable.of_kinds
    (h : (g.arguments.map fun v => (s.program.varAt? v).map fun y => (y.name, y.kind)) =
      (m.arguments.zipIdx.map fun q => (q.1.name, VariableKind.argument q.2)).map some) :
    s.Usable [m.locals g] := by
  intro names hnames n v hv hn
  cases List.mem_singleton.1 hnames
  rcases List.mem_append.1 hv with hv | hv
  · obtain ⟨r, -, heq⟩ := List.mem_map.1 hv
    cases heq
    exact absurd rfl hn
  -- an argument, of which the kind is known
  · have hmem := List.mem_map_of_mem
      (f := fun v => (s.program.varAt? v).map fun y => (y.name, y.kind)) (List.of_mem_zip hv).2
    rw [h] at hmem
    obtain ⟨k, hk, heq⟩ := List.mem_map.1 hmem
    obtain ⟨q, -, rfl⟩ := List.mem_map.1 hk
    obtain ⟨y, hy, hkind⟩ := Option.map_eq_some_iff.1 heq.symm
    exact ⟨y, hy, .inr ⟨q.2, (Prod.mk.inj hkind).2⟩⟩

/-! ## Bodies -/

theorem Grows.map_kinds {vs : List VariableId} {ks : List (String × VariableKind)}
    (hg : s.Grows s')
    (h : (vs.map fun v => (s.program.varAt? v).map fun y => (y.name, y.kind)) = ks.map some) :
    (vs.map fun v => (s'.program.varAt? v).map fun y => (y.name, y.kind)) = ks.map some := by
  refine map_eq_map_some_mono (fun v _ k hk => ?_) h
  obtain ⟨y, hy, rfl⟩ := Option.map_eq_some_iff.1 hk
  rw [hg.vars v y hy, Option.map_some]

/-- What a method has become stays, as long as the method is left alone. -/
theorem Extends.loweredMethod {l : MethodId} {ds : List Declaration} (hx : s.Extends s')
    (h : s.program.LoweredMethod m l g ds) (hm : s'.program.methodAt? l = some g) :
    s'.program.LoweredMethod m l g ds where
  method := hm
  arguments := hx.grows.map_kinds h.arguments
  body := hx.members g.owner ▸ h.body

/-- A method that waits for its body: what its body is resolved in. -/
theorem BodiesRead.inside (h₀ : s.Signed d u bodies) (hread : s.Readied d u bodies classes)
    (h : BodiesRead s s₁ d u bodies pre Ns) (hb : b ∈ bodies) (hnot : b ∉ pre) :
    ∃ x g j bs, x.dialect = d ∧
      s₁.program.methodAt? b.1 = some g ∧ g.scope = some j ∧ g.body = none ∧
      (g.arguments.map fun v => (s₁.program.varAt? v).map fun y => (y.name, y.kind)) =
        (b.2.arguments.zipIdx.map fun q => (q.1.name, VariableKind.argument q.2)).map some ∧
      (s₁.within (some b.1)).Inside x g (s₁.program.receiverType? g) j [bs]
        (s₁.program.members g.owner) [b.2.locals g] := by
  obtain ⟨owner, g, j, N, -, hr, hp, -, hN, hnested, bs, hstage⟩ := h.stage h₀ hread hb hnot
  have hkinds := hp.argument_kinds hN
  have hx := Extends.within s₁ (some b.1)
  have htabled : s.Tabled := ⟨hread.members, hread.functions⟩
  exact ⟨_, g, j, bs, rfl, hr.method, hr.scope, hr.body, hkinds, hstage.setting,
    (htabled.mono h.kept h₀.sound).mono hx h.bodied.sound, hnested,
    (Usable.of_kinds hkinds).mono hx.grows, hx.members g.owner⟩

/-- **What a body is resolved to**, whatever bodies have been resolved before. -/
theorem resolveBody_lowers (h₀ : s.Signed d u bodies) (hread : s.Readied d u bodies classes)
    (h : BodiesRead s s₁ d u bodies pre Ns) (hb : b ∈ bodies) (hnot : b ∉ pre) :
    Gives (resolveBody d b.1 b.2) s₁ (fun _ s' => ∃ g j ds, s₁.BodyAdded s' b.1 j ∧
      s'.program.LoweredMethod b.2 b.1 g ds ∧ s₁.Fresh s' ds) := by
  have hs₁ := h.bodied.sound
  obtain ⟨x, g, j, bs, rfl, hg, hj, hnone, hkinds, hin⟩ := h.inside h₀ hread hb hnot
  refine resolveBody_seq hg hj (fun hbody => ?_) fun body span hbody => ?_
  · refine ⟨g, j, [], .refl s₁ b.1 j, ⟨hg, hkinds, ?_⟩, .nil (.refl s₁)⟩
    rw [hbody, hnone]
    exact .none
  · refine ((Stmt.resolveAll_leads body hin.setting).and (Stmt.resolveAll_lowers body hin)).imp ?_
      fun _ _ => trivial
    rintro ts s₂ ⟨hres, ds, hts, hfresh⟩
    have hg₂ : s₂.program.methodAt? b.1 = some g := hres.frame.keepsMethod hg
    obtain ⟨sc, p, hsc, hkind, -⟩ := (hs₁.methods b.1 g hg).scope j hj
    have hadd := BodyAdded.setBody hsc hkind hres.frame hg₂ (.mk ts j span)
    refine ⟨hg₂, _, j, ds, hadd,
      ⟨(methodAt?_setBody hg₂ _ _).trans (if_pos rfl), hadd.kept.grows.map_kinds hkinds, ?_⟩, ?_⟩
    · rw [hbody]
      -- the members are those of the state before the body
      exact hadd.kept.members g.owner ▸ .some hts
    -- neither entering the body nor storing it declares a variable
    · have hafter := (Fresh.nil (Extends.within s₁ (some b.1)).grows).append hfresh
      have hall := hafter.append (.nil (Extends.setBody hg₂ (.mk ts j span)).grows)
      rwa [List.nil_append, List.append_nil] at hall

/-! ## All bodies -/

/-- The members of a class, and the functions, are those that the unit declares. -/
theorem Published.reads (h : s.Published d u) (hR : s.Represents d u) (hs : s.Sound) (ht : s.Tabled)
    (o : Option ClassId) : (s.program.members o).Reads s (u.interface d)
      ((o.bind s.program.classAt?).map ClassInfo.name) where
  fields n := by
    unfold Program.members
    cases ho : o.bind s.program.classAt? with
    | none => rfl
    | some i =>
      obtain ⟨c, -, hi⟩ := Option.bind_eq_some_iff.1 ho
      exact h.map_field hs hi n
  methods n := by
    unfold Program.members
    cases ho : o.bind s.program.classAt? with
    | none => rfl
    | some i =>
      obtain ⟨c, -, hi⟩ := Option.bind_eq_some_iff.1 ho
      obtain ⟨sc, hsc, -⟩ := hs.class_scope hi
      have hcallee := hR.callee_of_class hs hi hsc n
      rw [ht.members c i sc hi hsc n] at hcallee
      exact hcallee
  functions n := by
    obtain ⟨sc, hsc⟩ := hs.global
    have hcallee := h.callee_of_function hR hs hsc n
    rw [ht.functions sc hsc n] at hcallee
    exact hcallee

/-- **The third pass is under way**: since `s`, the bodies of `pre` have become what scoping says,
with the declarations `ds`. -/
structure BodiesLowered (s s' : Resolver) (d : Dialect) (u : CompilationUnit)
    (bodies pre : List (MethodId × MethodDecl)) (Ns : List NamedMethod)
    (ds : MethodId → List Declaration) : Prop where
  read : BodiesRead s s' d u bodies pre Ns
  lowered : ∀ b ∈ pre, ∃ g, s'.program.LoweredMethod b.2 b.1 g (ds b.1)
  fresh : s.Fresh s' (pre.flatMap fun b => ds b.1)

/-- One body more. -/
theorem BodiesLowered.step {Ns' : List NamedMethod} {ds : MethodId → List Declaration}
    {new : List Declaration} {j : ScopeId} (h : BodiesLowered s s₁ d u bodies pre Ns ds)
    (hpre : ∀ w ∈ pre, w.1 ≠ b.1) (hread : BodiesRead s s' d u bodies (pre ++ [b]) Ns')
    (hadd : s₁.BodyAdded s' b.1 j) (hg : s'.program.LoweredMethod b.2 b.1 g new)
    (hnew : s₁.Fresh s' new) :
    BodiesLowered s s' d u bodies (pre ++ [b]) Ns' fun l => if l = b.1 then new else ds l where
  read := hread
  lowered w hw := by
    rcases List.mem_append.1 hw with hw | hw
    · obtain ⟨g', hg'⟩ := h.lowered w hw
      refine ⟨g', ?_⟩
      rw [if_neg (hpre w hw)]
      exact hadd.kept.loweredMethod hg' (hadd.methods _ _ hg'.method (hpre w hw))
    · cases List.mem_singleton.1 hw
      refine ⟨g, ?_⟩
      rw [if_pos rfl]
      exact hg
  fresh := by
    -- the declarations of the bodies before are unchanged
    have hold : pre.map (fun w => if w.1 = b.1 then new else ds w.1) = pre.map fun w => ds w.1 :=
      List.map_congr_left fun w hw => if_neg (hpre w hw)
    rw [List.flatMap_append, List.flatMap_singleton, if_pos rfl, List.flatMap_def, hold,
      ← List.flatMap_def]
    exact h.fresh.append hnew

/-- **The third pass scopes all bodies.** -/
theorem resolveBodies_lowers (h : s.Signed d u bodies) (hread : s.Readied d u bodies classes) :
    Gives (resolveBodies d bodies) s (fun _ s' => ∃ s₁ Ns ds,
      BodiesLowered s s₁ d u bodies bodies Ns ds ∧ s' = s₁.within none) := by
  unfold resolveBodies
  have run := Leads.forM (l := bodies) (s := s)
    (f := fun (b : MethodId × MethodDecl) => resolveBody d b.1 b.2) (E := fun _ => True)
    (fun pre s' => ∃ Ns ds, BodiesLowered s s' d u bodies pre Ns ds) ?_ ?_
  · refine run.seq ?_
    rintro _ s₁ ⟨Ns, ds, h₁⟩
    exact Leads.modify ⟨s₁, Ns, ds, h₁, rfl⟩
  · exact ⟨[], fun _ => [], hread.bodiesRead h, nofun, .nil (.refl s)⟩
  · rintro pre b post s₁ hl ⟨Ns, ds, h₁⟩
    obtain ⟨hpre, hrest⟩ := distinct_split (List.pairwise_map.1 h.distinct) hl
    have hb : b ∈ bodies := by rw [hl]; simp
    refine ((resolveBody_mirrors h hread h₁.read hb hpre hrest).leads.and
      (resolveBody_lowers h hread h₁.read hb fun hmem => hpre b hmem rfl)).gives ?_
    rintro _ s' ⟨⟨N, -, hN⟩, g, j, new, hadd, hg, hnew⟩
    exact ⟨_, _, h₁.step hpre hN hadd hg hnew⟩

/-- After the last body the program is scoped as its unit. -/
theorem BodiesLowered.loweredUnit {ds : MethodId → List Declaration} (h₀ : s.Signed d u bodies)
    (hread : s.Readied d u bodies classes) (h : BodiesLowered s s₁ d u bodies bodies Ns ds) :
    s₁.program.LoweredUnit s₁.registry d u ds := by
  have hx := h.read.kept
  have hs := h.read.bodied.sound
  have hdeclared : s₁.program.declared = bodies.map Prod.fst := hx.declared.trans hread.declared
  have htabled : s.Tabled := ⟨hread.members, hread.functions⟩
  refine ⟨?_, ?_, ?_⟩
  · have hdistinct := h.fresh.distinct
    rw [List.map_flatMap] at hdistinct
    rw [hdeclared, List.flatMap_map]
    exact hdistinct
  · intro l hl w hw
    rw [hdeclared] at hl
    obtain ⟨b, hb, rfl⟩ := List.mem_map.1 hl
    exact h.fresh.entered w (List.mem_flatMap.2 ⟨b, hb, hw⟩)
  · intro owner m hm
    obtain ⟨l, hl, g, j, hr⟩ := h₀.all owner m hm
    obtain ⟨-, body, hbody, -⟩ := h.read.bodied.done (l, m) hl owner g j hr
    obtain ⟨g', hg'⟩ := h.lowered (l, m) hl
    -- the method is the one that was ready, with its body
    have heq : g' = { g with body := body } := Option.some.inj (hg'.method.symm.trans hbody)
    subst heq
    have hname := (hr.owned.mono h.read.bodied.grows).name_eq
    have hreads := (hread.published.mono hx h₀.sound hs).reads h.read.bodied.represents hs
      (htabled.mono hx h₀.sound) g.owner
    rw [hname] at hreads
    exact ⟨l, hdeclared ▸ List.mem_map_of_mem hl, { g with body := body }, hr.name, hname,
      ⟨hreads.fields, hreads.methods, hreads.functions⟩, hg'⟩

end Resolver

/-! ## Units -/

namespace CompilationUnit

variable {d : Dialect} {u : CompilationUnit}

theorem resolveUnit_lowers (d : Dialect) (u : CompilationUnit) {s₀ : Resolver} (h₀ : s₀ = .initial) :
    Gives (resolveUnit d u) s₀ (fun _ s => ∃ ds, s.program.LoweredUnit s.registry d u ds) := by
  rw [resolveUnit_eq]
  refine (readSignatures_reads d u h₀).seq ?_
  rintro bodies s₃ ⟨classes, -, hsigned, hread⟩
  refine (resolveBodies_lowers hsigned hread).post ?_
  rintro _ _ ⟨s₄, Ns, ds, h₄, rfl⟩
  have hunit := h₄.loweredUnit hsigned hread
  exact ⟨ds, hunit⟩

/-- **Names are lexically scoped.** In a unit that is resolved, each bare name in a body has become
what the blocks around it say, from the inside out and as far as they have been read, or else the
arguments, the fields and the methods of the class, and the functions, in this order. Each declaration
has a variable of its own, so that none in a block beside, in a later statement or in another body is
ever meant. -/
theorem resolve_scoped {r : Registry} {p : Program} (h : u.resolve d = .ok (r, p)) :
    ∃ ds, p.LoweredUnit r d u ds :=
  yields_of_leads (P := fun r p => ∃ ds, p.LoweredUnit r d u ds)
    (fun _ h₀ => resolveUnit_lowers d u h₀) h

end CompilationUnit

/-- A local variable hides a field in its own block, but neither in its value nor in the block beside:
```
two(): Integer do return 2; end
class A
  x: Integer;
  g(): Integer do return x; end
  f(n: Integer): Integer do
    do
      var x: Integer := x;
      x := n;
    end
    do
      x := g;
    end
    return two;
  end
end
``` -/
def Shadow.unit : CompilationUnit :=
  let sp := Span.nowhere
  let integer := TypeName.named "Integer" sp
  ⟨[.ofFunction ⟨"two", [], some integer, some (.mk [.ret (some (.number 2 sp)) sp] sp), sp⟩,
    .ofClass ⟨"A",
      [.field ⟨"x", integer, sp⟩,
       .method ⟨"g", [], some integer, some (.mk [.ret (some (.symbol "x" sp)) sp] sp), sp⟩,
       .method ⟨"f", [⟨"n", integer, sp⟩], some integer,
        some (.mk
          [.nested (.mk [.varDecl "x" integer (some (.symbol "x" sp)) sp,
            .assignment (.symbol "x" sp) (.symbol "n" sp) sp] sp),
           .nested (.mk [.assignment (.symbol "x" sp) (.symbol "g" sp) sp] sp),
           .ret (some (.symbol "two" sp)) sp] sp), sp⟩], sp⟩], sp⟩

set_option maxRecDepth 100000 in
theorem Shadow.resolve_isOk : (Shadow.unit.resolve .standard).isOk = true := by
  decide +kernel

theorem Shadow.names_are_scoped : ∃ r p ds, Shadow.unit.resolve .standard = .ok (r, p) ∧
    p.LoweredUnit r .standard Shadow.unit ds := by
  obtain ⟨⟨r, p⟩, h⟩ := exists_ok Shadow.resolve_isOk
  obtain ⟨ds, hds⟩ := CompilationUnit.resolve_scoped h
  exact ⟨r, p, ds, h, hds⟩

end ClassLang
