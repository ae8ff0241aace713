import ClassLang.Proofs.CorrespondenceStmt

/-!
# The bodies of a program are those of its unit

* `MethodDecl.becomes_of_method?`: the body of a method that reads as it is elaborated is what the
  written body becomes.
* `Program.Faithful`: every body of a program is what one declared body becomes, and every declared
  body has become one.
* `resolveBody_bodies`, `resolveBodies_elaborates`: one body, and all of them in turn.
* `CompilationUnit.resolve_faithful`: so it is with every unit that is resolved.
-/

namespace ClassLang

open Resolver Resolve

/-! ## Methods -/

/-- The receiver is bound as `this`, and each argument under its own name. -/
theorem MethodDecl.names_ownNames {I : Interface} {owner : Option String} {m : MethodDecl}
    {N : NamedMethod} (h : m.elaborateSignature I owner = .ok N) :
    Env.OwnNames [MethodDecl.names N] := by
  obtain ⟨ys, hys, h⟩ := exists_of_bind_eq_ok h
  obtain ⟨T, -, ⟨⟩⟩ := exists_of_bind_eq_ok h
  intro names hnames q hq
  cases List.mem_singleton.1 hnames
  rcases List.mem_append.1 hq with hq | hq
  · obtain ⟨v, hv, rfl⟩ := List.mem_map.1 hq
    obtain ⟨c, -, rfl⟩ := Option.map_eq_some_iff.1 (Option.mem_toList.1 hv)
    exact ⟨rfl, fun _ => rfl⟩
  · obtain ⟨y, hy, rfl⟩ := List.mem_map.1 hq
    have hrole := List.mem_map_of_mem (f := fun y : NamedVariable => (y.name, y.role)) hy
    rw [ArgumentDecl.inTurn_roles hys] at hrole
    obtain ⟨a, -, heq⟩ := List.mem_map.1 hrole
    refine ⟨rfl, fun hr => ?_⟩
    rw [hr] at heq
    exact absurd (Prod.mk.inj heq).2 nofun

/-- **The body of a method** that reads as it is elaborated is what the written body becomes. -/
theorem MethodDecl.becomes_of_method? {s : Resolver} {d : Dialect} {u : CompilationUnit}
    {owner : Option String} {m : MethodDecl} {N : NamedMethod} {l : MethodId} {g : Method}
    {ds : List Declaration} {block : Block} (hs : s.Sound)
    (hN : m.elaborate (u.interface d) owner = .ok N) (hl : s.method? l = some N)
    (hlowered : s.program.LoweredMethod m l g ds)
    (hentered : ∀ w ∈ ds, ∃ ty, s.program.Enters w ty) (hm : m.body = some block) :
    ∃ b, g.body = some b ∧ block.Becomes s.registry s.program d u b ds := by
  obtain ⟨body, span⟩ := block
  obtain ⟨N₀, hN₀, hN⟩ := exists_of_bind_eq_ok hN
  obtain ⟨B, hB, ⟨⟩⟩ := exists_of_bind_eq_ok hN
  unfold elaborateBody at hB
  rw [hm] at hB
  obtain ⟨Ss, hSs, ⟨⟩⟩ := exists_of_bind_eq_ok hB
  have hbody := hlowered.body
  rw [hm] at hbody
  -- the body that is stored reads as it was elaborated
  obtain ⟨g', hg', -, -, -, -, -, -, hread⟩ := method?_eq_some_iff.1 hl
  cases Option.some.inj (hg'.symm.trans hlowered.method)
  revert hread
  cases hb : g.body with
  | none => rw [hb] at hbody; cases hbody
  | some b =>
    intro hread
    rw [hb] at hbody
    cases hbody with
    | some hts =>
      obtain ⟨Ss', hSs', ⟨⟩⟩ := Option.bind_eq_some_iff.1 (Option.some.inj hread)
      exact ⟨_, rfl, .mk (Stmt.becomesAll_of_named? body hs rfl (names_ownNames hN₀) hts hentered
        hSs hSs')⟩

/-- What two lists of answers say of one element. -/
theorem exists_of_map_eq {ε α β : Type} {l : List α} {ys : List β} {f : α → Except ε β}
    {k : α → Option β} {a : α} (hf : l.map f = ys.map .ok) (hk : l.map k = ys.map some)
    (ha : a ∈ l) : ∃ y, f a = .ok y ∧ k a = some y := by
  induction l generalizing ys with
  | nil => cases ha
  | cons b l ih =>
    cases ys with
    | nil => cases hf
    | cons y ys =>
      rw [List.map_cons, List.map_cons, List.cons.injEq] at hf hk
      rcases List.mem_cons.1 ha with rfl | ha
      · exact ⟨y, hf.1, hk.1⟩
      · exact ih hf.2 hk.2 ha

/-! ## All bodies -/

/-- **The method `l` has the body of `m`**: it has the name of `m` in its class, and its body `b` is
what the body of `m` becomes, with the declarations `ds`. -/
def Program.Carries (p : Program) (r : Registry) (d : Dialect) (u : CompilationUnit)
    (owner : Option ClassDecl) (m : MethodDecl) (l : MethodId) (b : TypedBlock)
    (ds : List Declaration) : Prop :=
  ∃ g block, p.methodAt? l = some g ∧ g.body = some b ∧ m.body = some block ∧ g.name = m.name ∧
    (g.owner.bind p.classAt?).map ClassInfo.name = owner.map ClassDecl.name ∧
    block.Becomes r p d u b ds

/-- **The bodies of a program are those of its unit**: every body comes from a declared method,
every declared method that has a body has got it, and no two declarations in bodies, `ds` for the
methods, share a variable. -/
structure Program.Faithful (p : Program) (r : Registry) (d : Dialect) (u : CompilationUnit)
    (ds : MethodId → List Declaration) : Prop where
  distinct : (p.declared.flatMap fun l => (ds l).map Declaration.id).Nodup
  bodies : ∀ l g b, p.methodAt? l = some g → g.body = some b → l ∈ p.declared ∧
    ∃ owner m, u.Declares owner m ∧ p.Carries r d u owner m l b (ds l)
  written : ∀ owner m, u.Declares owner m → m.body.isSome →
    ∃ l ∈ p.declared, ∃ b, p.Carries r d u owner m l b (ds l)

namespace Resolver

variable {s s₁ s' : Resolver} {d : Dialect} {u : CompilationUnit} {classes : List NamedClass}
  {bodies pre : List (MethodId × MethodDecl)} {b : MethodId × MethodDecl} {Ns : List NamedMethod}
  {ds : MethodId → List Declaration}

/-- Only the method that is resolved gets a body. -/
theorem resolveBody_bodies (h₀ : s.Signed d u bodies) (hread : s.Readied d u bodies classes)
    (h : BodiesRead s s₁ d u bodies pre Ns) (hb : b ∈ bodies) (hnot : b ∉ pre) :
    Gives (resolveBody d b.1 b.2) s₁ (fun _ s' => ∀ l g, s'.program.methodAt? l = some g →
      g.body.isSome → l = b.1 ∨ ∃ g₀, s₁.program.methodAt? l = some g₀ ∧ g₀.body.isSome) := by
  obtain ⟨x, g, j, bs, rfl, hg, hj, -, -, hin⟩ := h.inside h₀ hread hb hnot
  refine resolveBody_seq hg hj (fun _ l g hg hsome => .inr ⟨g, hg, hsome⟩) fun body span _ => ?_
  refine (Stmt.resolveAll_leads body hin.setting).gives (fun ts s₂ hres => ?_)
  have hg₂ : s₂.program.methodAt? b.1 = some g := hres.frame.keepsMethod hg
  refine ⟨hg₂, fun l g' hg' hsome => ?_⟩
  by_cases hl : l = b.1
  · exact .inl hl
  -- another method is as it was before the body was stored, and statements store none
  · have hg'' := (methodAt?_setBody hg₂ _ l).symm.trans hg'
    rw [if_neg hl] at hg''
    rcases hres.frame.noBody l g' hg'' with hnone | ⟨g₀, hg₀, heq⟩
    · rw [hnone] at hsome
      cases hsome
    · exact .inr ⟨g₀, hg₀, heq ▸ hsome⟩

/-- **The third pass is under way**: since `s`, the bodies of `pre` have become what scoping says,
they read as they are elaborated, and there are no others. -/
structure BodiesElaborated (s s' : Resolver) (d : Dialect) (u : CompilationUnit)
    (bodies pre : List (MethodId × MethodDecl)) (Ns : List NamedMethod)
    (ds : MethodId → List Declaration) : Prop where
  lowered : BodiesLowered s s' d u bodies pre Ns ds
  elaborated : pre.map (fun b => b.2.elaborate (u.interface d) (s.entry b).1) = Ns.map .ok
  only : ∀ l g, s'.program.methodAt? l = some g → g.body.isSome → l ∈ pre.map Prod.fst

/-- **The third pass elaborates all bodies.** -/
theorem resolveBodies_elaborates (h : s.Signed d u bodies) (hread : s.Readied d u bodies classes) :
    Gives (resolveBodies d bodies) s (fun _ s' => ∃ s₁ Ns ds,
      BodiesElaborated s s₁ d u bodies bodies Ns ds ∧ s' = s₁.within none) := by
  unfold resolveBodies
  have run := Leads.forM (l := bodies) (s := s)
    (f := fun (b : MethodId × MethodDecl) => resolveBody d b.1 b.2) (E := fun _ => True)
    (fun pre s' => ∃ Ns ds, BodiesElaborated s s' d u bodies pre Ns ds) ?_ ?_
  · refine run.seq ?_
    rintro _ s₁ ⟨Ns, ds, h₁⟩
    exact Leads.modify ⟨s₁, Ns, ds, h₁, rfl⟩
  -- before the first body there is none: signatures store nothing
  · refine ⟨[], fun _ => [], ⟨hread.bodiesRead h, nofun, .nil (.refl s)⟩, rfl,
      fun l g hg hsome => ?_⟩
    rw [h.bodyless l g hg] at hsome
    cases hsome
  · rintro pre b post s₁ hl ⟨Ns, ds, h₁⟩
    obtain ⟨hpre, hrest⟩ := distinct_split (List.pairwise_map.1 h.distinct) hl
    have hb : b ∈ bodies := by rw [hl]; simp
    have hnot : b ∉ pre := fun hmem => hpre b hmem rfl
    have hread₁ := h₁.lowered.read
    -- one run of the step has to give all three: how it reads, its scopes and who has a body
    refine ((resolveBody_mirrors h hread hread₁ hb hpre hrest).leads.and
      ((resolveBody_lowers h hread hread₁ hb hnot).and
        (resolveBody_bodies h hread hread₁ hb hnot))).gives ?_
    rintro _ s' ⟨⟨N, hN, hNs⟩, ⟨g, j, new, hadd, hg, hnew⟩, honly⟩
    refine ⟨_, _, h₁.lowered.step hpre hNs hadd hg hnew, ?_, fun l g hg hsome => ?_⟩
    · rw [List.map_append, List.map_append, h₁.elaborated, List.map_singleton, hN]
      rfl
    · rw [List.map_append, List.mem_append]
      rcases honly l g hg hsome with rfl | ⟨g₀, hg₀, hsome₀⟩
      · exact .inr (List.mem_singleton_self _)
      · exact .inl (h₁.only l g₀ hg₀ hsome₀)

/-- A method that was ready has got what its body becomes. -/
theorem BodiesElaborated.carries {owner : Option ClassDecl} {g : Method} {j : ScopeId}
    (h : BodiesElaborated s s₁ d u bodies bodies Ns ds) (hb : b ∈ bodies)
    (hr : s.Ready d u owner b.1 b.2 g j) (hbody : b.2.body.isSome) :
    ∃ bd, s₁.program.Carries s₁.registry d u owner b.2 b.1 bd (ds b.1) := by
  have hbodied := h.lowered.read.bodied
  obtain ⟨block, hblock⟩ := Option.isSome_iff_exists.1 hbody
  obtain ⟨N, hN, hread⟩ := exists_of_map_eq h.elaborated h.lowered.read.done hb
  obtain ⟨g', hg'⟩ := h.lowered.lowered b hb
  obtain ⟨bd, hbd, hbecomes⟩ := MethodDecl.becomes_of_method? hbodied.sound hN hread hg'
    (fun w hw => h.lowered.fresh.entered w (List.mem_flatMap.2 ⟨b, hb, hw⟩)) hblock
  -- the method is the one that was ready, with its body
  obtain ⟨-, body, hm, -⟩ := hbodied.done b hb owner g j hr
  cases Option.some.inj (hm.symm.trans hg'.method)
  exact ⟨bd, _, block, hm, hbd, hblock, hr.name, (hr.owned.mono hbodied.grows).name_eq, hbecomes⟩

/-- After the last body the bodies are those of the unit. -/
theorem BodiesElaborated.faithful (h₀ : s.Signed d u bodies) (hread : s.Readied d u bodies classes)
    (h : BodiesElaborated s s₁ d u bodies bodies Ns ds) :
    s₁.program.Faithful s₁.registry d u ds := by
  have hdeclared : s₁.program.declared = bodies.map Prod.fst :=
    h.lowered.read.kept.declared.trans hread.declared
  refine ⟨(h.lowered.loweredUnit h₀ hread).distinct, fun l g bd hg hbd => ?_, ?_⟩
  · have hl := h.only l g hg (by rw [hbd]; rfl)
    obtain ⟨b, hb, rfl⟩ := List.mem_map.1 hl
    obtain ⟨owner, g₀, j, hdecl, hr⟩ := h₀.ready b hb
    obtain ⟨-, body, hm, hsome⟩ := h.lowered.read.bodied.done b hb owner g₀ j hr
    cases Option.some.inj (hm.symm.trans hg)
    -- only a method with a body in the source gets one
    obtain ⟨bd', hcarries⟩ := h.carries hb hr (hsome.symm.trans (congrArg Option.isSome hbd))
    have heq : bd' = bd := by
      obtain ⟨g', -, hg', hbd', -⟩ := hcarries
      cases Option.some.inj (hg'.symm.trans hg)
      exact Option.some.inj (hbd'.symm.trans hbd)
    exact ⟨hdeclared ▸ hl, owner, b.2, hdecl, heq ▸ hcarries⟩
  · intro owner m hm hbody
    obtain ⟨l, hl, g, j, hr⟩ := h₀.all owner m hm
    exact ⟨l, hdeclared ▸ List.mem_map_of_mem hl, h.carries hl hr hbody⟩

end Resolver

/-! ## Units -/

namespace CompilationUnit

variable {d : Dialect} {u : CompilationUnit}

theorem resolveUnit_faithful (d : Dialect) (u : CompilationUnit) {s₀ : Resolver}
    (h₀ : s₀ = .initial) : Gives (resolveUnit d u) s₀
      (fun _ s => ∃ ds, s.program.Faithful s.registry d u ds) := by
  rw [resolveUnit_eq]
  refine (readSignatures_reads d u h₀).seq ?_
  rintro bodies s₃ ⟨classes, -, hsigned, hread⟩
  refine (resolveBodies_elaborates hsigned hread).post ?_
  rintro _ _ ⟨s₄, Ns, ds, h₄, rfl⟩
  have hfaithful := h₄.faithful hsigned hread
  exact ⟨ds, hfaithful⟩

/-- **Bodies are resolved node by node.** In a unit that is resolved, each written body has become
one body, and there are no others. Its statements stand in their order, its expressions have their
parts in their order, and each name has become something of that name. All that is added are the
conversions of arguments, right operands, sizes and indices, the receiver of a bare name, and the
empty block in place of a missing `else`. All that leaves nothing is a variable without a value,
which has been entered. -/
theorem resolve_faithful {r : Registry} {p : Program} (h : u.resolve d = .ok (r, p)) :
    ∃ ds, p.Faithful r d u ds :=
  yields_of_leads (P := fun r p => ∃ ds, p.Faithful r d u ds)
    (fun _ h₀ => resolveUnit_faithful d u h₀) h

end CompilationUnit

/-- Each kind of expression and of statement, and conversions of an argument, a right operand, a
size and an index:
```
limit(): Integer do return 8; end
class Meter
  level: Integer;
  marks: Integer[];
  low(n: Int16): Boolean do return n < 3; end
  read(): Integer do return level; end
  run(k: Int8): Integer do
    var i: Integer;
    var on: Boolean := not low(k);
    var at: Integer* := &i;
    i := -1;
    marks := new Integer[k];
    if on then
      marks[k] := read + limit();
    else
      this.level := this.read;
    end
    if i < limit then
      i := this.read();
    end
    while on do
      do read; end
      on := false;
    end
    return k as Integer;
  end
end
``` -/
def Meter.unit : CompilationUnit :=
  let sp := Span.nowhere
  let integer := TypeName.named "Integer" sp
  let boolean := TypeName.named "Boolean" sp
  let name (n : String) := Expr.symbol n sp
  let result (e : Expr) : Block := .mk [.ret (some e) sp] sp
  ⟨[.ofFunction ⟨"limit", [], some integer, some (result (.number 8 sp)), sp⟩,
    .ofClass ⟨"Meter",
      [.field ⟨"level", integer, sp⟩, .field ⟨"marks", .array integer sp, sp⟩,
       .method ⟨"low", [⟨"n", .named "Int16" sp, sp⟩], some boolean,
        some (result (.binary .less (name "n") (.number 3 sp) sp)), sp⟩,
       .method ⟨"read", [], some integer, some (result (name "level")), sp⟩,
       .method ⟨"run", [⟨"k", .named "Int8" sp, sp⟩], some integer,
        some (.mk
          [.varDecl "i" integer none sp,
           .varDecl "on" boolean (some (.unary .not (.call "low" [name "k"] sp) sp)) sp,
           .varDecl "at" (.pointer integer sp) (some (.addressOf (name "i") sp)) sp,
           .assignment (name "i") (.unary .negate (.number 1 sp) sp) sp,
           .assignment (name "marks") (.arrayNew integer (name "k") sp) sp,
           .ifElse (name "on")
            (.mk [.assignment (.index (name "marks") (name "k") sp)
              (.binary .add (name "read") (.call "limit" [] sp) sp) sp] sp)
            (.mk [.assignment (.member (.this sp) "level" sp) (.member (name "this") "read" sp)
              sp] sp) sp,
           .ifThen (.binary .less (name "i") (name "limit") sp)
            (.mk [.assignment (name "i") (.send (.this sp) "read" [] sp) sp] sp) sp,
           .whileDo (name "on")
            (.mk [.nested (.mk [.expression (name "read") sp] sp),
              .assignment (name "on") (.boolean false sp) sp] sp) sp,
           .ret (some (.cast (name "k") integer sp)) sp] sp), sp⟩], sp⟩], sp⟩

set_option maxRecDepth 100000 in
theorem Meter.resolve_isOk : (Meter.unit.resolve .standard).isOk = true := by
  decide +kernel

theorem Meter.bodies_are_faithful : ∃ r p ds, Meter.unit.resolve .standard = .ok (r, p) ∧
    p.Faithful r .standard Meter.unit ds := by
  obtain ⟨⟨r, p⟩, h⟩ := exists_ok Meter.resolve_isOk
  obtain ⟨ds, hds⟩ := CompilationUnit.resolve_faithful h
  exact ⟨r, p, ds, h, hds⟩

end ClassLang
