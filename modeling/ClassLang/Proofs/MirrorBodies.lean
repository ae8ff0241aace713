import ClassLang.Proofs.BodyPass
import ClassLang.Proofs.MirrorDeclarations

/-!
# Resolution mirrors elaboration

The third pass resolves the bodies in the order in which they are elaborated, and what has been
resolved of the others makes no difference to a body (`resolveBody_mirrors`).

`CompilationUnit.resolve_agrees`: once the names of a unit are distinct, resolution and elaboration
find the same first fault, or what resolution gives is, without its numbers, what elaboration gives.
-/

namespace ClassLang

open Resolver Resolve

namespace Resolver

variable {s s₁ s' : Resolver} {d : Dialect} {u : CompilationUnit} {l : MethodId} {g : Method}
  {j : ScopeId} {N : NamedMethod} {bodies pre : List (MethodId × MethodDecl)}
  {Ns : List NamedMethod} {classes : List NamedClass} {m : MethodDecl} {b : MethodId × MethodDecl}

/-! ## Reading methods and classes back -/

/-- A method that has got a body is read back with it. -/
theorem Presents.method? {b : Option TypedBlock} {B : Option NamedBlock} (h : s.Presents m l g j N)
    (hx : s.Extends s') (hs : s.Sound) (hs' : s'.Sound)
    (hm : s'.program.methodAt? l = some { g with body := b })
    (hb : b.map (fun b => b.named? s') = B.map some) :
    s'.method? l = some { N with body := B } := by
  have hk := hx.callee? hs hs' h.callee
  refine method?_eq_some_iff.2 ⟨_, hm, hk, hx.grows.map_namedVar? hs hs' h.arguments,
    hx.grows.optionMap_namedVar? hs hs' h.receiver, h.external, h.span, ?_, hb⟩
  rw [hs'.linkageName_eq hm hk]
  show Except.ok (N.method.linkage g.isExternal) = .ok N.linkage
  rw [h.linkage, h.external]

/-- A method that is left alone is read back as before. -/
theorem Extends.method? (hx : s.Extends s') (hs : s.Sound) (hs' : s'.Sound)
    (hm : ∀ g, s.program.methodAt? l = some g → s'.program.methodAt? l = some g)
    (h : s.method? l = some N) : s'.method? l = some N := by
  obtain ⟨g, hg, hk, hargs, hr, hext, hspan, hlink, hb⟩ := method?_eq_some_iff.1 h
  have hk' := hx.callee? hs hs' hk
  refine method?_eq_some_iff.2 ⟨g, hm g hg, hk', hx.grows.map_namedVar? hs hs' hargs,
    hx.grows.optionMap_namedVar? hs hs' hr, hext, hspan, ?_, ?_⟩
  · rw [hs'.linkageName_eq (hm g hg) hk', ← hs.linkageName_eq hg hk, hlink]
  · rw [← optionMapM_eq_some_iff] at hb ⊢
    exact optionMapM_mono (fun b _ _ hb => b.named?_mono (hx.preserves hs hs') hb) hb

/-- A class is read back as before. -/
theorem Extends.class? {c : ClassId} {N : NamedClass} (hx : s.Extends s') (hs : s.Sound)
    (hs' : s'.Sound) (h : s.class? c = some N) : s'.class? c = some N := by
  obtain ⟨i, hi, hn, hsp, hys⟩ := class?_eq_some_iff.1 h
  exact class?_eq_some_iff.2 ⟨i, hx.classes c i hi, hn, hsp, hx.grows.map_namedVar? hs hs' hys⟩

theorem Extends.classAt?_eq (hx : s.Extends s') (c : ClassId) :
    s'.program.classAt? c = s.program.classAt? c := by
  cases hi : s.program.classAt? c with
  | some i => exact hx.classes c i hi
  | none =>
    unfold Program.classAt? at hi ⊢
    rw [Array.getElem?_eq_none_iff] at hi ⊢
    rw [hx.noClass]
    exact hi

/-- The same methods are declared. -/
theorem Extends.declared (hx : s.Extends s') : s'.program.declared = s.program.declared := by
  unfold Program.declared
  rw [hx.tables.1, hx.tables.2]
  simp only [hx.classAt?_eq]

/-! ## Entering a body -/

/-- The names a body starts with, by number and by name. -/
theorem Presents.shows (h : s.Presents m l g j N) : s.Shows [m.locals g] [MethodDecl.names N] := by
  have hreceiver : (g.receiver.toList.map fun v => ("this", v)).map
      (fun q => (q.1, s.namedVar? q.2)) =
      (N.receiver.toList.map fun v => ("this", v)).map fun q => (q.1, some q.2) := by
    have hr := h.receiver
    cases hg : g.receiver <;> cases hN : N.receiver <;> rw [hg, hN] at hr
    · rfl
    · cases hr
    · cases hr
    · have hv := Option.some.inj hr
      simp only [Option.toList_some, List.map_cons, List.map_nil, hv]
  have harguments : ((m.arguments.map ArgumentDecl.name).zip g.arguments).map
      (fun q => (q.1, s.namedVar? q.2)) =
      (N.arguments.map fun v => (v.name, v)).map fun q => (q.1, some q.2) := by
    have hzip : ((m.arguments.map ArgumentDecl.name).zip g.arguments).map
        (fun q => (q.1, s.namedVar? q.2)) =
        (m.arguments.map ArgumentDecl.name).zip (g.arguments.map s.namedVar?) := by
      rw [List.zip_map_right]; rfl
    rw [hzip, h.arguments, ← h.names, List.zip_map', List.map_map]
    rfl
  unfold Shows MethodDecl.locals MethodDecl.names
  rw [List.map_singleton, List.map_singleton, List.map_append, List.map_append, hreceiver,
    harguments]

/-- **What surrounds the body** of a method that is ready and readable. -/
theorem Ready.stage {owner : Option ClassDecl} {g' : Method} {j' : ScopeId}
    (hr : s.Ready d u owner l m g j) (hp : s.Presents m l g' j' N) (hs : s.Sound)
    (hR : s.Represents d u) (hpub : s.Published d u) :
    g' = g ∧ j' = j ∧ (s.within (some l)).Nested g.owner j [m.locals g] ∧
      ∃ bs, (s.within (some l)).Stage ⟨d, u, owner, N.result⟩ g (s.program.receiverType? g) j [bs]
        [MethodDecl.names N] := by
  have hg : g' = g := Option.some.inj (hp.method.symm.trans hr.method)
  subst hg
  have hj : j' = j := Option.some.inj (hp.scope.symm.trans hr.scope)
  subst hj
  obtain ⟨sig, hsig, hset⟩ := hr.setting hs hR
  -- the state and the interface agree on what the method gives
  have hresult : sig.result = N.result := by
    obtain ⟨-, sig', -, hsig', hof, -⟩ := hr.signature
    rw [hsig] at hsig'
    cases hsig'
    obtain ⟨-, -, -, -, hof'⟩ := callee?_eq_some_iff.1 hp.callee
    rw [hof] at hof'
    cases hof'; rfl
  rw [hresult] at hset
  obtain ⟨sc, hsc, htable⟩ := hp.table
  obtain ⟨sc', p, hsc', hblock, hpar, hhome⟩ := (hs.methods l g' hr.method).scope j' hr.scope
  rw [hsc] at hsc'
  cases hsc'
  have hx := Extends.within s (some l)
  have hnested : (s.within (some l)).Nested g'.owner j' [m.locals g'] :=
    .block hsc hblock hpar htable (.home (hhome.mono hx.grows))
  exact ⟨rfl, rfl, hnested, _, hset, hpub.mono hx hs (hs.within (some l)), _, hnested, hp.shows⟩

/-! ## The bodies in turn -/

/-- Since `s`, the method `l` with the scope `j` has got its body. -/
structure BodyAdded (s s' : Resolver) (l : MethodId) (j : ScopeId) : Prop where
  kept : s.Extends s'
  methods : ∀ k g, s.program.methodAt? k = some g → k ≠ l → s'.program.methodAt? k = some g
  scopes : ∀ k sc, s.program.scopeAt? k = some sc → k ≠ j → s'.program.scopeAt? k = some sc

theorem BodyAdded.refl (s : Resolver) (l : MethodId) (j : ScopeId) : s.BodyAdded s l j where
  kept := .refl s
  methods _ _ hg _ := hg
  scopes _ _ hsc _ := hsc

/-- Statements in the scope of a method, and then the body. -/
theorem BodyAdded.setBody {sc : Scope} (hsc : s.program.scopeAt? j = some sc)
    (hblock : sc.kind = .block) (hf : Frame (s.within (some l)) s' none none (some j))
    (hg : s'.program.methodAt? l = some g) (b : TypedBlock) :
    s.BodyAdded (s'.setBody l g b) l j where
  kept := by
    have hx : (s.within (some l)).Extends s' := hf.extends_of_block hsc hblock
    exact ((Extends.within s (some l)).trans hx).trans (Extends.setBody hg b)
  methods k g' hg' hk :=
    (methodAt?_setBody hg b k).trans ((if_neg hk).trans (hf.keepsMethod hg'))
  scopes k sc' hsc' hk := hf.sameScopes k sc' hsc' fun heq => hk (Option.some.inj heq).symm

/-- **The third pass is under way**: since `s`, the bodies of `pre` have been resolved, and these
methods read `Ns`; the others are still readable without their bodies. -/
structure BodiesRead (s s' : Resolver) (d : Dialect) (u : CompilationUnit)
    (bodies pre : List (MethodId × MethodDecl)) (Ns : List NamedMethod) : Prop where
  bodied : Bodied s s' d u bodies pre
  kept : s.Extends s'
  waiting : ∀ b ∈ bodies, b ∉ pre → s'.Readable d u (s.entry b).1 b
  done : pre.map (fun b => s'.method? b.1) = Ns.map some

/-- One body more. -/
theorem BodiesRead.step (h : BodiesRead s s₁ d u bodies pre Ns) (hpre : ∀ w ∈ pre, w.1 ≠ b.1)
    (hrest : ∀ w ∈ bodies, w ≠ b → w.1 ≠ b.1) (hg : s₁.program.methodAt? b.1 = some g)
    (hj : g.scope = some j) (hadd : s₁.BodyAdded s' b.1 j)
    (hbodied : Bodied s s' d u bodies (pre ++ [b])) (hN : s'.method? b.1 = some N) :
    BodiesRead s s' d u bodies (pre ++ [b]) (Ns ++ [N]) where
  bodied := hbodied
  kept := h.kept.trans hadd.kept
  waiting w hw hnot := by
    have hwb : w.1 ≠ b.1 := hrest w hw fun heq => hnot (by rw [heq]; simp)
    obtain ⟨g', j', N', hN', hp⟩ := h.waiting w hw fun hmem => hnot (List.mem_append_left _ hmem)
    refine ⟨g', j', N', hN', hp.mono hadd.kept.grows h.bodied.sound hbodied.sound
      (hadd.methods _ _ hp.method hwb) fun sc hsc => hadd.scopes j' sc hsc fun heq => hwb ?_⟩
    -- no two methods share a scope
    subst heq
    exact h.bodied.sound.own w.1 b.1 g' g j' hp.method hg hp.scope hj
  done := by
    have hold : pre.map (fun b => s'.method? b.1) = Ns.map some :=
      map_eq_map_some_mono (fun w hw _ hM => hadd.kept.method? h.bodied.sound hbodied.sound
        (fun g' hg' => hadd.methods _ g' hg' (hpre w hw)) hM) h.done
    rw [List.map_append, List.map_append, hold, List.map_singleton, hN]
    rfl

/-- A method that waits for its body is ready and readable. -/
theorem BodiesRead.stage (h₀ : s.Signed d u bodies) (hread : s.Readied d u bodies classes)
    (h : BodiesRead s s₁ d u bodies pre Ns) (hb : b ∈ bodies) (hnot : b ∉ pre) :
    ∃ owner g j N, u.Declares owner b.2 ∧
      s₁.Ready d u owner b.1 b.2 g j ∧ s₁.Presents b.2 b.1 g j N ∧
      (s.entry b).1 = owner.map ClassDecl.name ∧
      b.2.elaborateSignature (u.interface d) (owner.map ClassDecl.name) = .ok N ∧
      (s₁.within (some b.1)).Nested g.owner j [b.2.locals g] ∧
      ∃ bs, (s₁.within (some b.1)).Stage ⟨d, u, owner, N.result⟩ g (s₁.program.receiverType? g) j
        [bs] [MethodDecl.names N] := by
  obtain ⟨owner, g, j, hdecl, hr⟩ := h₀.ready b hb
  have hr₁ := h.bodied.waiting b hb hnot owner g j hr
  obtain ⟨g', j', N, hN, hp⟩ := h.waiting b hb hnot
  obtain ⟨rfl, rfl, hnested, hstage⟩ := hr₁.stage hp h.bodied.sound h.bodied.represents
    (hread.published.mono h.kept h₀.sound h.bodied.sound)
  have howner : (s.entry b).1 = owner.map ClassDecl.name := by
    obtain ⟨g'', hg'', ho, -, -⟩ := callee?_eq_some_iff.1 hp.callee
    rw [hp.method] at hg''
    cases hg''
    rw [hr₁.owned.ownerName?, (MethodDecl.elaborateSignature_facts hN).1] at ho
    exact (Option.some.inj ho).symm
  rw [howner] at hN
  exact ⟨owner, g', j', N, hdecl, hr₁, hp, howner, hN, hnested, hstage⟩

/-- **A body is resolved as it is elaborated**, whatever bodies have been resolved before. -/
theorem resolveBody_mirrors (h₀ : s.Signed d u bodies) (hread : s.Readied d u bodies classes)
    (h : BodiesRead s s₁ d u bodies pre Ns) (hb : b ∈ bodies) (hpre : ∀ w ∈ pre, w.1 ≠ b.1)
    (hrest : ∀ w ∈ bodies, w ≠ b → w.1 ≠ b.1) :
    Mirrors (resolveBody d b.1 b.2) s₁
      (fun _ s' N => BodiesRead s s' d u bodies (pre ++ [b]) (Ns ++ [N]))
      (b.2.elaborate (u.interface d) (s.entry b).1) := by
  have hs₁ := h.bodied.sound
  obtain ⟨owner, g, j, N, -, hr, hp, howner, hN, -, bs, hstage⟩ :=
    h.stage h₀ hread hb fun hmem => hpre b hmem rfl
  refine (Mirrors.and ?_ (resolveBody_leads h₀ h.bodied hb hpre hrest)).imp
    (R := fun _ s' M => Bodied s s' d u bodies (pre ++ [b]) ∧ s₁.BodyAdded s' b.1 j ∧
      s'.method? b.1 = some M)
    fun _ s' M hM => h.step hpre hrest hr.method hr.scope hM.2.1 hM.1 hM.2.2
  rw [howner]
  unfold resolveBody MethodDecl.elaborate
  rw [hN]
  show Mirrors _ s₁ _ (b.2.elaborateBody (u.interface d) (owner.map ClassDecl.name) N >>=
    fun B => .ok { N with body := B })
  unfold MethodDecl.elaborateBody
  cases hbody : b.2.body with
  | none =>
    refine Mirrors.pure ⟨.refl s₁ b.1 j, hp.method? (.refl s₁) hs₁ hs₁ hp.method ?_⟩
    rw [hr.body]; rfl
  | some block =>
    obtain ⟨body, span⟩ := block
    refine ask_ok_seq (Program.getMethod_eq hr.method) ?_
    rw [hr.scope]
    show Mirrors (Block.resolve d j (.mk body span) >>= _) (s₁.within (some b.1)) _
      ((Stmt.elaborateAll _ _ _ _ >>= fun ts => .ok (some (NamedBlock.mk ts span))) >>= _)
    rw [Block.resolve]
    -- the statements inside the method, before their tree is stored
    have hblock : Mirrors (Stmt.resolveAll d j body >>= fun ts => pure (TypedBlock.mk ts j span))
        (s₁.within (some b.1)) (fun block s₂ B => (Frame (s₁.within (some b.1)) s₂ none none (some j) ∧
          s₂.Sound) ∧ (some block).map (fun b => b.named? s₂) = B.map some)
        (Stmt.elaborateAll ⟨u.interface d, owner.map ClassDecl.name, N.result⟩ (MethodDecl.names N)
          [] body >>= fun ts => .ok (some (NamedBlock.mk ts span))) := by
      refine (Stmt.resolveAll_mirrors body hstage).seq ?_
      rintro ts s₂ Ts ⟨hres, hTs⟩
      refine Mirrors.pure ⟨⟨hres.frame, hres.sound⟩, congrArg some ?_⟩
      show TypedBlock.named? s₂ (.mk ts j span) = some (.mk Ts span)
      rw [TypedBlock.named?, hTs]
      rfl
    refine hblock.seq ?_
    rintro block s₂ B ⟨⟨hf, hs₂⟩, hB⟩
    have hg₂ : s₂.program.methodAt? b.1 = some g := hf.keepsMethod hr.method
    obtain ⟨sc, p, hsc, hkind, -⟩ := (hs₁.methods b.1 g hr.method).scope j hr.scope
    have hadd := BodyAdded.setBody hsc hkind hf hg₂ block
    have hs' := hs₂.setBody hg₂ block
    -- storing the tree changes nothing else that is read
    refine Mirrors.of_leads (updateMethod_leads hg₂ ⟨hadd, ?_⟩)
    refine hp.method? hadd.kept hs₁ hs' ((methodAt?_setBody hg₂ _ _).trans (if_pos rfl)) ?_
    rw [← optionMapM_eq_some_iff] at hB ⊢
    exact optionMapM_mono (fun b _ _ hb =>
      b.named?_mono ((Extends.setBody hg₂ block).preserves hs₂ hs') hb) hB

/-- Before the first body. -/
theorem Readied.bodiesRead (h : s.Signed d u bodies) (hread : s.Readied d u bodies classes) :
    BodiesRead s s d u bodies [] [] where
  bodied := h.bodied
  kept := .refl s
  waiting b hb _ := hread.readable b hb
  done := rfl

/-- After the last body. -/
theorem BodiesRead.named? (h₀ : s.Signed d u bodies) (hread : s.Readied d u bodies classes)
    (h : BodiesRead s s₁ d u bodies bodies Ns) :
    s₁.program.named? s₁.registry = some ⟨classes, Ns⟩ := by
  have hs' := h.bodied.sound.within none
  have hx := Extends.within s₁ none
  have hclasses : s₁.program.classNames.values.mapM (s₁.within none).class? = some classes := by
    rw [h.kept.tables.1, mapM_eq_some_iff]
    exact map_eq_map_some_mono
      (fun c _ N hN => (h.kept.trans hx).class? h₀.sound hs' hN) hread.classes
  have hmethods : s₁.program.declared.mapM (s₁.within none).method? = some Ns := by
    rw [h.kept.declared, hread.declared, mapM_eq_some_iff, List.map_map]
    exact map_eq_map_some_mono
      (fun b _ N hN => hx.method? h.bodied.sound hs' (fun _ hg => hg) hN) h.done
  unfold Program.named?
  show (s₁.program.classNames.values.mapM (s₁.within none).class?).bind _ = _
  rw [hclasses]
  show (s₁.program.declared.mapM (s₁.within none).method?).bind _ = _
  rw [hmethods]
  rfl

/-- **The third pass mirrors the elaboration of the bodies**, and the program then reads as what has
been elaborated. -/
theorem resolveBodies_mirrors (h : s.Signed d u bodies) (hread : s.Readied d u bodies classes) :
    Mirrors (resolveBodies d bodies) s
      (fun _ s' Ns => s'.program.named? s'.registry = some ⟨classes, Ns⟩)
      (u.inOrder.mapM fun (owner, m) => m.elaborate (u.interface d) owner) := by
  unfold resolveBodies
  rw [← hread.order, ← inTurn_const _ [], ← bind_pure (inTurn _ _ _)]
  have run := Mirrors.forM (l := bodies) (q := s.entry) (s := s)
    (f := fun (b : MethodId × MethodDecl) => resolveBody d b.1 b.2)
    (g := fun _ (b : Option String × MethodDecl) => b.2.elaborate (u.interface d) b.1)
    (fun pre Ns s' => BodiesRead s s' d u bodies pre Ns) (hread.bodiesRead h) ?_
  · refine run.seq fun _ s₁ Ns h₁ => Mirrors.of_leads (Leads.modify ?_)
    have hnamed := h₁.named? h hread
    exact hnamed
  · intro pre b post Ns s₁ hl hI
    obtain ⟨hpre, hrest⟩ := distinct_split (List.pairwise_map.1 h.distinct) hl
    exact resolveBody_mirrors h hread hI (by rw [hl]; simp) hpre hrest

end Resolver

/-! ## Units -/

/-- **The first pass accepts a unit**: all its declarations can be announced. -/
def CompilationUnit.Declarable (d : Dialect) (u : CompilationUnit) : Prop :=
  ∃ known s, (do installOperators; declare d u : Resolve Declarations) .initial = .ok known s

namespace CompilationUnit

variable {d : Dialect} {u : CompilationUnit} {s₀ : Resolver}

/-- What is known after the first pass. -/
theorem announce_leads (d : Dialect) (u : CompilationUnit) (h₀ : s₀ = .initial) :
    Leads (do installOperators; declare d u : Resolve Declarations) s₀
      (fun known s => s.Announced d u known) (Refused (u.DistinctNames d)) :=
  (installOperators_leads h₀).sure_seq fun _ _ h => declare_leads h

theorem declarable_iff : u.Declarable d ↔ u.DistinctNames d := by
  obtain ⟨s₀, h₀⟩ : ∃ s, s = Resolver.initial := ⟨_, rfl⟩
  unfold Declarable
  rw [← h₀]
  refine ((announce_leads d u h₀).imp ?_ fun _ hr => hr.2).succeeds_iff
  intro known s h
  exact ⟨h.classNames, h.notNative, h.functionNames⟩

/-- **The first two passes** leave a state that has the methods of the elaborated signatures. -/
theorem readSignatures_reads (d : Dialect) (u : CompilationUnit) (h₀ : s₀ = .initial) :
    Gives (readSignatures d u) s₀ (fun bodies s => ∃ classes,
      u.elaborateSignatures d = .ok classes ∧ s.Signed d u bodies ∧ s.Readied d u bodies classes) := by
  unfold readSignatures
  refine (installOperators_leads h₀).sure_seq fun _ s₁ h₁ => ?_
  refine (declare_leads h₁).seq_imp (fun _ _ => trivial) fun known s₂ h₂ => ?_
  exact (resolveSignatures_mirrors h₂).leads.gives fun _ _ h => h

/-- The second and the third pass mirror elaboration. -/
theorem resolveUnit_mirrors (hu : u.Declarable d) (h₀ : s₀ = .initial) :
    Mirrors (resolveUnit d u) s₀ (fun _ s N => s.program.named? s.registry = some N)
      (u.elaborate d) := by
  have hannounce : Leads (do installOperators; declare d u : Resolve Declarations) s₀
      (fun known s => s.Announced d u known) fun _ => False :=
    (announce_leads d u h₀).imp (fun _ _ h => h) fun _ hr => hr.2 (declarable_iff.1 hu)
  have hsplit : resolveUnit d u = (do installOperators; declare d u : Resolve Declarations) >>=
      fun known => resolveSignatures d known >>= resolveBodies d := by
    unfold resolveUnit
    rw [bind_assoc]
  rw [hsplit]
  refine Mirrors.leads_seq hannounce fun known s₂ h₂ => ?_
  refine (resolveSignatures_mirrors h₂).seq ?_
  rintro bodies s₃ classes ⟨h₃, hread⟩
  rw [← bind_pure (resolveBodies d bodies)]
  exact (resolveBodies_mirrors h₃ hread).seq fun _ _ _ h => Mirrors.pure h

/-- **Resolution agrees with elaboration**: the same fault, or a program that reads as what has been
elaborated. The answer has a name of its own, so that nothing evaluates it. -/
theorem resolve_agrees {x : Except Diagnostic (Registry × Program)} (hu : u.Declarable d)
    (hx : u.resolve d = x) :
    Agrees (fun rp N => Program.named? rp.1 rp.2 = some N) x (u.elaborate d) := by
  obtain ⟨s₀, h₀⟩ : ∃ s, s = Resolver.initial := ⟨_, rfl⟩
  have h := resolveUnit_mirrors hu h₀
  unfold CompilationUnit.resolve at hx
  rw [← h₀] at hx
  unfold Mirrors at h
  cases hrun : resolveUnit d u s₀ <;> cases hother : u.elaborate d <;> rw [hrun] at h hx <;>
    rw [hother] at h <;> subst hx
  · exact h.elim
  · exact h
  · exact h
  · exact h.elim

end CompilationUnit

end ClassLang
