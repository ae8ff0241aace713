import ClassLang.Proofs.SignaturePass

/-!
# The third pass

The third pass resolves the bodies one after the other. Each is resolved in the scope that its
signature has left, in a state that represents the whole unit, so what is known of statements
applies (`resolveBody_seq`, `resolveBody_leads`).

`readSignatures_signs` and `resolveUnit_leads` put the passes after each other: resolution succeeds if
and only if the unit is well typed, a fault is never internal, and what it leaves is sound and well
typed throughout.
-/

namespace ClassLang

open Resolver Resolve

variable {d : Dialect} {u : CompilationUnit} {s : Resolver} {bodies : List (MethodId × MethodDecl)}

/-- All bodies that are there are well typed. -/
def Program.BodiesTyped (t : Conversions) (r : Registry) (p : Program) : Prop :=
  ∀ m g b, p.methodAt? m = some g → g.body = some b →
    b.WellTyped t r p (p.receiverType? g) g.result

namespace Resolver

variable {s s' s'' : Resolver} {d : Dialect} {u : CompilationUnit} {owner : Option ClassDecl}
  {l : MethodId} {m : MethodDecl} {g : Method} {j : ScopeId}

/-! ## Entering a body -/

/-- The state in the body of a method. -/
def within (s : Resolver) (m : Option MethodId) : Resolver := { s with current := m }

theorem Extends.within (s : Resolver) (m : Option MethodId) : s.Extends (s.within m) where
  registry := .refl _
  fresh _ e h := .inl (Registry.has_iff_entry.2 ⟨e, h⟩)
  noClass := rfl
  tables := ⟨rfl, rfl⟩
  classes _ _ h := h
  methods _ g h := ⟨g.body, h⟩
  vars _ _ h := h
  scopes _ sc h := ⟨sc, h, .refl sc, fun _ => rfl⟩

theorem Sound.within (hs : s.Sound) (m : Option MethodId) : (s.within m).Sound :=
  hs.step (Extends.within s m).grows hs.registry { InOrder.refl _ s with } hs.own

theorem Extends.refl (s : Resolver) : s.Extends s := Extends.within s s.current

theorem Extends.trans (h : s.Extends s') (h' : s'.Extends s'') : s.Extends s'' where
  registry := h.registry.trans h'.registry
  fresh id e he := by
    rcases h'.fresh id e he with hi | hi
    · obtain ⟨e', he'⟩ := Registry.has_iff_entry.1 hi
      rcases h.fresh id e' he' with hi | hi
      · exact .inl hi
      · have := h'.registry.entry id e' he'
        rw [he] at this
        cases this
        exact .inr hi
    · exact .inr hi
  noClass := h'.noClass.trans h.noClass
  tables := ⟨h'.tables.1.trans h.tables.1, h'.tables.2.trans h.tables.2⟩
  classes c i hi := h'.classes c i (h.classes c i hi)
  methods m g hg := by
    obtain ⟨b, hb⟩ := h.methods m g hg
    obtain ⟨b', hb'⟩ := h'.methods m _ hb
    exact ⟨b', hb'⟩
  vars v x hx := h'.vars v x (h.vars v x hx)
  scopes j sc hsc := by
    obtain ⟨sc', hsc', hg, hsame⟩ := h.scopes j sc hsc
    obtain ⟨sc'', hsc'', hg', hsame'⟩ := h'.scopes j sc' hsc'
    refine ⟨sc'', hsc'', hg.trans hg', fun hk => ?_⟩
    rw [hsame' (by rw [hg.kind]; exact hk), hsame hk]

/-- The names a body starts with: the receiver has the type of the class around. -/
theorem MethodDecl.bindings_receivers {sig : Signature} :
    Blocks.Receivers ⟨d, u, owner, sig.result⟩ [m.bindings owner sig.parameters] := by
  intro names hnames n b hb hrec
  cases List.mem_singleton.1 hnames
  unfold MethodDecl.bindings at hb
  rcases List.mem_append.1 hb with hb | hb
  · obtain ⟨c, hc, heq⟩ := List.mem_map.1 hb
    cases heq
    exact ⟨c, by simpa using hc, rfl⟩
  · -- arguments are no receivers
    have hmem := (List.of_mem_zip hb).2
    obtain ⟨t, -, rfl⟩ := List.mem_map.1 hmem
    cases hrec

/-- **What surrounds the body** of a method that is ready. -/
theorem Ready.setting (h : s.Ready d u owner l m g j) (hs : s.Sound) (hR : s.Represents d u) :
    ∃ sig, m.signature? d u = some sig ∧ (s.within (some l)).Setting ⟨d, u, owner, sig.result⟩ g
      (s.program.receiverType? g) j [m.bindings owner sig.parameters] := by
  obtain ⟨sc, sig, hsc, hsig, hsig', hmatch⟩ := h.signature
  obtain ⟨g', hg', -, hresult⟩ := signatureOf?_eq_some_iff.1 hsig'
  rw [h.method] at hg'
  cases hg'
  obtain ⟨sc', p, hsc', hblock, hpar, hhome⟩ := (hs.methods l g h.method).scope j h.scope
  rw [hsc] at hsc'
  cases hsc'
  have hs' := hs.within (some l)
  have hx := Extends.within s (some l)
  have howns := h.owned
  refine ⟨sig, hsig, hs', hR.mono hx hs hs', ?_, rfl, ?_, MethodDecl.bindings_receivers⟩
  · refine ⟨⟨l, rfl, h.method⟩, hresult, h.receiver, ?_, ?_⟩
    · intro ho
      rw [ho] at howns
      cases owner with
      | none => rfl
      | some c => cases howns
    · intro c hc
      rw [hc] at howns
      cases owner with
      | none => cases howns
      | some decl =>
        obtain ⟨i, hi, hd⟩ := howns
        exact ⟨i, decl, hi, rfl, hd⟩
  · exact .block hsc hblock hpar (hmatch.mono hx.grows hs hs' hsc) (.home (hhome.mono hx.grows))

/-! ## Leaving a body -/

/-- The state with a body for the method `l`, which is `g` so far. -/
def setBody (s : Resolver) (l : MethodId) (g : Method) (b : TypedBlock) : Resolver :=
  s.setMethod l { g with body := some b }

theorem methodAt?_setBody (hl : s.program.methodAt? l = some g) (b : TypedBlock) (k : MethodId) :
    (s.setBody l g b).program.methodAt? k =
      if k = l then some { g with body := some b } else s.program.methodAt? k :=
  methodAt?_setMethod hl _ k

theorem Extends.setBody (hl : s.program.methodAt? l = some g) (b : TypedBlock) :
    s.Extends (s.setBody l g b) :=
  { Extends.refl s with
    methods := by
      intro k g' hg'
      rw [methodAt?_setBody hl]
      split
      · rename_i hk
        subst hk
        rw [hl] at hg'
        cases hg'
        exact ⟨some b, rfl⟩
      · exact ⟨g'.body, hg'⟩ }

theorem Sound.setBody (hs : s.Sound) (hl : s.program.methodAt? l = some g) (b : TypedBlock) :
    (s.setBody l g b).Sound :=
  hs.setMethod hl rfl rfl rfl { hs.methods l g hl with } (.inl rfl)

/-! ## The bodies in turn -/

/-- Bodies stay well typed, and methods that had none may have got well-typed ones. -/
theorem Extends.bodiesTyped (hx : s.Extends s') (hs : s.Sound) {t : Conversions}
    (h : s.program.BodiesTyped t s.registry)
    (hnew : ∀ m g b, s'.program.methodAt? m = some g → g.body = some b →
      (∃ g₀, s.program.methodAt? m = some g₀ ∧ g₀.body = some b) ∨
        b.WellTyped t s'.registry s'.program (s'.program.receiverType? g) g.result) :
    s'.program.BodiesTyped t s'.registry := by
  intro m g b hg hb
  rcases hnew m g b hg hb with ⟨g₀, hg₀, hb₀⟩ | hwt
  · obtain ⟨b', hb'⟩ := hx.methods m g₀ hg₀
    rw [hg] at hb'
    cases hb'
    have hr : s'.program.receiverType? g₀ = s.program.receiverType? g₀ :=
      hx.grows.receiverType? (hs.methods m g₀ hg₀) rfl
    have hwt := (h m g₀ b hg₀ hb₀).mono hx
    rw [← hr] at hwt
    exact hwt
  · exact hwt

/-- **The third pass is under way**: since `s`, the bodies of `pre` have been resolved, and the others
are still waiting. -/
structure Bodied (s s' : Resolver) (d : Dialect) (u : CompilationUnit)
    (bodies pre : List (MethodId × MethodDecl)) : Prop where
  grows : s.Grows s'
  sound : s'.Sound
  represents : s'.Represents d u
  typed : s'.program.BodiesTyped d.conversions s'.registry
  waiting : ∀ b ∈ bodies, b ∉ pre → ∀ owner g j, s.Ready d u owner b.1 b.2 g j →
    s'.Ready d u owner b.1 b.2 g j
  done : ∀ b ∈ pre, ∀ owner g j, s.Ready d u owner b.1 b.2 g j → b.2.BodyTyped d u owner ∧
    ∃ body, s'.program.methodAt? b.1 = some { g with body := body } ∧
      body.isSome = b.2.body.isSome

theorem Signed.bodied (h : s.Signed d u bodies) : Bodied s s d u bodies [] where
  grows := .refl s
  sound := h.sound
  represents := h.represents
  typed m g b hg hb := by
    rw [h.bodyless m g hg] at hb
    cases hb
  waiting _ _ _ _ _ _ hr := hr
  done := nofun

/-- One body more, when its method and its scope are all that has changed. -/
theorem Bodied.step {s₁ : Resolver} {pre : List (MethodId × MethodDecl)} {b : MethodId × MethodDecl}
    {body : Option TypedBlock} (h : Bodied s s₁ d u bodies pre) (hr : s.Ready d u owner b.1 b.2 g j)
    (hr₁ : s₁.Ready d u owner b.1 b.2 g j) (hpre : ∀ w ∈ pre, w.1 ≠ b.1)
    (hrest : ∀ w ∈ bodies, w ≠ b → w.1 ≠ b.1) (hx : s₁.Extends s') (hs' : s'.Sound)
    (htyped : s'.program.BodiesTyped d.conversions s'.registry)
    (hmethods : ∀ k g', s₁.program.methodAt? k = some g' → k ≠ b.1 →
      s'.program.methodAt? k = some g')
    (hscopes : ∀ k sc, s₁.program.scopeAt? k = some sc → k ≠ j → s'.program.scopeAt? k = some sc)
    (hmethod : s'.program.methodAt? b.1 = some { g with body := body })
    (hsome : body.isSome = b.2.body.isSome) (hbody : b.2.BodyTyped d u owner) :
    Bodied s s' d u bodies (pre ++ [b]) where
  grows := h.grows.trans hx.grows
  sound := hs'
  represents := h.represents.mono hx h.sound hs'
  typed := htyped
  waiting w hw hnot owner' g' j' hrw := by
    have hwb : w.1 ≠ b.1 := hrest w hw fun heq => hnot (by rw [heq]; simp)
    have hw₁ := h.waiting w hw (fun hmem => hnot (List.mem_append_left _ hmem)) owner' g' j' hrw
    refine hw₁.mono hx.grows h.sound hs' (hmethods _ _ hw₁.method hwb) fun sc hsc =>
      hscopes j' sc hsc fun hj => hwb ?_
    -- no two methods share a scope
    subst hj
    exact h.sound.own w.1 b.1 g' g j' hw₁.method hr₁.method hw₁.scope hr₁.scope
  done w hw owner' g' j' hrw := by
    rcases List.mem_append.1 hw with hmem | hmem
    · obtain ⟨htw, body', hm, hs⟩ := h.done w hmem owner' g' j' hrw
      exact ⟨htw, body', hmethods _ _ hm (hpre w hmem), hs⟩
    · cases List.mem_singleton.1 hmem
      have hg : g' = g := Option.some.inj (hrw.method.symm.trans hr.method)
      subst hg
      rw [← (hr.unique hrw).2]
      exact ⟨hbody, body, hmethod, hsome⟩

end Resolver

theorem CompilationUnit.WellTyped.bodyTyped (h : u.WellTyped d) {owner : Option ClassDecl}
    {m : MethodDecl} (hm : u.Declares owner m) : m.BodyTyped d u owner := by
  match owner, hm with
  | some c, ⟨hc, hm⟩ => exact h.methods c hc m hm
  | none, hm => exact h.functions m hm

/-- **A body is resolved in the scope of its method and then stored.** A method without one stays as it
is. -/
theorem resolveBody_seq {m : MethodDecl} {l : MethodId} {g : Method} {j : ScopeId}
    {Q : Unit → Resolver → Prop} {E : Diagnostic → Prop} (hg : s.program.methodAt? l = some g)
    (hj : g.scope = some j) (hnone : m.body = none → Q () s)
    (hsome : ∀ body span, m.body = some (.mk body span) →
      Leads (Stmt.resolveAll d j body) (s.within (some l)) (fun ts s' =>
        s'.program.methodAt? l = some g ∧ Q () (s'.setBody l g (.mk ts j span))) E) :
    Leads (resolveBody d l m) s Q E := by
  unfold resolveBody
  cases hbody : m.body with
  | none => exact Leads.pure (hnone hbody)
  | some block =>
    obtain ⟨body, span⟩ := block
    refine getMethod_seq hg ?_
    rw [hj]
    show Leads (Block.resolve d j (.mk body span) >>= _) (s.within (some l)) _ _
    rw [Block.resolve]
    have hblock : Leads (Stmt.resolveAll d j body >>= fun ts => pure (TypedBlock.mk ts j span))
        (s.within (some l)) (fun block s' => s'.program.methodAt? l = some g ∧
          Q () (s'.setBody l g block)) E :=
      (hsome body span hbody).seq fun ts s' h => Leads.pure h
    refine hblock.seq ?_
    rintro block s' ⟨hg', hstored⟩
    exact updateMethod_leads hg' hstored

/-- **A body is resolved** if it is well typed. -/
theorem resolveBody_leads {s₁ : Resolver} {pre : List (MethodId × MethodDecl)}
    {b : MethodId × MethodDecl} (h₀ : s.Signed d u bodies) (h : Bodied s s₁ d u bodies pre)
    (hb : b ∈ bodies) (hpre : ∀ w ∈ pre, w.1 ≠ b.1) (hrest : ∀ w ∈ bodies, w ≠ b → w.1 ≠ b.1) :
    Leads (resolveBody d b.1 b.2) s₁ (fun _ s' => Bodied s s' d u bodies (pre ++ [b]))
      (Refused (u.WellTyped d)) := by
  obtain ⟨owner, g, j, hdecl, hr⟩ := h₀.ready b hb
  have hr₁ := h.waiting b hb (fun hmem => hpre b hmem rfl) owner g j hr
  refine resolveBody_seq hr₁.method hr₁.scope (fun hbody => ?_) fun body span hbody => ?_
  · refine h.step hr hr₁ hpre hrest (.refl s₁) h.sound h.typed (fun _ _ hg _ => hg)
      (fun _ _ hsc _ => hsc) hr₁.method ?_ ?_
    · rw [hr.body, hbody]; rfl
    · intro body span hb'
      rw [hbody] at hb'
      cases hb'
  · obtain ⟨sig, hsig, hset⟩ := hr₁.setting h.sound h.represents
    refine (Stmt.resolveAll_leads body hset).imp ?_ fun _ hf =>
      hf.imp fun hu => hu.bodyTyped hdecl body span hbody sig hsig
    intro ts s₂ hres
    have hg₂ : s₂.program.methodAt? b.1 = some g := hres.frame.keepsMethod hr₁.method
    -- from before the body to after it
    obtain ⟨sc, p, hsc, hblock, -⟩ := (h.sound.methods b.1 g hr₁.method).scope j hr₁.scope
    have hx₁ := Extends.within s₁ (some b.1)
    have hx₂ : (s₁.within (some b.1)).Extends s₂ := hres.frame.extends_of_block hsc hblock
    have hx₃ := Extends.setBody hg₂ (.mk ts j span)
    have hx := (hx₁.trans hx₂).trans hx₃
    refine ⟨hg₂, h.step hr hr₁ hpre hrest hx (hres.sound.setBody hg₂ _) ?_ ?_
      (fun k sc' hsc' hk => hres.frame.sameScopes k sc' hsc' fun heq => hk (Option.some.inj heq).symm)
      ((methodAt?_setBody hg₂ _ _).trans (if_pos rfl)) (by rw [hbody]; rfl) ?_⟩
    · refine hx.bodiesTyped h.sound h.typed fun k g' bd hg' hbd => ?_
      have hg'' := (methodAt?_setBody hg₂ _ k).symm.trans hg'
      split at hg''
      · cases hg''
        cases hbd
        have hthis := hx.grows.receiverType? (h.sound.methods b.1 g hr₁.method) rfl
        obtain ⟨sc', hsc', hgr⟩ := hres.frame.scopes j sc hsc
        refine .inr (.mk hsc' (hgr.kind.trans hblock) fun st hst => ?_)
        have hwt := (hres.typed st hst).mono hx₃
        rw [← hthis] at hwt
        exact hwt
      · rcases hres.frame.noBody k g' hg'' with hnone | ⟨g₀, hg₀, heq⟩
        · rw [hnone] at hbd; cases hbd
        · exact .inl ⟨g₀, hg₀, heq.trans hbd⟩
    · intro k g' hg' hk
      refine (methodAt?_setBody hg₂ _ k).trans ((if_neg hk).trans ?_)
      exact hres.frame.keepsMethod hg'
    · intro body' span' hb' sig' hsig'
      rw [hbody] at hb'
      rw [hsig] at hsig'
      cases hb'
      cases hsig'
      exact hres.ok

/-- **The third pass resolves all bodies**, or one of them is not well typed. -/
theorem resolveBodies_leads (h : s.Signed d u bodies) :
    Leads (resolveBodies d bodies) s (fun _ s' => ∃ s₁, Bodied s s₁ d u bodies bodies ∧
      s' = s₁.within none) (Refused (u.WellTyped d)) := by
  unfold resolveBodies
  have run := Leads.forM (l := bodies) (s := s)
    (f := fun (b : MethodId × MethodDecl) => resolveBody d b.1 b.2) (E := Refused (u.WellTyped d))
    (fun pre s' => Bodied s s' d u bodies pre) h.bodied ?_
  · refine run.seq fun _ s₁ h₁ => ?_
    exact Leads.modify ⟨s₁, h₁, rfl⟩
  · intro pre b post s₁ hl hI
    obtain ⟨hpre, hrest⟩ := distinct_split (List.pairwise_map.1 h.distinct) hl
    exact resolveBody_leads h hI (by rw [hl]; simp) hpre hrest

/-! ## All passes -/

/-- Every method that a unit declares is there, and has a body if and only if one is written. -/
def Program.HasMethods (p : Program) (u : CompilationUnit) : Prop :=
  ∀ owner m, u.Declares owner m → ∃ l g, p.methodAt? l = some g ∧ g.name = m.name ∧
    (g.owner.bind p.classAt?).map ClassInfo.name = owner.map ClassDecl.name ∧
    g.body.isSome = m.body.isSome

/-- **After all passes.** -/
structure Resolver.Finished (s : Resolver) (d : Dialect) (u : CompilationUnit) : Prop where
  sound : s.Sound
  typed : s.program.BodiesTyped d.conversions s.registry
  methods : s.program.HasMethods u
  wellTyped : u.WellTyped d

/-- With its last body the unit is resolved. -/
theorem Resolver.Bodied.finished {s₁ : Resolver} (h₀ : s.Signed d u bodies)
    (h : Bodied s s₁ d u bodies bodies) : (s₁.within none).Finished d u := by
  have done : ∀ owner m, u.Declares owner m → ∃ l g j, (l, m) ∈ bodies ∧
      s.Ready d u owner l m g j ∧ m.BodyTyped d u owner ∧
        ∃ body, s₁.program.methodAt? l = some { g with body := body } ∧
          body.isSome = m.body.isSome := by
    intro owner m hm
    obtain ⟨l, hl, g, j, hr⟩ := h₀.all owner m hm
    obtain ⟨htyped, hbody⟩ := h.done (l, m) hl owner g j hr
    exact ⟨l, g, j, hl, hr, htyped, hbody⟩
  refine ⟨h.sound.within none, h.typed, ?_, h₀.declared, ?_, ?_⟩
  · intro owner m hm
    obtain ⟨l, g, j, -, hr, -, body, hbody, hsome⟩ := done owner m hm
    exact ⟨l, _, hbody, hr.name, (hr.owned.mono h.grows).name_eq, hsome⟩
  · intro c hc m hm
    obtain ⟨-, -, -, -, -, htyped, -⟩ := done (some c) m ⟨hc, hm⟩
    exact htyped
  · intro f hf
    obtain ⟨-, -, -, -, -, htyped, -⟩ := done none f hf
    exact htyped

/-- The first two passes, which find the methods that wait for their bodies. -/
def readSignatures (d : Dialect) (u : CompilationUnit) : Resolve (List (MethodId × MethodDecl)) := do
  installOperators
  let known ← declare d u
  resolveSignatures d known

theorem resolveUnit_eq (d : Dialect) (u : CompilationUnit) :
    resolveUnit d u = readSignatures d u >>= resolveBodies d := by
  simp only [resolveUnit, readSignatures, bind_assoc]

/-- **The first two passes make all methods ready**, or the declarations are not in order. -/
theorem readSignatures_signs (d : Dialect) (u : CompilationUnit) {s₀ : Resolver}
    (h₀ : s₀ = .initial) : Leads (readSignatures d u) s₀ (fun bodies s => s.Signed d u bodies)
      (Refused (u.WellDeclared d)) := by
  unfold readSignatures
  refine (installOperators_leads h₀).sure_seq fun _ s₁ h₁ => ?_
  refine (declare_leads h₁).seq_imp (fun _ hr => hr.imp fun hu => hu.distinctNames) fun known s₂ h₂ => ?_
  exact resolveSignatures_leads h₂

/-- **Resolution of a unit**: it leaves a sound and well-typed state, or refuses a unit that is not
well typed. -/
theorem resolveUnit_leads (d : Dialect) (u : CompilationUnit) {s₀ : Resolver}
    (h₀ : s₀ = .initial) :
    Leads (resolveUnit d u) s₀ (fun _ s => s.Finished d u) (Refused (u.WellTyped d)) := by
  rw [resolveUnit_eq]
  refine (readSignatures_signs d u h₀).seq_imp (fun _ hr => hr.imp fun hu => hu.declared)
    fun bodies s₃ h₃ => ?_
  refine (resolveBodies_leads h₃).post ?_
  rintro _ _ ⟨s₄, h₄, rfl⟩
  exact h₄.finished h₃

end ClassLang
