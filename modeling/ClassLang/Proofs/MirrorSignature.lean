import ClassLang.Proofs.MirrorStmt

/-!
# Resolving a signature mirrors its elaboration

`resolveSignature_mirrors`: the signature of an announced method is resolved as it is elaborated.
Afterwards the method can be read back without numbers, and the scope of its body binds exactly its
receiver and its arguments (`Resolver.Presents`).
-/

namespace ClassLang

open Resolver Resolve

theorem lookup_eq_none_iff_not_mem {β : Type} {names : List (String × β)} {n : String} :
    names.lookup n = none ↔ n ∉ names.map Prod.fst := by
  induction names with
  | nil => simp
  | cons q names ih =>
    rw [List.lookup_cons, List.map_cons, List.mem_cons, not_or]
    by_cases h : n = q.1
    · rw [beq_iff_eq.2 h]; simp [h]
    · rw [beq_eq_false_iff_ne.2 h]; simp [h, ih]

/-- What can be read in a list is read the same where each of its members is. -/
theorem map_eq_map_some_mono {α β : Type} {f f' : α → Option β} {l : List α} {ys : List β}
    (hf : ∀ a ∈ l, ∀ y, f a = some y → f' a = some y) (h : l.map f = ys.map some) :
    l.map f' = ys.map some := by
  rw [← h]
  refine List.map_congr_left fun a ha => ?_
  have hmem : f a ∈ ys.map some := h ▸ List.mem_map_of_mem ha
  obtain ⟨y, -, hy⟩ := List.mem_map.1 hmem
  rw [← hy, hf a ha y hy.symm]

/-- In a list with positions, a member has the number of those before it. -/
theorem zipIdx_split {α : Type} {l : List α} {pre post : List (α × Nat)} {a : α} {index : Nat}
    (h : l.zipIdx = pre ++ (a, index) :: post) : index = pre.length := by
  have hat := congrArg (fun l => l[pre.length]?) h
  simp only [List.getElem?_append_right (Nat.le_refl _), Nat.sub_self, List.getElem?_cons_zero,
    List.getElem?_zipIdx, Nat.zero_add, Option.map_eq_some_iff, Prod.mk.injEq] at hat
  obtain ⟨_, -, -, hindex⟩ := hat
  exact hindex.symm

/-- The variables that the body of a method starts with. -/
def MethodDecl.locals (m : MethodDecl) (g : Method) : Locals :=
  g.receiver.toList.map (fun v => ("this", v)) ++
    (m.arguments.map ArgumentDecl.name).zip g.arguments

namespace Resolver

variable {s₀ s s' s₁ : Resolver} {d : Dialect} {u : CompilationUnit} {o : Option ClassId}
  {owner : Option ClassDecl} {j p : ScopeId} {ns : Locals} {n : String} {ty : TypeId} {T : Ty}
  {vs : List VariableId} {ys : List NamedVariable}

/-! ## Filling a new block by number -/

/-- Since `s₀`, a block `j` has been added inside `p`, and exactly the variables `ns` have been bound
in it. -/
structure Bound (s₀ s : Resolver) (j p : ScopeId) (ns : Locals) : Prop where
  frame : Frame s₀ s none none none
  fresh : s₀.program.scopeAt? j = none
  sound : s.Sound
  table : ∃ sc, s.program.scopeAt? j = some sc ∧ sc.kind = .block ∧ sc.parent = some p ∧
    ∀ n : String, sc.vars[n]? = ns.lookup n

/-- A name that the block binds is not bound again. -/
theorem Bound.bind_taken (h : Bound s₀ s j p ns) (hn : n ∈ ns.map Prod.fst) (ty : TypeId)
    (kind : VariableKind) (span : Span) :
    Leads (bindVariable j n ty kind span) s (fun _ _ => False)
      fun f => f = ⟨.duplicateVariable n, span⟩ := by
  obtain ⟨sc, hsc, -, -, htable⟩ := h.table
  cases hv : sc.vars[n]? with
  | none => exact absurd hn (lookup_eq_none_iff_not_mem.1 ((htable n).symm.trans hv))
  | some v => exact bindVariable_taken hsc hv ty kind span

/-- **Binding a further variable.** -/
theorem Bound.bind_leads (h : Bound s₀ s j p ns) {kind : VariableKind} {role : Role} {span : Span}
    (hT : s.registry.meaning? ty = some T) (hk : ∀ c index, kind ≠ .field c index)
    (hrole : s.role? kind = some role) (hn : n ∉ ns.map Prod.fst) :
    Leads (bindVariable j n ty kind span) s (fun v s' => Bound s₀ s' j p (ns ++ [(n, v)]) ∧
      s.Grows s' ∧ s'.namedVar? v = some ⟨n, role, T, span⟩) fun _ => False := by
  obtain ⟨sc, hsc, hblock, hp, htable⟩ := h.table
  have hlookup := lookup_eq_none_iff_not_mem.2 hn
  have hfree : sc.vars[n]? = none := (htable n).trans hlookup
  have hok : VarOk s ⟨n, ty, kind, none, span⟩ :=
    ⟨Registry.has_of_meaning? h.sound.registry hT, fun c k hck => absurd hck (hk c k)⟩
  refine (bindVariable_leads h.sound hsc hok (by rw [hblock]; exact hk)).imp ?_ fun _ hr => hr.2 hfree
  rintro v s' ⟨hf, hs', -, -, hv, hsc', -⟩
  have hT' := hf.toGrows.meaning? h.sound.registry hs'.registry hT
  refine ⟨⟨h.frame.trans_inner h.fresh hf, h.fresh, hs', _, hsc', hblock, hp, fun n' => ?_⟩,
    hf.toGrows, namedVar?_eq_some_iff.2 ⟨_, hv, rfl, hf.toGrows.role? hrole, hT', rfl⟩⟩
  show (sc.vars.insert n v)[n']? = _
  rw [lookup_concat hlookup, getElem?_insert_eq, List.lookup_cons, htable n']
  by_cases heq : n = n'
  · rw [if_pos heq, beq_iff_eq.2 heq.symm]
  · rw [if_neg heq, beq_eq_false_iff_ne.2 fun h => heq h.symm]

/-- **Resolving a written type** next to the block. -/
theorem Bound.type_mirrors (h : Bound s₀ s j p ns) (h₀ : s₀.Grounded u) (t : TypeName) :
    Mirrors (t.resolve d j) s (fun ty s' T => Bound s₀ s' j p ns ∧ s.Grows s' ∧
      s'.registry.meaning? ty = some T) (t.elaborate (u.interface d)) := by
  obtain ⟨sc, hsc, hblock, hp, htable⟩ := h.table
  have hground := h₀.frame h.frame h.sound nofun nofun
  refine (t.resolve_mirrors h.sound hground.types hsc).imp ?_
  rintro ty s' T ⟨⟨hf, hs', -⟩, hT⟩
  exact ⟨⟨h.frame.trans hf, h.fresh, hs', sc, hf.keepsScope hsc, hblock, hp, htable⟩,
    hf.toGrows, hT⟩

/-- A variable without its number has the type of the variable. -/
theorem tyOf?_of_namedVar? {v : VariableId} {y : NamedVariable} (h : s.namedVar? v = some y) :
    s.tyOf? v = some y.ty := by
  obtain ⟨x, hx, -, -, hT, -⟩ := namedVar?_eq_some_iff.1 h
  exact tyOf?_eq_some_iff.2 ⟨x, hx, hT⟩

theorem map_tyOf?_of_namedVar? (h : vs.map s.namedVar? = ys.map some) :
    vs.map s.tyOf? = (ys.map NamedVariable.ty).map some := by
  induction forall₂_of_map_eq h with
  | nil => rfl
  | cons hv _ ih =>
    rw [List.map_cons, List.map_cons, List.map_cons, tyOf?_of_namedVar? hv,
      ih (List.cons.inj h).2]

/-- Variables keep their readings. -/
theorem Grows.map_namedVar? (hg : s.Grows s') (hs : s.Sound) (hs' : s'.Sound)
    (h : vs.map s.namedVar? = ys.map some) : vs.map s'.namedVar? = ys.map some :=
  map_eq_map_some_mono (fun _ _ _ hy => hg.namedVar? hs hs' hy) h

theorem Grows.optionMap_namedVar? (hg : s.Grows s') (hs : s.Sound) (hs' : s'.Sound)
    {r : Option VariableId} {y : Option NamedVariable} (h : r.map s.namedVar? = y.map some) :
    r.map s'.namedVar? = y.map some := by
  rw [← optionMapM_eq_some_iff] at h ⊢
  exact optionMapM_mono (fun v y _ hy => hg.namedVar? hs hs' hy) h

/-! ## Arguments and receiver -/

/-- After the variables `ns`, the arguments `args` have been bound to `vs`, which read `ys`. -/
structure ArgumentsShown (s₀ s₁ s : Resolver) (j p : ScopeId) (ns : Locals)
    (args : List ArgumentDecl) (vs : List VariableId) (ys : List NamedVariable) : Prop where
  bound : Bound s₀ s j p (ns ++ (args.map ArgumentDecl.name).zip vs)
  grows : s₁.Grows s
  shown : vs.map s.namedVar? = ys.map some
  names : ys.map NamedVariable.name = args.map ArgumentDecl.name

theorem ArgumentsShown.length_eq {args : List ArgumentDecl}
    (h : ArgumentsShown s₀ s₁ s j p ns args vs ys) : args.length = vs.length := by
  have hshown := congrArg List.length h.shown
  have hnames := congrArg List.length h.names
  simp only [List.length_map] at hshown hnames
  omega

/-- One argument is read as it is written. -/
theorem resolveArgument_mirrors (h₀ : s₀.Grounded u) {args : List ArgumentDecl}
    (h : ArgumentsShown s₀ s₁ s j p ns args vs ys) (a : ArgumentDecl) :
    Mirrors (resolveArgument d j a args.length) s
      (fun v s' y => ArgumentsShown s₀ s₁ s' j p ns (args ++ [a]) (vs ++ [v]) (ys ++ [y]))
      (a.elaborate (u.interface d) (ns.map Prod.fst) args) := by
  have htaken : (ns ++ (args.map ArgumentDecl.name).zip vs).map Prod.fst =
      ns.map Prod.fst ++ args.map ArgumentDecl.name := by
    rw [List.map_append, List.map_fst_zip (by simp [h.length_eq])]
  unfold resolveArgument ArgumentDecl.elaborate
  refine (h.bound.type_mirrors h₀ a.type).seq ?_
  rintro ty s₂ T ⟨hb₂, hg₂, hT⟩
  by_cases hn : a.name ∈ ns.map Prod.fst ++ args.map ArgumentDecl.name
  · rw [if_pos hn, ← bind_pure (bindVariable _ _ _ _ _)]
    exact Mirrors.fails_seq (hb₂.bind_taken (htaken ▸ hn) ty _ a.span)
  · rw [if_neg hn]
    refine Mirrors.of_leads ((hb₂.bind_leads hT (by intro _ _; nofun) rfl (htaken ▸ hn)).post ?_)
    rintro v s₃ ⟨hb₃, hg₃, hy⟩
    have hg := hg₂.trans hg₃
    refine ⟨?_, h.grows.trans hg, ?_, ?_⟩
    · rw [List.map_append, List.zip_append (by simp [h.length_eq]), ← List.append_assoc]
      exact hb₃
    · rw [List.map_append, List.map_append, hg.map_namedVar? h.bound.sound hb₃.sound h.shown,
        List.map_singleton, hy]
      rfl
    · rw [List.map_append, List.map_append, h.names]; rfl

/-- **Binding the arguments** mirrors their elaboration in turn. -/
theorem resolveArguments_mirrors (h₀ : s₀.Grounded u) (h : Bound s₀ s₁ j p ns)
    (args : List ArgumentDecl) :
    Mirrors (args.zipIdx.mapM fun (a, index) => resolveArgument d j a index) s₁
      (fun vs s' ys => ArgumentsShown s₀ s₁ s' j p ns args vs ys)
      (inTurn (ArgumentDecl.elaborate (u.interface d) (ns.map Prod.fst)) [] args) := by
  have run := Mirrors.mapM (l := args.zipIdx) (q := Prod.fst) (s := s₁)
    (f := fun (a, index) => resolveArgument d j a index)
    (g := ArgumentDecl.elaborate (u.interface d) (ns.map Prod.fst))
    (fun pre vs ys s' => ArgumentsShown s₀ s₁ s' j p ns (pre.map Prod.fst) vs ys)
    ⟨by simpa using h, .refl s₁, rfl, rfl⟩ ?_
  · rwa [List.zipIdx_map_fst] at run
  · rintro pre ⟨a, index⟩ post vs ys s' hl hI
    cases zipIdx_split hl
    have step := resolveArgument_mirrors (d := d) h₀ hI a
    rw [List.length_map] at step
    refine step.imp fun v s'' y hI' => ?_
    rw [List.map_append]
    exact hI'

/-- **Binding the receiver** of a method, if it has an owner. -/
theorem bindReceiver_bound (h : Bound s₀ s j p []) (ho : s.Owns u o owner) (m : MethodDecl) :
    Leads (bindReceiver j m o) s (fun r s' =>
      Bound s₀ s' j p (r.toList.map fun v => ("this", v)) ∧
        r.map s'.namedVar? = ((owner.map ClassDecl.name).map m.receiverOf).map some)
      fun _ => False := by
  match o, owner, ho with
  | none, none, _ => exact ⟨h, rfl⟩
  | some c, some decl, ⟨i, hi, hd⟩ =>
    have hname : decl.name = i.name := by simpa using List.find?_some hd
    refine getClass_seq hi (Leads.map ?_)
    refine (h.bind_leads (h.sound.meaning?_class hi) (by intro _ _; nofun) rfl nofun).post ?_
    rintro v s' ⟨h', -, hy⟩
    refine ⟨h', ?_⟩
    rw [Option.map_some, hy, ← hname]
    rfl

/-! ## Signatures -/

/-- **A method that can be read back without numbers**: the method `l`, which is declared by `m`, is
`N`, and the scope `j` of its body binds exactly its receiver and its arguments. -/
structure Presents (s : Resolver) (m : MethodDecl) (l : MethodId) (g : Method) (j : ScopeId)
    (N : NamedMethod) : Prop where
  method : s.program.methodAt? l = some g
  scope : g.scope = some j
  callee : s.callee? l = some ⟨N.method, N.result⟩
  arguments : g.arguments.map s.namedVar? = N.arguments.map some
  names : N.arguments.map NamedVariable.name = m.arguments.map ArgumentDecl.name
  receiver : g.receiver.map s.namedVar? = N.receiver.map some
  external : g.isExternal = N.external
  span : g.span = N.span
  linkage : N.linkage = N.method.linkage N.external
  table : ∃ sc, s.program.scopeAt? j = some sc ∧
    ∀ n : String, sc.vars[n]? = (m.locals g).lookup n

/-- A method keeps its reading as long as it and its scope are left alone. -/
theorem Presents.mono {m : MethodDecl} {l : MethodId} {g : Method} {N : NamedMethod}
    (h : s.Presents m l g j N) (hg : s.Grows s') (hs : s.Sound) (hs' : s'.Sound)
    (hm : s'.program.methodAt? l = some g)
    (hj : ∀ sc, s.program.scopeAt? j = some sc → s'.program.scopeAt? j = some sc) :
    s'.Presents m l g j N where
  method := hm
  scope := h.scope
  callee := by
    obtain ⟨g', hg', ho, hn, hsig⟩ := callee?_eq_some_iff.1 h.callee
    rw [h.method] at hg'
    cases hg'
    exact callee?_eq_some_iff.2 ⟨g, hm, hg.ownerName? ho, hn,
      hg.signatureOf? hs.registry hs'.registry h.method hm rfl rfl hsig⟩
  arguments := hg.map_namedVar? hs hs' h.arguments
  names := h.names
  receiver := hg.optionMap_namedVar? hs hs' h.receiver
  external := h.external
  span := h.span
  linkage := h.linkage
  table := by
    obtain ⟨sc, hsc, htable⟩ := h.table
    exact ⟨sc, hj sc hsc, htable⟩

/-- The name of the owner of a method, by number and as it is written. -/
theorem Owns.ownerName? (h : s.Owns u o owner) : s.ownerName? o = some (owner.map ClassDecl.name) := by
  match o, owner, h with
  | none, none, _ => rfl
  | some c, some decl, ⟨i, hi, hd⟩ =>
    have hname : decl.name = i.name := by simpa using List.find?_some hd
    rw [Resolver.ownerName?, className?, hi, Option.map_some, Option.map_some, Option.map_some, hname]

/-- **Storing what has been resolved of a method** makes it readable. -/
theorem ArgumentsShown.presents {l : MethodId} {m : MethodDecl} {receiver : Option VariableId}
    (h : ArgumentsShown s₀ s₁ s j p (receiver.toList.map fun v => ("this", v)) m.arguments vs ys)
    (hl : s₀.program.methodAt? l = some (m.announce o)) (ho : s₀.Owns u o owner)
    (hr : receiver.map s.namedVar? = ((owner.map ClassDecl.name).map m.receiverOf).map some)
    (hT : s.registry.meaning? ty = some T) : let g := { m.announce o with
      result := ty, arguments := vs, receiver := receiver, scope := some j }
    let name : MethodName := ⟨owner.map ClassDecl.name, m.name, ys.map NamedVariable.ty⟩
    (s.setMethod l g).Presents m l g j ⟨name, T, ys, (owner.map ClassDecl.name).map m.receiverOf,
      m.body.isNone, m.span, name.linkage m.body.isNone, none⟩ := by
  intro g name
  have hl' : s.program.methodAt? l = some (m.announce o) := h.bound.frame.keepsMethod hl
  have hg : (s.setMethod l g).program.methodAt? l = some g :=
    (methodAt?_setMethod hl' g l).trans (if_pos rfl)
  have howner : (s.setMethod l g).ownerName? o = some (owner.map ClassDecl.name) :=
    (ho.mono h.bound.frame.toGrows).ownerName?
  refine
    { method := hg, scope := rfl, callee := ?_, arguments := h.shown, names := h.names, receiver := hr
      external := ?_, span := rfl, linkage := rfl, table := ?_ }
  · exact callee?_eq_some_iff.2 ⟨g, hg, howner, rfl,
      signatureOf?_eq_some_iff.2 ⟨g, hg, map_tyOf?_of_namedVar? h.shown, hT⟩⟩
  · show Method.isExternal { m.announce o with
      result := ty, arguments := vs, receiver := receiver, scope := some j } = m.body.isNone
    unfold MethodDecl.announce MethodDecl.kind Method.isExternal
    cases m.body <;> rfl
  · obtain ⟨sc, hsc, -, -, htable⟩ := h.bound.table
    exact ⟨sc, hsc, htable⟩

end Resolver

/-- **A signature is resolved as it is elaborated**, and then the method can be read back. -/
theorem resolveSignature_mirrors {s : Resolver} {d : Dialect} {u : CompilationUnit}
    {o : Option ClassId} {owner : Option ClassDecl} {l : MethodId} {m : MethodDecl}
    (h : s.Grounded u) (hl : s.program.methodAt? l = some (m.announce o)) (ho : s.Owns u o owner) :
    Mirrors (resolveSignature d l m) s (fun _ s' N => ∃ g j, s'.Presents m l g j N)
      (m.elaborateSignature (u.interface d) (owner.map ClassDecl.name)) := by
  unfold resolveSignature MethodDecl.elaborateSignature
  refine ask_ok_seq (Program.getMethod_eq hl) ?_
  refine Mirrors.leads_seq (homeScope_leads h.sound ho) ?_
  rintro p _ ⟨rfl, hp, sp, hsp⟩
  refine Mirrors.leads_seq (pushScope_leads h.sound hsp) ?_
  rintro j s₁ ⟨hf₁, hs₁, hfresh, -, hj⟩
  have h₁ : Bound s s₁ j p [] := ⟨hf₁, hfresh, hs₁, _, hj, rfl, rfl, fun n => by simp [Scope.empty]⟩
  refine Mirrors.leads_seq (bindReceiver_bound h₁ (ho.mono hf₁.toGrows) m) ?_
  rintro receiver s₂ ⟨h₂, hr⟩
  -- the receiver takes its name on both sides, if there is one
  have htaken : (receiver.toList.map fun v => ("this", v)).map Prod.fst =
      (owner.map ClassDecl.name).toList.map fun _ => "this" := by
    cases receiver <;> cases owner
    · rfl
    · cases hr
    · cases hr
    · rfl
  rw [← htaken]
  refine (resolveArguments_mirrors h h₂ m.arguments).seq fun vs s₃ ys h₃ => ?_
  have hresult : Mirrors (resolveResult d j m.result) s₃ (fun ty s' T =>
      Bound s s' j p ((receiver.toList.map fun v => ("this", v)) ++
        (m.arguments.map ArgumentDecl.name).zip vs) ∧ s₃.Grows s' ∧
      s'.registry.meaning? ty = some T) (m.elaborateResult (u.interface d)) := by
    unfold MethodDecl.elaborateResult
    cases m.result with
    | none =>
      exact Mirrors.pure ⟨h₃.bound, .refl s₃,
        Registry.meaning?_native h₃.bound.sound.registry .void⟩
    | some type => exact h₃.bound.type_mirrors h type
  refine hresult.seq ?_
  rintro ty s₄ T ⟨h₄, hg₄, hT⟩
  have hr₄ := (h₃.grows.trans hg₄).optionMap_namedVar? h₂.sound h₄.sound hr
  have h₃' : ArgumentsShown s s₂ s₄ j p (receiver.toList.map fun v => ("this", v)) m.arguments vs
      ys := ⟨h₄, h₃.grows.trans hg₄, hg₄.map_namedVar? h₃.bound.sound h₄.sound h₃.shown, h₃.names⟩
  refine Mirrors.of_leads (updateMethod_leads (h₄.frame.keepsMethod hl) ?_)
  exact ⟨_, j, h₃'.presents hl ho hr₄ hT⟩

end ClassLang
