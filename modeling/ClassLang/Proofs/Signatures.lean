import ClassLang.Proofs.Declare

/-!
# Resolving signatures

The signature of an announced method is resolved in a new block, in which its receiver and its
arguments are bound one after the other. `resolveSignature_leads`: this fails only if the declaration
is not in order; and afterwards the method has the signature that is written, and a scope that binds
the names its body starts with (`Resolver.Ready`).
-/

namespace ClassLang

open Resolver Resolve

variable {d : Dialect}

namespace Resolver

variable {s₀ s s' : Resolver} {d : Dialect} {u : CompilationUnit} {o : Option ClassId}
  {owner : Option ClassDecl} {j p : ScopeId} {names : Bindings} {n : String} {ty : TypeId} {T : Ty}

/-- Written types can be resolved: the classes of the unit have their names. -/
structure Grounded (s : Resolver) (u : CompilationUnit) : Prop where
  sound : s.Sound
  natives : s.Installed
  types : s.KnowsClasses u

theorem Grounded.frame {c : Option ClassId} {m : Option MethodId} {l : Option ScopeId}
    (h : s.Grounded u) (hf : Frame s s' c m l) (hs' : s'.Sound)
    (hm : ∀ m' g, m = some m' → s.program.methodAt? m' = some g → g.isOperator = false)
    (hl : l ≠ some ScopeTree.globalId) : s'.Grounded u where
  sound := hs'
  natives := h.natives.frame hf h.sound hs' hm
  types := h.types.mono hf.toGrows h.sound hs' fun sc hsc => ⟨sc, hf.sameScopes _ sc hsc hl, rfl⟩

/-- The owner of a method, by number and as it is written. -/
def Owns (s : Resolver) (u : CompilationUnit) : Option ClassId → Option ClassDecl → Prop
  | none, none => True
  | some c, some decl =>
    ∃ i, s.program.classAt? c = some i ∧ u.classNamed? i.name = some decl
  | _, _ => False

theorem Owns.mono (hg : s.Grows s') (h : s.Owns u o owner) : s'.Owns u o owner := by
  match o, owner, h with
  | none, none, _ => trivial
  | some c, some decl, ⟨i, hi, hd⟩ =>
    obtain ⟨i', hi', hn, -⟩ := hg.classes c i hi
    exact ⟨i', hi', hn ▸ hd⟩

theorem Owns.name_eq (h : s.Owns u o owner) :
    (o.bind s.program.classAt?).map ClassInfo.name = owner.map ClassDecl.name := by
  match o, owner, h with
  | none, none, _ => rfl
  | some c, some decl, ⟨i, hi, hd⟩ =>
    have hname : decl.name = i.name := by simpa using List.find?_some hd
    rw [Option.bind_some, hi, Option.map_some, Option.map_some, hname]

theorem Owns.unique {owner' : Option ClassDecl} (h : s.Owns u o owner) (h' : s.Owns u o owner') :
    owner = owner' := by
  match o, owner, owner', h, h' with
  | none, none, none, _, _ => rfl
  | some c, some decl, some decl', ⟨i, hi, hd⟩, ⟨i', hi', hd'⟩ =>
    rw [hi] at hi'
    cases hi'
    rw [hd] at hd'
    exact hd'

/-- **A method whose signature is resolved**, in a scope that binds the names its body starts with. -/
structure Ready (s : Resolver) (d : Dialect) (u : CompilationUnit) (owner : Option ClassDecl)
    (m : MethodId) (decl : MethodDecl) (g : Method) (j : ScopeId) : Prop where
  method : s.program.methodAt? m = some g
  name : g.name = decl.name
  body : g.body = none
  receiver : g.receiver.isSome = g.owner.isSome
  owned : s.Owns u g.owner owner
  scope : g.scope = some j
  signature : ∃ sc sig, s.program.scopeAt? j = some sc ∧ decl.signature? d u = some sig ∧
    s.signatureOf? m = some sig ∧ s.Matches sc (decl.bindings owner sig.parameters)

/-- A method stays ready as long as it and its scope are left alone. -/
theorem Ready.mono {m : MethodId} {decl : MethodDecl} {g : Method}
    (h : s.Ready d u owner m decl g j) (hg : s.Grows s') (hs : s.Sound) (hs' : s'.Sound)
    (hm : s'.program.methodAt? m = some g)
    (hj : ∀ sc, s.program.scopeAt? j = some sc → s'.program.scopeAt? j = some sc) :
    s'.Ready d u owner m decl g j where
  method := hm
  name := h.name
  body := h.body
  receiver := h.receiver
  owned := h.owned.mono hg
  scope := h.scope
  signature := by
    obtain ⟨sc, sig, hsc, hd, hsig, hmatch⟩ := h.signature
    exact ⟨sc, sig, hj sc hsc, hd, hg.signatureOf? hs.registry hs'.registry h.method hm rfl rfl hsig,
      hmatch.mono hg hs hs' hsc⟩

theorem Ready.frame {c : Option ClassId} {l : Option MethodId} {k : Option ScopeId} {m : MethodId}
    {decl : MethodDecl} {g : Method} (h : s.Ready d u owner m decl g j) (hf : Frame s s' c l k)
    (hs : s.Sound) (hs' : s'.Sound) (hl : l ≠ some m) (hk : k ≠ some j) :
    s'.Ready d u owner m decl g j :=
  h.mono hf.toGrows hs hs' (hf.sameMethods m g h.method hl)
    fun sc hsc => hf.sameScopes j sc hsc hk

/-! ## Filling a new block -/

/-- Since `s₀`, a block `j` has been added inside `p` and names have been bound in it. -/
structure Filling (s₀ s : Resolver) (j p : ScopeId) (names : Bindings) : Prop where
  frame : Frame s₀ s none none none
  fresh : s₀.program.scopeAt? j = none
  sound : s.Sound
  methods : s.program.methods = s₀.program.methods
  scope : ∃ sc, s.program.scopeAt? j = some sc ∧ sc.kind = .block ∧ sc.parent = some p ∧
    s.Matches sc names

theorem lookup_concat {β : Type} {names : List (String × β)} (h : names.lookup n = none) (b : β)
    (n' : String) : (names ++ [(n, b)]).lookup n' = List.lookup n' ((n, b) :: names) := by
  rw [List.lookup_append, List.lookup_cons]
  by_cases hn : n' = n
  · subst hn
    simp [h]
  · have hn' : (n' == n) = false := by simpa using hn
    simp [List.lookup_cons, hn']

theorem Filling.grounded (h : Filling s₀ s j p names) (h₀ : s₀.Grounded u) : s.Grounded u :=
  h₀.frame h.frame h.sound nofun nofun

end Resolver

theorem Resolve.bindVariable_methods {s : Resolver} {j : ScopeId} {n : String} {ty : TypeId}
    {kind : VariableKind} {span : Span} : Gives (bindVariable j n ty kind span) s
      (fun _ s' => s'.program.methods = s.program.methods) := by
  unfold bindVariable
  show Leads (updateScopes _ >>= fun _ => pure s.nextVar) (s.pushVar _) _ _
  refine Leads.seq (Q := fun _ s' => s'.program.methods = s.program.methods)
    (updateScopes_leads (Leads.of_forall fun _ _ => rfl)) fun _ _ h => Leads.pure h

theorem TypeName.resolve_methods {j : ScopeId} : ∀ (t : TypeName) (s : Resolver),
    Gives (t.resolve d j) s (fun _ s' => s'.program.methods = s.program.methods) := by
  intro t
  induction t with
  | named n span => exact fun s => ask_leads (Yields.of_forall fun _ => rfl)
  | pointer t _ ih | array t _ ih => exact fun s => (ih s).seq fun _ _ h => h

namespace Resolver

variable {s₀ s s' : Resolver} {d : Dialect} {u : CompilationUnit} {o : Option ClassId}
  {owner : Option ClassDecl} {j p : ScopeId} {names : Bindings} {n : String} {ty : TypeId} {T : Ty}
  {args : List ArgumentDecl} {vs : List VariableId} {ps : List Ty}

/-- **Binding a further name** in a new block. -/
theorem Filling.bind_leads (h : Filling s₀ s j p names) {kind : VariableKind} {span : Span}
    (hT : s.registry.meaning? ty = some T) (hk : ∀ c index, kind ≠ .field c index) :
    Leads (bindVariable j n ty kind span) s (fun v s' =>
      Filling s₀ s' j p (names ++ [(n, ⟨T, kind = .receiver⟩)]) ∧ s.Grows s' ∧
      names.lookup n = none ∧ s'.program.varAt? v = some ⟨n, ty, kind, none, span⟩)
      (Refused (names.lookup n = none)) := by
  obtain ⟨sc, hsc, hblock, hp, hm⟩ := h.scope
  have hok : VarOk s ⟨n, ty, kind, none, span⟩ :=
    ⟨Registry.has_of_meaning? h.sound.registry hT, fun c k hck => absurd hck (hk c k)⟩
  have hfree := hm.vars_eq_none (n := n) h.sound hsc
  refine ((bindVariable_leads h.sound hsc hok (by rw [hblock]; exact hk)).and
    bindVariable_methods).imp ?_ fun _ hf => hf.imp hfree.2
  rintro v s' ⟨⟨hf, hs', hn, -, hv, hsc', -⟩, hmethods⟩
  have hT' := hf.toGrows.meaning? h.sound.registry hs'.registry hT
  refine ⟨⟨h.frame.trans_inner h.fresh hf, h.fresh, hs', hmethods.trans h.methods, _, hsc', hblock,
    hp, fun n' => ?_⟩, hf.toGrows, hfree.1 hn, hv⟩
  rw [lookup_concat (hfree.1 hn)]
  exact hm.insert hf.toGrows h.sound hs' hsc hv hT' n'

/-- **Resolving a written type** next to a new block. -/
theorem Filling.type_leads (h : Filling s₀ s j p names) (h₀ : s₀.Grounded u) (t : TypeName) :
    Leads (t.resolve d j) s (fun ty s' => Filling s₀ s' j p names ∧ s.Grows s' ∧
      ∃ T, s'.registry.meaning? ty = some T ∧ t.denoted? d u = some T)
      (Refused (t.denoted? d u).isSome) := by
  obtain ⟨sc, hsc, hblock, hp, hm⟩ := h.scope
  refine ((t.resolve_leads h.sound (h.grounded h₀).types hsc).and (t.resolve_methods s)).post ?_
  rintro ty s' ⟨⟨hf, hs', hT⟩, hmethods⟩
  exact ⟨⟨h.frame.trans hf, h.fresh, hs', hmethods.trans h.methods, sc,
    hf.keepsScope hsc, hblock, hp, hm.mono hf.toGrows h.sound hs' hsc⟩, hf.toGrows, hT⟩

/-! ## Arguments -/

/-- The arguments `args` have been bound to `vs`, after the names `names`. -/
structure BoundArgs (s₀ s : Resolver) (d : Dialect) (u : CompilationUnit) (j p : ScopeId)
    (names : Bindings) (args : List ArgumentDecl) (vs : List VariableId) (ps : List Ty) : Prop where
  filling : Filling s₀ s j p
    (names ++ (args.map ArgumentDecl.name).zip (ps.map fun t => ⟨t, false⟩))
  types : vs.map s.tyOf? = ps.map some
  written : args.map (fun a => a.type.denoted? d u) = ps.map some
  distinct : (args.map ArgumentDecl.name).Nodup
  free : ∀ a ∈ args, names.lookup a.name = none

theorem lookup_zip_eq_none {ns : List String} {bs : List Binding} (h : ns.length = bs.length) :
    (ns.zip bs).lookup n = none ↔ n ∉ ns := by
  have hfst : (ns.zip bs).map Prod.fst = ns := List.map_fst_zip (Nat.le_of_eq h)
  conv => rhs; rw [← hfst]
  simp only [List.lookup_eq_none_iff, List.mem_map, not_exists, not_and]
  constructor
  · intro hnone p hp heq
    have := hnone p hp
    simp [heq] at this
  · intro hnone p hp
    have := hnone p hp
    simpa using fun heq : n = p.1 => this heq.symm

theorem BoundArgs.length_eq (h : BoundArgs s₀ s d u j p names args vs ps) :
    args.length = ps.length := by
  have := congrArg List.length h.written
  simpa using this

theorem BoundArgs.lookup_eq_none (h : BoundArgs s₀ s d u j p names args vs ps) :
    (names ++ (args.map ArgumentDecl.name).zip (ps.map fun t => (⟨t, false⟩ : Binding))).lookup n =
      none ↔ names.lookup n = none ∧ n ∉ args.map ArgumentDecl.name := by
  rw [List.lookup_append, Option.or_eq_none_iff, lookup_zip_eq_none (by simp [h.length_eq])]

/-- **One argument** is bound, or its type is unknown or its name taken. -/
theorem resolveArgument_leads (h₀ : s₀.Grounded u) (h : BoundArgs s₀ s d u j p names args vs ps)
    (a : ArgumentDecl) (index : Nat) :
    Leads (resolveArgument d j a index) s
      (fun v s' => s.Grows s' ∧
        ∃ T, BoundArgs s₀ s' d u j p names (args ++ [a]) (vs ++ [v]) (ps ++ [T]))
      (Refused ((a.type.denoted? d u).isSome ∧ names.lookup a.name = none ∧
        a.name ∉ args.map ArgumentDecl.name)) := by
  unfold resolveArgument
  refine (h.filling.type_leads h₀ a.type).seq_imp (fun _ hr => hr.imp And.left) ?_
  rintro ty s₁ ⟨h₁, hg₁, T, hT, ht⟩
  refine (h₁.bind_leads hT (by intro _ _; nofun)).imp ?_ fun _ hf =>
    hf.imp fun hok => h.lookup_eq_none.2 hok.2
  rintro v s₂ ⟨h₂, hg₂, hn, hv⟩
  have hn' := h.lookup_eq_none.1 hn
  have hg := hg₁.trans hg₂
  have htypes := hg.map_tyOf? h.filling.sound.registry h₂.sound.registry h.types
  have hty : s₂.tyOf? v = some T := tyOf?_eq_some_iff.2
    ⟨_, hv, hg₂.meaning? h₁.sound.registry h₂.sound.registry hT⟩
  refine ⟨hg, T, ?_, ?_, ?_, nodup_concat h.distinct hn'.2, ?_⟩
  · rw [List.map_append, List.map_append, List.zip_append (by simp [h.length_eq]),
      ← List.append_assoc]
    exact h₂
  · rw [List.map_append, List.map_append, htypes, List.map_cons, hty]; rfl
  · rw [List.map_append, List.map_append, h.written, List.map_cons, ht]; rfl
  · intro a' ha'
    rcases List.mem_append.1 ha' with ha' | ha'
    · exact h.free a' ha'
    · cases List.mem_singleton.1 ha'; exact hn'.1

/-- **Binding the arguments** fails only if a type is not known or a name is taken. -/
theorem resolveArguments_leads (h₀ : s₀.Grounded u) (h : Filling s₀ s j p names)
    (args : List ArgumentDecl) :
    Leads (args.zipIdx.mapM fun (a, index) => resolveArgument d j a index) s
      (fun vs s' => s.Grows s' ∧ ∃ ps, BoundArgs s₀ s' d u j p names args vs ps)
      (Refused ((∀ a ∈ args, (a.type.denoted? d u).isSome) ∧
        (args.map ArgumentDecl.name).Nodup ∧ ∀ a ∈ args, names.lookup a.name = none)) := by
  have run := Leads.mapM (l := args.zipIdx) (f := fun (a, index) => resolveArgument d j a index)
    (E := Refused ((∀ a ∈ args, (a.type.denoted? d u).isSome) ∧
        (args.map ArgumentDecl.name).Nodup ∧ ∀ a ∈ args, names.lookup a.name = none))
    (fun pre vs s' => s.Grows s' ∧
      ∃ ps, BoundArgs s₀ s' d u j p names (pre.map Prod.fst) vs ps)
    (s := s) ⟨.refl s, [], by simpa using h, rfl, rfl, List.nodup_nil, nofun⟩ ?_
  · refine run.post (fun vs s' h => ?_)
    rwa [List.zipIdx_map_fst] at h
  · rintro pre ⟨a, index⟩ post vs s' hl ⟨hg, ps, hI⟩
    have hargs : args = pre.map Prod.fst ++ a :: post.map Prod.fst := by
      have := congrArg (List.map Prod.fst) hl
      simpa [List.zipIdx_map_fst] using this
    refine (resolveArgument_leads h₀ hI a index).imp ?_ fun _ hf => hf.imp ?_
    · rintro v s'' ⟨hg', T, h'⟩
      exact ⟨hg.trans hg', ps ++ [T], by rw [List.map_append]; exact h'⟩
    · rintro ⟨htypes, hnodup, hfree⟩
      have ha : a ∈ args := by rw [hargs]; simp
      refine ⟨htypes a ha, hfree a ha, fun hmem => ?_⟩
      rw [hargs, List.map_append, List.map_cons, List.nodup_append] at hnodup
      exact hnodup.2.2 _ hmem _ List.mem_cons_self rfl

/-! ## The receiver -/

/-- The receiver of a method that the class `o` owns. -/
structure ReceiverOf (s : Resolver) (o : Option ClassId) (r : Option VariableId) : Prop where
  isSome_eq : r.isSome = o.isSome
  type : ∀ v, r = some v → ∃ c i x, o = some c ∧ s.program.classAt? c = some i ∧
    s.program.varAt? v = some x ∧ x.ty = i.ty

theorem ReceiverOf.mono (hg : s.Grows s') {r : Option VariableId} (h : s.ReceiverOf o r) :
    s'.ReceiverOf o r where
  isSome_eq := h.isSome_eq
  type v hv := by
    obtain ⟨c, i, x, ho, hi, hx, hty⟩ := h.type v hv
    obtain ⟨i', hi', -, hty', -⟩ := hg.classes c i hi
    exact ⟨c, i', x, ho, hi', hg.vars v x hx, hty.trans hty'.symm⟩

/-- **Binding the receiver** of a method, if it has one. -/
theorem bindReceiver_leads (h : Filling s₀ s j p []) (ho : s.Owns u o owner) (m : MethodDecl) :
    Leads (bindReceiver j m o) s
      (fun r s' => s'.ReceiverOf o r ∧
        Filling s₀ s' j p (owner.toList.map fun c => ("this", ⟨.ofClass c.name, true⟩)))
      fun _ => False := by
  match o, owner, ho with
  | none, none, _ => exact ⟨⟨rfl, nofun⟩, h⟩
  | some c, some decl, ⟨i, hi, hd⟩ =>
    have hname : decl.name = i.name := by simpa using List.find?_some hd
    unfold bindReceiver
    refine getClass_seq hi ?_
    have hT := h.sound.meaning?_class hi
    refine Leads.map ((h.bind_leads hT (by intro _ _; nofun)).imp ?_ ?_)
    · rintro v s' ⟨h', hg, -, hv⟩
      obtain ⟨i', hi', -, hty, -⟩ := hg.classes c _ hi
      refine ⟨⟨rfl, ?_⟩, ?_⟩
      · rintro _ ⟨⟩
        exact ⟨c, i', _, rfl, hi', hv, hty.symm⟩
      · rw [← hname] at h'
        exact h'
    · exact fun _ hr => hr.2 rfl

end Resolver

/-! ## Signatures -/

theorem MethodDecl.signature?_eq_some_iff {u : CompilationUnit} {m : MethodDecl} {sig : Signature} :
    m.signature? d u = some sig ↔
      m.arguments.map (fun a => a.type.denoted? d u) = sig.parameters.map some ∧
        m.result? d u = some sig.result := by
  unfold signature?
  rw [← mapM_eq_some_iff]
  obtain ⟨ps, T⟩ := sig
  cases hps : m.arguments.mapM fun a => a.type.denoted? d u with
  | none => simp
  | some ps' => cases hT : m.result? d u <;> simp

namespace Resolver

variable {s₀ s : Resolver} {d : Dialect} {u : CompilationUnit} {o : Option ClassId}
  {owner : Option ClassDecl} {j p : ScopeId} {names : Bindings}

/-- The scope around the block of a method. -/
theorem homeScope_leads (hs : s.Sound) (ho : s.Owns u o owner) :
    Leads (homeScope o) s
      (fun p s' => s = s' ∧ s.Home o p ∧ ∃ sc, s.program.scopeAt? p = some sc) fun _ => False := by
  match o, owner, ho with
  | none, none, _ => exact ⟨rfl, rfl, hs.global⟩
  | some c, some decl, ⟨i, hi, hd⟩ =>
    obtain ⟨sc, hsc, -⟩ := (hs.classes c i hi).scope
    refine getClass_seq hi ?_
    exact ⟨rfl, ⟨_, hi, rfl⟩, sc, hsc⟩

/-- A new block, with nothing bound in it yet. -/
theorem newBlock_leads (hs : s.Sound) {sp : Scope} (hp : s.program.scopeAt? p = some sp) :
    Leads (Resolve.pushScope .block p) s (fun j s' => Filling s s' j p []) fun _ => False := by
  have hmethods : Leads (Resolve.pushScope .block p) s
      (fun _ s' => s'.program.methods = s.program.methods) fun _ => False := rfl
  refine ((pushScope_leads hs hp).and hmethods).post ?_
  rintro j s' ⟨⟨hf, hs', hfresh, -, hsc⟩, hm⟩
  exact ⟨hf, hfresh, hs', hm, _, hsc, rfl, rfl, fun n => by simp [Scope.empty]⟩

/-- **Resolving the type a method gives.** -/
theorem Filling.result_leads (h : Filling s₀ s j p names) (h₀ : s₀.Grounded u) (m : MethodDecl) :
    Leads (resolveResult d j m.result) s
      (fun ty s' => Filling s₀ s' j p names ∧ s.Grows s' ∧
        ∃ T, s'.registry.meaning? ty = some T ∧ m.result? d u = some T)
      (Refused (m.result? d u).isSome) := by
  unfold MethodDecl.result?
  cases m.result with
  | none => exact ⟨h, .refl s, _, Registry.meaning?_native h.sound.registry .void, rfl⟩
  | some type => exact h.type_leads h₀ type

/-- **Storing what has been resolved of a method** makes it ready. -/
theorem Filling.setMethod {l : MethodId} {m : MethodDecl} {receiver : Option VariableId}
    {vs : List VariableId} {ps : List Ty} {result : TypeId} {T : Ty} (hs₀ : s₀.Sound)
    (hl : s₀.program.methodAt? l = some (m.announce o)) (ho : s₀.Owns u o owner)
    (hp : s₀.Home o p)
    (h : BoundArgs s₀ s d u j p
      (owner.toList.map fun c => ("this", ⟨.ofClass c.name, true⟩)) m.arguments vs ps)
    (hr : s.ReceiverOf o receiver) (hT : s.registry.meaning? result = some T)
    (hresult : m.result? d u = some T) :
    let g := { m.announce o with
      result := result, arguments := vs, receiver := receiver, scope := some j }
    Frame s₀ (s.setMethod l g) none (some l) none ∧ (s.setMethod l g).Sound ∧
      (s.setMethod l g).Ready d u owner l m g j := by
  intro g
  have hs := h.filling.sound
  obtain ⟨sc, hsc, hblock, hpar, hm⟩ := h.filling.scope
  have hl' : s.program.methodAt? l = some (m.announce o) := h.filling.frame.keepsMethod hl
  have hmethods : ∀ m', s.program.methodAt? m' = s₀.program.methodAt? m' := by
    intro m'
    unfold Program.methodAt?
    rw [h.filling.methods]
  have hvs : ∀ v ∈ vs, ∃ x, s.program.varAt? v = some x := by
    intro v hv
    have hmem : s.tyOf? v ∈ ps.map some := h.types ▸ List.mem_map_of_mem hv
    obtain ⟨T', -, hT'⟩ := List.mem_map.1 hmem
    obtain ⟨x, hx, -⟩ := tyOf?_eq_some_iff.1 hT'.symm
    exact ⟨x, hx⟩
  have hold := hs.methods l _ hl'
  have hok : MethodOk s g :=
    { owner := hold.owner
      result := Registry.has_of_meaning? hs.registry hT
      argument := hvs
      receiver := hr.type
      scope := by
        rintro _ ⟨⟩
        exact ⟨sc, p, hsc, hblock, hpar, hp.mono h.filling.frame.toGrows⟩
      operand := hold.operand }
  have hf₁ : Frame s (s.setMethod l g) none (some l) none := Frame.setMethod hl' rfl rfl rfl rfl
  -- nobody has a scope that was not there before
  have hs₁ : (s.setMethod l g).Sound := by
    refine hs.setMethod hl' rfl rfl rfl hok (.inr fun m' g' hg' hj => ?_)
    rw [hmethods] at hg'
    obtain ⟨sc', -, hsc', -⟩ := (hs₀.methods m' g' hg').scope j hj
    rw [h.filling.fresh] at hsc'
    cases hsc'
  have hg : (s.setMethod l g).program.methodAt? l = some g :=
    (methodAt?_setMethod hl' g l).trans (if_pos rfl)
  refine ⟨(h.filling.frame.weaken (.inl rfl) (.inl rfl) (.inl rfl)).trans hf₁, hs₁, hg, rfl, rfl,
    hr.isSome_eq, ho.mono (h.filling.frame.toGrows.trans hf₁.toGrows), rfl, sc, ⟨ps, T⟩, ?_, ?_, ?_, ?_⟩
  · exact hf₁.keepsScope hsc
  · exact MethodDecl.signature?_eq_some_iff.2 ⟨h.written, hresult⟩
  · refine signatureOf?_eq_some_iff.2 ⟨g, hg, ?_, ?_⟩
    · exact hf₁.toGrows.map_tyOf? hs.registry hs₁.registry h.types
    · exact hf₁.toGrows.meaning? hs.registry hs₁.registry hT
  · exact hm.mono hf₁.toGrows hs hs₁ hsc

end Resolver

/-- Names that are free in the block of a method: in a class, `this` is not. -/
theorem lookup_receiver {owner : Option ClassDecl} {n : String} :
    (owner.toList.map fun c => ("this", (⟨.ofClass c.name, true⟩ : Binding))).lookup n = none ↔
      (owner.isSome = true → n ≠ "this") := by
  cases owner with
  | none => simp
  | some c =>
    rw [Option.toList_some, List.map_cons, List.map_nil, List.lookup_cons, List.lookup_nil]
    by_cases hn : n = "this"
    · simp [hn]
    · simp [hn, beq_eq_false_iff_ne.2 hn]

/-- **A signature is resolved if and only if the method is declared in order**, and then the method
is ready for its body. -/
theorem resolveSignature_leads {s : Resolver} {u : CompilationUnit} {o : Option ClassId}
    {owner : Option ClassDecl} {l : MethodId} {m : MethodDecl} (h : s.Grounded u)
    (hl : s.program.methodAt? l = some (m.announce o)) (ho : s.Owns u o owner) :
    Leads (resolveSignature d l m) s (fun _ s' => Frame s s' none (some l) none ∧ s'.Sound ∧
      m.Declared d u owner.isSome ∧
        ∃ g j, s.program.scopeAt? j = none ∧ s'.Ready d u owner l m g j)
      (Refused (m.Declared d u owner.isSome)) := by
  unfold resolveSignature
  refine getMethod_seq hl ?_
  refine (homeScope_leads h.sound ho).sure_seq ?_
  rintro p _ ⟨rfl, hp, sp, hsp⟩
  refine (newBlock_leads h.sound hsp).sure_seq fun j s₁ h₁ => ?_
  refine (bindReceiver_leads h₁ (ho.mono h₁.frame.toGrows) m).sure_seq ?_
  rintro receiver s₂ ⟨hr, h₂⟩
  refine (resolveArguments_leads h h₂ m.arguments).seq_imp (fun _ hf => hf.imp fun hm => ?_) ?_
  · refine ⟨hm.arguments, hm.distinct, fun a ha => lookup_receiver.2 fun hc heq => ?_⟩
    exact hm.notThis hc (heq ▸ List.mem_map_of_mem ha)
  rintro vs s₃ ⟨hg₃, ps, h₃⟩
  refine (h₃.filling.result_leads h m).seq_imp (fun _ hf => hf.imp fun hm => hm.result) ?_
  rintro result s₄ ⟨h₄, hg₄, T, hT, hresult⟩
  -- the result may have entered types, but the arguments keep theirs
  have h₄' : BoundArgs s s₄ d u j p _ m.arguments vs ps :=
    { h₃ with
      filling := h₄
      types := hg₄.map_tyOf? h₃.filling.sound.registry h₄.sound.registry h₃.types }
  -- what the rule for declarations asks has been found out on the way
  have hdeclared : m.Declared d u owner.isSome :=
    { arguments := by
        intro a ha
        have hmem : a.type.denoted? d u ∈ ps.map some := h₃.written ▸ List.mem_map_of_mem ha
        obtain ⟨T', -, hT'⟩ := List.mem_map.1 hmem
        rw [← hT']; rfl
      result := by rw [hresult]; rfl
      distinct := h₃.distinct
      notThis := by
        intro hc hmem
        obtain ⟨a, ha, hname⟩ := List.mem_map.1 hmem
        exact lookup_receiver.1 (h₃.free a ha) hc hname }
  obtain ⟨hf, hs', hready⟩ :=
    Filling.setMethod h.sound hl ho hp h₄' (hr.mono (hg₃.trans hg₄)) hT hresult
  refine updateMethod_leads (h₄.frame.keepsMethod hl) ?_
  exact ⟨hf, hs', hdeclared, _, j, h₁.fresh, hready⟩

end ClassLang
