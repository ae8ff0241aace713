import ClassLang.Proofs.Placement

/-!
# Passes keep the places of variables

The passes over a unit add variables together with the scopes that bind them.

* `KeepsPlaces`: variables have their places throughout a computation, whatever the state it starts
  from.
* `declare_places`: so it is in the first pass, in which no blocks are added.
* `resolveSignature_places`: the block of a signature gets its method when the signature is done.
* `resolveClass_places`: so all blocks of a class have methods.
-/

namespace ClassLang

open Resolver Resolve

variable {s : Resolver} {d : Dialect}

/-! ## Computations that keep places -/

/-- Wherever variables have their places, they have them after this as well. -/
def KeepsPlaces {α : Type} (m : Resolve α) : Prop :=
  ∀ s loose, s.program.Placed loose →
    Gives m s (fun _ s' => s'.program.Placed loose)

namespace KeepsPlaces

variable {α β γ : Type} {m : Resolve α} {k : α → Resolve β} {l : List γ}

theorem of_steady (h : Steady m) : KeepsPlaces m := fun s loose hp =>
  (h s).post (fun _ s' hk => by rw [hk.1]; exact hp)

theorem pure (a : α) : KeepsPlaces (Pure.pure a) := of_steady (.pure a)

theorem ask (f : Resolver → Except Diagnostic α) : KeepsPlaces (Resolve.ask f) := of_steady (.ask f)

theorem refuse (cause : Cause) (span : Span) : KeepsPlaces (Resolve.refuse cause span : Resolve α) :=
  of_steady (.refuse cause span)

theorem seq (h : KeepsPlaces m) (hk : ∀ a, KeepsPlaces (k a)) : KeepsPlaces (m >>= k) :=
  fun s loose hp => (h s loose hp).seq fun a s' hp' => hk a s' loose hp'

theorem map {f : α → β} (h : KeepsPlaces m) : KeepsPlaces (f <$> m) :=
  fun s loose hp => Leads.map (R := fun _ (s' : Resolver) => s'.program.Placed loose) (h s loose hp)

theorem ite {c : Prop} [Decidable c] {m' : Resolve α} (h : KeepsPlaces m) (h' : KeepsPlaces m') :
    KeepsPlaces (if c then m else m') := by
  split
  · exact h
  · exact h'

theorem forM {f : γ → Resolve PUnit} (h : ∀ a, KeepsPlaces (f a)) :
    KeepsPlaces (l.forM f) := fun _ loose hp =>
  Leads.forM (fun _ s' => s'.program.Placed loose) hp fun _ a _ s' _ hp' => h a s' loose hp'

theorem mapM {f : γ → Resolve β} (h : ∀ a, KeepsPlaces (f a)) :
    KeepsPlaces (l.mapM f) := fun _ loose hp =>
  Leads.mapM (fun _ _ s' => s'.program.Placed loose) hp fun _ a _ _ s' _ hp' => h a s' loose hp'

theorem foldlM {f : β → γ → Resolve β} {b : β} (h : ∀ b a, KeepsPlaces (f b a)) :
    KeepsPlaces (l.foldlM f b) := fun _ loose hp =>
  Leads.foldlM (fun _ _ s' => s'.program.Placed loose) hp
    fun _ a _ b s' _ hp' => h b a s' loose hp'

/-- Changes of the program that fail or leave variables, scopes and methods alone. -/
theorem update {f : Program → Except Diagnostic Program}
    (h : ∀ p p', f p = .ok p' → p'.vars = p.vars ∧ p'.scopes = p.scopes ∧ p'.methods = p.methods) :
    KeepsPlaces (updateProgram f) := by
  intro s loose hp
  refine updateProgram_leads ?_
  unfold Yields
  cases hf : f s.program with
  | error _ => trivial
  | ok p =>
    obtain ⟨hvars, hscopes, hmethods⟩ := h _ _ hf
    exact hp.keepScopes hvars hscopes (.of_eq hmethods)

end KeepsPlaces

theorem updateClass_places (c : ClassId) (f : ClassInfo → ClassInfo) :
    KeepsPlaces (updateProgram fun p => p.updateClass c f) := by
  refine .update fun p p' h => ?_
  obtain ⟨i, -, hok⟩ := exists_of_bind_eq_ok h
  cases hok
  exact ⟨rfl, rfl, rfl⟩

theorem addMember_places (id : TypeId) (n : String) (m : MethodId) :
    KeepsPlaces (addMember id n m) :=
  (KeepsPlaces.ask _).seq fun _ _ _ hp => hp

/-- **What binding a variable does**, if it succeeds. -/
theorem bindVariable_runs {j : ScopeId} {n : String} {ty : TypeId} {kind : VariableKind}
    {span : Span} : Gives (bindVariable j n ty kind span) s
      (fun v s' => ∃ sc, s.program.scopeAt? j = some sc ∧ sc.vars[n]? = none ∧ v = s.nextVar ∧
        s' = s.bindVar j sc ⟨n, ty, kind, none, span⟩) := by
  unfold bindVariable
  show Leads (updateScopes _ >>= fun _ => pure s.nextVar) (s.pushVar _) _ _
  refine Leads.seq (Q := fun _ s' => ∃ sc, s.program.scopeAt? j = some sc ∧ sc.vars[n]? = none ∧
      s' = s.bindVar j sc ⟨n, ty, kind, none, span⟩) (E := fun _ => True) ?_ ?_
  · refine updateScopes_leads ?_
    rcases ScopeTree.declare_cases .ofVariables j n s.nextVar span s.program.scopes with
      ⟨sc, hj, hn, hrun⟩ | ⟨f, hrun, -⟩
    · exact Leads.of_run_ok hrun ⟨sc, hj, hn, rfl⟩
    · exact Leads.of_run_error hrun trivial
  · rintro _ _ ⟨sc, hj, hn, rfl⟩
    exact Leads.pure ⟨sc, hj, hn, rfl, rfl⟩

theorem bindVariable_places (j : ScopeId) (n : String) (ty : TypeId) (kind : VariableKind)
    (span : Span) : KeepsPlaces (bindVariable j n ty kind span) := by
  intro s loose hp
  refine bindVariable_runs.post ?_
  rintro v _ ⟨sc, hj, hn, -, rfl⟩
  exact placed_bindVar hp hj hn

/-- Names of methods and types are bound without a change of places. -/
theorem declareName_places {α : Type} {names : Scope.Names α} {j : ScopeId} {n : String} {a : α}
    {span : Span} (hkeep : ∀ sc table, (names.replace sc table).kind = sc.kind ∧
      (names.replace sc table).vars = sc.vars) :
    KeepsPlaces (updateScopes (ScopeTree.declare names j n a span)) := by
  intro s loose hp
  refine updateScopes_leads ?_
  rcases ScopeTree.declare_cases names j n a span s.program.scopes with
    ⟨sc, hj, -, hrun⟩ | ⟨f, hrun, -⟩
  · exact Leads.of_run_ok hrun (placed_setScope hp hj (hkeep _ _).1 (hkeep _ _).2)
  · exact Leads.of_run_error hrun trivial

theorem declareMethod_places (j : ScopeId) (n : String) (m : MethodId) (span : Span) :
    KeepsPlaces (updateScopes (ScopeTree.declareMethod j n m span)) :=
  declareName_places fun _ _ => ⟨rfl, rfl⟩

theorem declareType_places (j : ScopeId) (n : String) (ty : TypeId) (span : Span) :
    KeepsPlaces (updateScopes (ScopeTree.declareType j n ty span)) :=
  declareName_places fun _ _ => ⟨rfl, rfl⟩

theorem pushScope_runs (kind : ScopeKind) (parent : ScopeId) (s : Resolver) :
    Gives (Resolve.pushScope kind parent) s
      (fun j s' => j = s.nextScope ∧ s' = s.pushScope (.empty kind (some parent))) := ⟨rfl, rfl⟩

theorem addMethod_runs (g : Method) (s : Resolver) : Gives (Resolve.addMethod g) s
    (fun l s' => l = s.nextMethod ∧ s' = s.pushMethod g) := ⟨rfl, rfl⟩

/-! ## The first pass -/

theorem addOperator_places (k : Native) (op : NativeOperator) : KeepsPlaces (addOperator k op) := by
  intro s loose hp
  unfold addOperator
  cases op.binary with
  | false =>
    show Leads (addMember _ _ _) (s.pushMethod _) _ _
    exact addMember_places _ _ _ _ _ (hp.keepScopes rfl rfl (keepsOwners_pushMethod _))
  | true =>
    show Leads (addMember _ _ _) ((s.pushVar _).pushMethod _) _ _
    refine addMember_places _ _ _ _ _ (placed_operator hp rfl rfl ?_)
    exact List.mem_singleton_self _

theorem installOperators_places : KeepsPlaces installOperators :=
  .forM fun k => .forM (addOperator_places k)

/-- A new class scope is in its place. -/
theorem declareClass_places (d : Dialect) (known : Declarations) (c : ClassDecl) :
    KeepsPlaces (declareClass d known c) := by
  unfold declareClass
  refine .ite (.refuse _ _) ?_
  intro s loose hp
  apply Leads.get_seq
  have hclass : Gives (internClass s.program.nextClass c.name) s
      (fun _ s' => s'.program.Placed loose) := hp
  refine hclass.seq fun ty s₁ hp₁ => ?_
  refine (declareType_places _ _ _ _ s₁ loose hp₁).seq fun _ s₂ hp₂ => ?_
  refine Leads.seq (Q := fun _ s' => s'.program.Placed loose) (E := fun _ => True) ?_
    fun j s₃ hp₃ => hp₃.keepScopes rfl rfl (.of_eq rfl)
  exact (placed_pushScope hp₂).weaken fun j hj => hj.resolve_right fun h => nomatch h.1

theorem declareFunction_places (known : Declarations) (f : MethodDecl) :
    KeepsPlaces (declareFunction known f) := by
  unfold declareFunction
  refine .ite (.refuse _ _) ?_
  intro s loose hp
  have hadd : Gives (addFunction (f.announce none)) s (fun _ s' => s'.program.Placed loose) := by
    have hkeeps : s.program.KeepsOwners (s.pushFunction (f.announce none)).program :=
      keepsOwners_pushMethod _
    exact Program.Placed.keepScopes hp rfl rfl hkeeps
  refine hadd.seq fun id s₁ hp₁ => ?_
  exact ((declareMethod_places _ _ _ _).seq fun _ => .pure _) s₁ loose hp₁

theorem declare_places (d : Dialect) (u : CompilationUnit) : KeepsPlaces (declare d u) := by
  refine .foldlM fun known decl => ?_
  cases decl with
  | ofClass c => exact (declareClass_places d known c).seq fun _ => .pure _
  | ofFunction f => exact (declareFunction_places known f).seq fun _ => .pure _

/-! ## The second pass -/

theorem resolveFields_places (d : Dialect) (decl : ClassDecl) (c : ClassId) :
    KeepsPlaces (resolveFields d decl c) := by
  refine (KeepsPlaces.ask _).seq fun i => .forM fun q => ?_
  refine (KeepsPlaces.ask _).seq fun info => .ite (.refuse _ _) ?_
  refine (KeepsPlaces.of_steady (q.1.type.resolve_steady d _)).seq fun ty => ?_
  exact (bindVariable_places _ _ _ _ _).seq fun v => updateClass_places _ _

theorem bindReceiver_places (j : ScopeId) (m : MethodDecl) (o : Option ClassId) :
    KeepsPlaces (bindReceiver j m o) := by
  cases o with
  | none => exact .pure _
  | some c => exact (KeepsPlaces.ask _).seq fun i => (bindVariable_places _ _ _ _ _).map

theorem resolveArguments_places (d : Dialect) (j : ScopeId) (args : List ArgumentDecl) :
    KeepsPlaces (args.zipIdx.mapM fun (a, index) => resolveArgument d j a index) := by
  refine .mapM fun q => ?_
  exact (KeepsPlaces.of_steady (q.1.type.resolve_steady d j)).seq
    fun ty => bindVariable_places _ _ _ _ _

theorem resolveResult_steady (d : Dialect) (j : ScopeId) (result : Option TypeName) :
    Steady (resolveResult d j result) := by
  cases result with
  | none => exact .pure _
  | some type => exact type.resolve_steady d j

theorem homeScope_steady (o : Option ClassId) : Steady (homeScope o) := by
  cases o with
  | none => exact .pure _
  | some c => exact (Steady.ask _).seq fun _ => .pure _

/-! While a signature is resolved, methods stay as they are. -/

/-- A computation that leaves all methods alone. -/
def KeepsMethods {α : Type} (m : Resolve α) : Prop :=
  ∀ s, Gives m s (fun _ s' => s'.program.methods = s.program.methods)

namespace KeepsMethods

variable {α β γ : Type} {m : Resolve α} {k : α → Resolve β}

theorem of_steady (h : Steady m) : KeepsMethods m := fun s =>
  (h s).post (fun _ s' hk => by rw [hk.1])

theorem seq (h : KeepsMethods m) (hk : ∀ a, KeepsMethods (k a)) : KeepsMethods (m >>= k) :=
  fun s => (h s).seq fun a s' h' =>
    (hk a s').post (fun _ _ h'' => h''.trans h')

theorem map {f : α → β} (h : KeepsMethods m) : KeepsMethods (f <$> m) :=
  fun s => Leads.map (R := fun _ (s' : Resolver) => s'.program.methods = s.program.methods) (h s)

theorem ite {c : Prop} [Decidable c] {m' : Resolve α} (h : KeepsMethods m)
    (h' : KeepsMethods m') : KeepsMethods (if c then m else m') := by
  split
  · exact h
  · exact h'

theorem forM {f : γ → Resolve PUnit} {l : List γ} (h : ∀ a, KeepsMethods (f a)) :
    KeepsMethods (l.forM f) := fun s =>
  Leads.forM (fun _ s' => s'.program.methods = s.program.methods) rfl
    fun _ a _ s' _ h' => (h a s').post (fun _ _ h'' => h''.trans h')

theorem mapM {f : γ → Resolve β} {l : List γ} (h : ∀ a, KeepsMethods (f a)) :
    KeepsMethods (l.mapM f) := fun s =>
  Leads.mapM (fun _ _ s' => s'.program.methods = s.program.methods) rfl
    fun _ a _ _ s' _ h' => (h a s').post (fun _ _ h'' => h''.trans h')

end KeepsMethods

/-- Binding the names of a signature leaves methods alone. -/
theorem bindReceiver_methods (j : ScopeId) (m : MethodDecl) (o : Option ClassId) :
    KeepsMethods (bindReceiver j m o) := by
  cases o with
  | none => exact .of_steady (.pure _)
  | some c => exact (KeepsMethods.of_steady (.ask _)).seq fun i => .map fun _ => bindVariable_methods

theorem resolveArguments_methods (d : Dialect) (j : ScopeId) (args : List ArgumentDecl) :
    KeepsMethods (args.zipIdx.mapM fun (a, index) => resolveArgument d j a index) := by
  refine .mapM fun q => ?_
  exact (KeepsMethods.of_steady (q.1.type.resolve_steady d j)).seq fun ty _ => bindVariable_methods

/-- **The block of a signature gets its method** when the signature is done. -/
theorem resolveSignature_places {l : MethodId} {m : MethodDecl} {o : Option ClassId}
    (hp : s.program.Placed fun _ => False) (hl : s.program.methodAt? l = some (m.announce o)) :
    Gives (resolveSignature d l m) s (fun _ s' => s'.program.Placed fun _ => False) := by
  unfold resolveSignature
  refine getMethod_seq hl ?_
  refine (homeScope_steady _ s).seq fun parent s₁ h₁ => ?_
  rw [← h₁.1] at hp hl
  -- the block has no method until the signature is stored
  have hblock : (s₁.pushScope (.empty .block (some parent))).program.Placed (· = s₁.nextScope) :=
    (placed_pushScope hp).weaken fun j hj => hj.elim False.elim And.right
  refine (pushScope_runs .block parent s₁).seq ?_
  rintro _ _ ⟨rfl, rfl⟩
  refine ((bindReceiver_places _ m o _ _ hblock).and (bindReceiver_methods _ m o _)).seq ?_
  rintro receiver s₂ ⟨hp₂, hm₂⟩
  refine ((resolveArguments_places d _ _ s₂ _ hp₂).and (resolveArguments_methods d _ _ s₂)).seq ?_
  rintro arguments s₃ ⟨hp₃, hm₃⟩
  refine (resolveResult_steady d _ _ s₃).seq fun result s₄ h₄ => ?_
  rw [← h₄.1] at hp₃ hm₃
  have hl₄ : s₄.program.methodAt? l = some (m.announce o) := by
    unfold Program.methodAt? at hl ⊢
    rw [hm₃, hm₂]
    exact hl
  exact updateMethod_leads hl₄
    (placed_setMethod hp₃ hl₄ MethodDecl.isOperator_announce rfl rfl)

theorem declareMethod_methods (j : ScopeId) (n : String) (m : MethodId) (span : Span) :
    KeepsMethods (updateScopes (ScopeTree.declareMethod j n m span)) :=
  fun _ => updateScopes_leads (Leads.of_forall fun _ _ => rfl)

theorem updateClass_methods (c : ClassId) (f : ClassInfo → ClassInfo) :
    KeepsMethods (updateProgram fun p => p.updateClass c f) := by
  intro s
  refine updateProgram_leads ?_
  unfold Program.updateClass
  exact (Yields.of_forall (Q := fun _ => True) fun _ => trivial).seq
    fun _ _ => Yields.pure rfl

theorem addMember_methods (id : TypeId) (n : String) (m : MethodId) :
    KeepsMethods (addMember id n m) :=
  (KeepsMethods.of_steady (.ask _)).seq fun _ _ => rfl

/-- A method of a class and its block. -/
theorem declareMethod_placed {c : ClassId} {m : MethodDecl} (hp : s.program.Placed fun _ => False) :
    Gives (declareMethod d c m) s (fun _ s' => s'.program.Placed fun _ => False) := by
  unfold declareMethod
  refine ask_any fun i => ?_
  split
  · exact refuse_leads trivial
  have hp₁ : (s.pushMethod (m.announce (some c))).program.Placed fun _ => False :=
    hp.keepScopes rfl rfl (keepsOwners_pushMethod _)
  have hl₁ : (s.pushMethod (m.announce (some c))).program.methodAt? s.nextMethod =
      some (m.announce (some c)) := (methodAt?_pushMethod _ _).trans (if_pos rfl)
  refine (addMethod_runs _ s).seq ?_
  rintro _ _ ⟨rfl, rfl⟩
  refine ((declareMethod_places _ _ _ _ _ _ hp₁).and (declareMethod_methods _ _ _ _ _)).seq ?_
  rintro _ s₂ ⟨hp₂, hm₂⟩
  refine ((updateClass_places _ _ _ _ hp₂).and (updateClass_methods _ _ s₂)).seq ?_
  rintro _ s₃ ⟨hp₃, hm₃⟩
  refine ((addMember_places _ _ _ _ _ hp₃).and (addMember_methods _ _ _ s₃)).seq ?_
  rintro _ s₄ ⟨hp₄, hm₄⟩
  have hl₄ : s₄.program.methodAt? s.nextMethod = some (m.announce (some c)) := by
    unfold Program.methodAt? at hl₁ ⊢
    rw [hm₄, hm₃, hm₂]
    exact hl₁
  exact (resolveSignature_places hp₄ hl₄).seq fun _ _ hp₅ => Leads.pure hp₅

/-- The fields and methods of a class have their places. -/
theorem resolveClass_places {c : ClassId} {decl : ClassDecl} (hp : s.program.Placed fun _ => False) :
    Gives (resolveClass d c decl) s (fun _ s' => s'.program.Placed fun _ => False) := by
  unfold resolveClass
  refine (resolveFields_places d decl c s _ hp).seq fun _ s₁ hp₁ => ?_
  have run := Leads.mapM (l := decl.methods) (s := s₁) (E := fun _ => True)
    (f := fun m => do return (m.name, (← declareMethod d c m), m))
    (fun _ _ s' => s'.program.Placed fun _ => False) hp₁ ?_
  · exact run.seq fun _ _ hp₂ => Leads.pure hp₂
  · intro pre m post answers s₂ _ hp₂
    exact (declareMethod_placed hp₂).seq fun _ _ hp₃ => Leads.pure hp₃

end ClassLang
