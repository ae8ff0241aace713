import ClassLang.Proofs.StmtTyping

/-!
# The native operators are installed

Before anything of a unit is declared, the native types get their operators. `installOperators_leads`:
this cannot fail, and afterwards the state is sound, every native type lists exactly its operators
with their signatures, and nothing else has been entered.
-/

namespace ClassLang

open Resolver Resolve

theorem Registry.initial_types :
    Registry.initial.types = (Native.all.map fun k => TypeEntry.mk (.native k) []).toArray := by
  rfl

theorem Registry.initial_indexed : Registry.initial.Indexed := by
  have hempty : Registry.Indexed ⟨#[], ∅, ∅⟩ := fun k id =>
    iff_of_false (fun h => Option.some_ne_none id (h.symm.trans Std.TreeMap.getElem?_emptyc))
      (Option.some_ne_none k).symm
  exact List.foldlRecOn Native.all _ hempty fun r hr k _ => hr.intern (.native k)

theorem Registry.initial_className? (c : ClassId) : Registry.initial.className? c = none :=
  Std.TreeMap.getElem?_emptyc

theorem Registry.initial_kind? {id : TypeId} {k : TypeKind}
    (h : Registry.initial.kind? id = some k) : ∃ n : Native, k = .native n ∧ id = n.id := by
  obtain ⟨i⟩ := id
  match i, h with
  | 0, h => cases h; exact ⟨.void, rfl, rfl⟩
  | 1, h => cases h; exact ⟨.boolean, rfl, rfl⟩
  | 2, h => cases h; exact ⟨.integer, rfl, rfl⟩
  | 3, h => cases h; exact ⟨.int8, rfl, rfl⟩
  | 4, h => cases h; exact ⟨.int16, rfl, rfl⟩
  | 5, h => cases h; exact ⟨.int32, rfl, rfl⟩
  | 6, h => cases h; exact ⟨.int64, rfl, rfl⟩
  | i + 7, h => cases h

theorem Registry.initial_sound : Registry.initial.Sound where
  natives k := by cases k <;> rfl
  descends id k t h ht := by
    obtain ⟨n, rfl, -⟩ := Registry.initial_kind? h
    cases ht
  indexed := Registry.initial_indexed

theorem Registry.initial_members {id : TypeId} {e : TypeEntry}
    (h : Registry.initial.entry? id = some e) : e.members = [] := by
  have hmem := Array.mem_of_getElem? h
  simp only [Registry.initial_types, List.mem_toArray, List.mem_map] at hmem
  obtain ⟨k, -, rfl⟩ := hmem
  rfl

namespace Resolver

theorem initial_scope {j : ScopeId} {sc : Scope} (h : initial.program.scopeAt? j = some sc) :
    j = ScopeTree.globalId ∧ sc = .empty .global none := by
  obtain ⟨i⟩ := j
  match i, h with
  | 0, h => cases h; exact ⟨rfl, rfl⟩
  | i + 1, h => cases h

/-- **The first state is sound.** -/
theorem initial_sound : initial.Sound where
  registry := Registry.initial_sound
  named c n h := by
    rw [show initial.registry.className? c = none from Registry.initial_className? c] at h
    cases h
  classType id c h := by
    obtain ⟨n, hn, -⟩ := Registry.initial_kind? h
    cases hn
  member id e n m he hm := by rw [Registry.initial_members he] at hm; cases hm
  classes c i h := by simp [initial, Program.initial, Program.classAt?] at h
  methods m g h := by simp [initial, Program.initial, Program.methodAt?] at h
  vars v x h := by simp [initial, Program.initial, Program.varAt?] at h
  scopes j sc h := by
    obtain ⟨rfl, rfl⟩ := initial_scope h
    exact
      { root := by simp [Scope.empty]
        parent := by simp [Scope.empty]
        inside := by simp [Scope.empty]
        ofClass := by simp [Scope.empty]
        var := by simp [Scope.empty]
        method := by simp [Scope.empty]
        type := by simp [Scope.empty] }
  global := ⟨_, rfl⟩
  className n c h := by simp [initial, Program.initial] at h
  function n m h := by simp [initial, Program.initial] at h
  own m m' g g' j h := by simp [initial, Program.initial, Program.methodAt?] at h

/-- The native types list the operators `ops`, and nothing else is there. -/
structure Installing (s : Resolver) (ops : Native → List NativeOperator) : Prop where
  sound : s.Sound
  operators : ∀ (k : Native) e, s.registry.entry? k.id = some e →
    e.members.map (fun p => (p.1, s.signatureOf? p.2)) =
      (ops k).map fun op => (op.symbol, some (op.signature k))
  operator : ∀ (k : Native) e p, s.registry.entry? k.id = some e → p ∈ e.members →
    ∃ g, s.program.methodAt? p.2 = some g ∧ g.isOperator = true
  types : ∀ id k, s.registry.kind? id = some k → ∃ n, k = .native n
  methods : ∀ m g, s.program.methodAt? m = some g → g.scope = none ∧ g.body = none
  classes : s.program.classes = #[]
  scopes : s.program.scopes = .initial
  tables : s.program.classNames = ∅ ∧ s.program.functions = ∅

theorem initial_installing : initial.Installing fun _ => [] where
  sound := initial_sound
  operators k e h := by rw [show e.members = [] from Registry.initial_members h]; rfl
  operator k e p h hp := by rw [show e.members = [] from Registry.initial_members h] at hp; cases hp
  types id k h := by
    obtain ⟨n, hn, -⟩ := Registry.initial_kind? h
    exact ⟨n, hn⟩
  methods m g h := by simp [initial, Program.initial, Program.methodAt?] at h
  classes := rfl
  scopes := rfl
  tables := ⟨rfl, rfl⟩

/-- The method of an operator. -/
def operatorMethod (k : Native) (op : NativeOperator) (arguments : List VariableId) : Method :=
  ⟨op.symbol, none, op.result.id, arguments, none, none, none, .operator op.symbol k.id, .nowhere⟩

/-- Adding the method of an operator whose argument is there. -/
theorem Installing.addMethod {s : Resolver} {ops : Native → List NativeOperator}
    (h : s.Installing ops) {k : Native} {op : NativeOperator} {arguments : List VariableId}
    (hargs : ∀ v ∈ arguments, ∃ x, s.program.varAt? v = some x)
    (htys : arguments.map s.tyOf? = (op.signature k).parameters.map some) :
    Leads (do
      let m ← Resolve.addMethod (operatorMethod k op arguments)
      addMember k.id op.symbol m) s
      (fun _ s' => s'.Installing fun k' => if k' = k then ops k ++ [op] else ops k')
      fun _ => False := by
  have hs := h.sound
  obtain ⟨e, he⟩ := Registry.has_iff_entry.1 (hs.registry.has_native k)
  have hok : MethodOk s (operatorMethod k op arguments) :=
    { owner := nofun
      result := hs.registry.has_native _
      argument := hargs
      receiver := nofun
      scope := nofun
      operand := by rintro _ _ ⟨⟩; exact ⟨hs.registry.has_native k, rfl⟩ }
  -- the state with the method, and then with the member
  have hs₁ := hs.pushMethod hok rfl
  have hf₁ : Frame s (s.pushMethod (operatorMethod k op arguments)) none none none :=
    Frame.pushMethod s rfl
  have hm₁ : (s.pushMethod (operatorMethod k op arguments)).program.methodAt? s.nextMethod =
      some (operatorMethod k op arguments) := (methodAt?_pushMethod _ _).trans (if_pos rfl)
  have he₁ : (s.pushMethod (operatorMethod k op arguments)).registry.entry? k.id = some e := he
  have hs₂ := hs₁.withMember he₁ hm₁ (show (operatorMethod k op arguments).name = op.symbol from rfl)
  have hg₂ := Grows.withMember he₁ op.symbol s.nextMethod
  have hentry := Registry.entry?_withMember he₁ op.symbol s.nextMethod
  have hkind := Registry.kind?_withMember he₁ op.symbol s.nextMethod
  show Leads (addMember k.id op.symbol s.nextMethod) (s.pushMethod (operatorMethod k op arguments))
    _ _
  refine addMember_leads he₁ ?_
  generalize (s.pushMethod (operatorMethod k op arguments)).registry.withMember k.id e op.symbol
    s.nextMethod = r at *
  -- old methods keep their signatures, the new one has that of the operator
  have old : ∀ m sig, s.signatureOf? m = some sig →
      ((s.pushMethod (operatorMethod k op arguments)).withRegistry r).signatureOf? m = some sig := by
    intro m sig hsig
    have h₁ := hf₁.signatureOf? hs hs₁ nofun hsig
    obtain ⟨g, hg, -⟩ := signatureOf?_eq_some_iff.1 h₁
    exact hg₂.signatureOf? hs₁.registry hs₂.registry hg hg rfl rfl h₁
  have new : ((s.pushMethod (operatorMethod k op arguments)).withRegistry r).signatureOf?
      s.nextMethod = some (op.signature k) := by
    refine hg₂.signatureOf? hs₁.registry hs₂.registry hm₁ hm₁ rfl rfl
      (signatureOf?_eq_some_iff.2 ⟨_, hm₁, ?_, ?_⟩)
    · exact hf₁.toGrows.map_tyOf? hs.registry hs₁.registry htys
    · exact Registry.meaning?_native hs₁.registry op.result
  have kept : ∀ k' e₀, s.registry.entry? (Native.id k') = some e₀ →
      e₀.members.map (fun p => (p.1, Resolver.signatureOf? ((s.pushMethod
        (operatorMethod k op arguments)).withRegistry r) p.2)) =
        (ops k').map fun op => (op.symbol, some (op.signature k')) := by
    intro k' e₀ he₀
    rw [← h.operators k' e₀ he₀]
    refine List.map_congr_left fun p hp => ?_
    obtain ⟨g, hg, -⟩ := h.operator k' e₀ p he₀ hp
    obtain ⟨sig, -, hsig, -⟩ := hs.signatureOf?_isSome hg
    rw [hsig, old p.2 sig hsig]
  refine
    { sound := hs₂, operators := ?_, operator := ?_, types := ?_, methods := ?_
      classes := h.classes, scopes := h.scopes, tables := h.tables }
  · intro k' e' he'
    have he'' := (hentry k'.id).symm.trans he'
    by_cases hk : k' = k
    · subst hk
      rw [if_pos rfl] at he''
      cases he''
      rw [if_pos rfl, List.map_append, List.map_append, kept k' e he]
      simp only [List.map_cons, List.map_nil, new]
    · have hne : k'.id ≠ k.id := fun h => hk (hs.registry.native_injective h)
      rw [if_neg hne] at he''
      rw [if_neg hk]
      exact kept k' e' he''
  · intro k' e' p he' hp
    have he'' := (hentry k'.id).symm.trans he'
    split at he''
    · cases he''
      rcases List.mem_append.1 hp with hp | hp
      · obtain ⟨g, hg, hop⟩ := h.operator k e p he hp
        exact ⟨g, methodAt?_pushMethod_of_some hg, hop⟩
      · cases List.mem_singleton.1 hp
        exact ⟨_, hm₁, rfl⟩
    · obtain ⟨g, hg, hop⟩ := h.operator k' e' p he'' hp
      exact ⟨g, methodAt?_pushMethod_of_some hg, hop⟩
  · intro id k' hk'
    exact h.types id k' ((hkind id).symm.trans hk')
  · intro m g hg
    have hg' := (methodAt?_pushMethod (s := s) _ m).symm.trans hg
    split at hg'
    · cases hg'; exact ⟨rfl, rfl⟩
    · exact h.methods m g hg'

/-- **One operator more** is installed. -/
theorem addOperator_leads {s : Resolver} {ops : Native → List NativeOperator}
    (h : s.Installing ops) (k : Native) (op : NativeOperator) :
    Leads (addOperator k op) s
      (fun _ s' => s'.Installing fun k' => if k' = k then ops k ++ [op] else ops k')
      fun _ => False := by
  unfold addOperator
  cases hb : op.binary with
  | false =>
    refine h.addMethod nofun ?_
    simp [NativeOperator.signature, hb]
  | true =>
    -- the right operand has the type of the left one
    have hs := h.sound
    have hx : VarOk s ⟨"rhs", k.id, .argument 0, none, .nowhere⟩ :=
      ⟨hs.registry.has_native k, nofun⟩
    have hs₁ := hs.pushVar hx
    have hf₁ := Frame.pushVar s ⟨"rhs", k.id, .argument 0, none, .nowhere⟩
    have hv : (s.pushVar ⟨"rhs", k.id, .argument 0, none, .nowhere⟩).program.varAt? s.nextVar =
        some ⟨"rhs", k.id, .argument 0, none, .nowhere⟩ := (varAt?_pushVar _ _).trans (if_pos rfl)
    have h₁ : (s.pushVar ⟨"rhs", k.id, .argument 0, none, .nowhere⟩).Installing ops :=
      { sound := hs₁
        operators := by
          intro k' e he
          rw [← h.operators k' e he]
          refine List.map_congr_left fun p hp => ?_
          obtain ⟨g, hg, -⟩ := h.operator k' e p he hp
          obtain ⟨sig, -, hsig, -⟩ := hs.signatureOf?_isSome hg
          rw [hsig, hf₁.signatureOf? hs hs₁ nofun hsig]
        operator := h.operator
        types := h.types
        methods := h.methods
        classes := h.classes
        scopes := h.scopes
        tables := h.tables }
    have hargs : ∀ v ∈ [s.nextVar], ∃ x,
        (s.pushVar ⟨"rhs", k.id, .argument 0, none, .nowhere⟩).program.varAt? v = some x := by
      intro v hv'
      cases List.mem_singleton.1 hv'
      exact ⟨_, hv⟩
    have hty := tyOf?_eq_some_iff.2 ⟨_, hv, Registry.meaning?_native hs₁.registry k⟩
    have htys : (op.signature k).parameters.map some = [some (.native k)] := by
      simp [NativeOperator.signature, hb]
    exact h₁.addMethod hargs ((congrArg (· :: []) hty).trans htys.symm)

/-- Through the operators of one native type. -/
theorem addOperators_leads {s : Resolver} {pre : List Native} {k : Native} (hk : k ∉ pre)
    (h : s.Installing fun k' => if k' ∈ pre then k'.operators else []) :
    Leads (k.operators.forM (addOperator k)) s
      (fun _ s' => s'.Installing fun k' => if k' ∈ pre ++ [k] then k'.operators else [])
      fun _ => False := by
  have h0 : s.Installing fun k' =>
      if k' = k then [] else if k' ∈ pre then k'.operators else [] := by
    refine cast (congrArg s.Installing (funext fun k' => ?_)) h
    by_cases hk' : k' = k
    · subst hk'; simp [hk]
    · simp [hk']
  have run := Leads.forM (l := k.operators) (f := addOperator k) (E := fun _ => False)
    (fun ops s => s.Installing fun k' =>
      if k' = k then ops else if k' ∈ pre then k'.operators else []) h0 ?_
  · refine run.post (fun _ s h => ?_)
    refine cast (congrArg s.Installing (funext fun k' => ?_)) h
    by_cases hk' : k' = k
    · subst hk'; simp
    · simp [hk']
  · intro ops op rest s _ hI
    refine (addOperator_leads hI k op).post (fun _ s h => ?_)
    refine cast (congrArg s.Installing (funext fun k' => ?_)) h
    by_cases hk' : k' = k <;> simp [hk']

/-- **Installing the operators cannot fail**, and gives every native type exactly its own. -/
theorem installOperators_leads {s : Resolver} (hs : s = initial) : Leads installOperators s
    (fun _ s' => s'.Installing Native.operators) fun _ => False := by
  have hall : ∀ k : Native, k ∈ Native.all := by intro k; cases k <;> decide
  have hnodup : Native.all.Nodup := by decide
  unfold installOperators
  generalize Native.all = natives at *
  have h0 : s.Installing fun k => if k ∈ ([] : List Native) then k.operators else [] := by
    rw [hs]
    simpa using initial_installing
  have run := Leads.forM (l := natives) (f := fun k => k.operators.forM (addOperator k))
    (E := fun _ => False)
    (fun pre s => s.Installing fun k => if k ∈ pre then k.operators else []) h0 ?_
  · refine run.post (fun _ s h => ?_)
    simpa only [hall, if_true] using h
  · intro pre k post s hsplit hI
    refine addOperators_leads ?_ hI
    rw [hsplit] at hnodup
    exact fun hk => (List.nodup_append.1 hnodup).2.2 k hk k List.mem_cons_self rfl

theorem Installing.installed {s : Resolver} (h : s.Installing Native.operators) : s.Installed where
  operators := h.operators
  operator := h.operator
  bare id e he hp := by
    have hk : s.registry.kind? id = some e.kind := by
      unfold Registry.kind?
      rw [he]; rfl
    obtain ⟨n, hn⟩ := h.types id _ hk
    rw [hn] at hp
    cases hp

end Resolver

end ClassLang
