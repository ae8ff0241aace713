import ClassLang.Proofs.Registry
import ClassLang.Proofs.Scopes

/-!
# Sound states of resolution

A state is sound if every handle that it stores leads to something, and to something that fits: the
type of a class to a class type, a field to a variable of that class, a method's scope to a block in
the scope of its owner, and so on (`Resolver.Sound`).

What is asked of a single class, method, variable or scope stays true when the state grows
(`Resolver.Grows`). So a step keeps a state sound if what it enters or changes is as it has to be
(`Sound.step`).
-/

namespace ClassLang

namespace Program

/-- The class of a number. -/
def classAt? (p : Program) (c : ClassId) : Option ClassInfo := p.classes[c.index]?

/-- The method of a number. -/
def methodAt? (p : Program) (m : MethodId) : Option Method := p.methods[m.index]?

/-- The variable of a number. -/
def varAt? (p : Program) (v : VariableId) : Option Variable := p.vars[v.index]?

/-- The scope of a number. -/
def scopeAt? (p : Program) (j : ScopeId) : Option Scope := p.scopes.scopes[j.index]?

variable {p : Program}

theorem getClass_eq {c : ClassId} {i : ClassInfo} (h : p.classAt? c = some i) :
    p.getClass c = .ok i := by
  unfold getClass; unfold classAt? at h; rw [h]

theorem getMethod_eq {m : MethodId} {g : Method} (h : p.methodAt? m = some g) :
    p.getMethod m = .ok g := by
  unfold getMethod; unfold methodAt? at h; rw [h]

theorem getVariable_eq {v : VariableId} {x : Variable} (h : p.varAt? v = some x) :
    p.getVariable v = .ok x := by
  unfold getVariable; unfold varAt? at h; rw [h]

end Program

/-- A scope of the same kind and place that binds at least as much. -/
structure Scope.Grows (a b : Scope) : Prop where
  kind : b.kind = a.kind
  parent : b.parent = a.parent
  vars : ∀ (n : String) v, a.vars[n]? = some v → b.vars[n]? = some v
  methods : ∀ (n : String) m, a.methods[n]? = some m → b.methods[n]? = some m
  types : ∀ (n : String) ty, a.types[n]? = some ty → b.types[n]? = some ty

theorem Scope.Grows.refl (a : Scope) : a.Grows a :=
  ⟨rfl, rfl, fun _ _ h => h, fun _ _ h => h, fun _ _ h => h⟩

theorem Scope.Grows.trans {a b c : Scope} (h : a.Grows b) (h' : b.Grows c) : a.Grows c :=
  ⟨h'.kind.trans h.kind, h'.parent.trans h.parent, fun n v hv => h'.vars n v (h.vars n v hv),
    fun n m hm => h'.methods n m (h.methods n m hm), fun n ty ht => h'.types n ty (h.types n ty ht)⟩

/-- Which variables a scope of a given kind binds. -/
def ScopeKind.Binds : ScopeKind → VariableKind → Prop
  | .global, _ => False
  | .ofClass c, k => ∃ index, k = .field c index
  | .block, k => ∀ c index, k ≠ .field c index

namespace Resolver

/-- **The state grows**: what is there stays there, and stays the same in what does not get
resolved later. -/
structure Grows (s s' : Resolver) : Prop where
  types : ∀ id e, s.registry.entry? id = some e →
    ∃ e', s'.registry.entry? id = some e' ∧ e'.kind = e.kind ∧ e.members ⊆ e'.members
  names : ∀ c n, s.registry.className? c = some n → s'.registry.className? c = some n
  classes : ∀ c i, s.program.classAt? c = some i →
    ∃ i', s'.program.classAt? c = some i' ∧ i'.name = i.name ∧ i'.ty = i.ty ∧ i'.scope = i.scope
  methods : ∀ m g, s.program.methodAt? m = some g →
    ∃ g', s'.program.methodAt? m = some g' ∧ g'.name = g.name ∧ g'.owner = g.owner ∧
      g'.kind = g.kind
  vars : ∀ v x, s.program.varAt? v = some x → s'.program.varAt? v = some x
  scopes : ∀ j sc, s.program.scopeAt? j = some sc →
    ∃ sc', s'.program.scopeAt? j = some sc' ∧ sc.Grows sc'

theorem Grows.refl (s : Resolver) : s.Grows s where
  types _ e h := ⟨e, h, rfl, fun _ h => h⟩
  names _ _ h := h
  classes _ i h := ⟨i, h, rfl, rfl, rfl⟩
  methods _ g h := ⟨g, h, rfl, rfl, rfl⟩
  vars _ _ h := h
  scopes _ sc h := ⟨sc, h, .refl sc⟩

theorem Grows.trans {s s' s'' : Resolver} (h : s.Grows s') (h' : s'.Grows s'') :
    s.Grows s'' where
  types id e he := by
    obtain ⟨e', he', hk, hm⟩ := h.types id e he
    obtain ⟨e'', he'', hk', hm'⟩ := h'.types id e' he'
    exact ⟨e'', he'', hk'.trans hk, List.Subset.trans hm hm'⟩
  names c n hn := h'.names c n (h.names c n hn)
  classes c i hi := by
    obtain ⟨i', hi', hn, ht, hs⟩ := h.classes c i hi
    obtain ⟨i'', hi'', hn', ht', hs'⟩ := h'.classes c i' hi'
    exact ⟨i'', hi'', hn'.trans hn, ht'.trans ht, hs'.trans hs⟩
  methods m g hg := by
    obtain ⟨g', hg', hn, ho, hk⟩ := h.methods m g hg
    obtain ⟨g'', hg'', hn', ho', hk'⟩ := h'.methods m g' hg'
    exact ⟨g'', hg'', hn'.trans hn, ho'.trans ho, hk'.trans hk⟩
  vars v x hx := h'.vars v x (h.vars v x hx)
  scopes j sc hsc := by
    obtain ⟨sc', hsc', hg⟩ := h.scopes j sc hsc
    obtain ⟨sc'', hsc'', hg'⟩ := h'.scopes j sc' hsc'
    exact ⟨sc'', hsc'', hg.trans hg'⟩

variable {s s' : Resolver}

theorem Grows.kind? (h : s.Grows s') {id : TypeId} {k : TypeKind}
    (hk : s.registry.kind? id = some k) : s'.registry.kind? id = some k := by
  unfold Registry.kind? at *
  obtain ⟨e, he, rfl⟩ := Option.map_eq_some_iff.1 hk
  obtain ⟨e', he', hk', -⟩ := h.types id e he
  rw [he', Option.map_some, hk']

theorem Grows.has (h : s.Grows s') {id : TypeId} (hi : s.registry.Has id) :
    s'.registry.Has id := by
  obtain ⟨k, hk⟩ := Registry.has_iff.1 hi
  exact Registry.has_of_kind? (h.kind? hk)

theorem Grows.someClass (h : s.Grows s') {c : ClassId} (hc : ∃ i, s.program.classAt? c = some i) :
    ∃ i, s'.program.classAt? c = some i := by
  obtain ⟨i, hi⟩ := hc
  obtain ⟨i', hi', -⟩ := h.classes c i hi
  exact ⟨i', hi'⟩

/-- What is not there later was not there before. -/
theorem Grows.scopeAt?_eq_none (h : s.Grows s') {j : ScopeId}
    (hj : s'.program.scopeAt? j = none) : s.program.scopeAt? j = none := by
  cases hsc : s.program.scopeAt? j with
  | none => rfl
  | some sc =>
    obtain ⟨sc', hsc', -⟩ := h.scopes j sc hsc
    rw [hj] at hsc'
    cases hsc'

/-- The scope in which the members of `o` are named: a class's own scope, or the global one. -/
def Home (s : Resolver) (o : Option ClassId) (j : ScopeId) : Prop :=
  match o with
  | none => j = ScopeTree.globalId
  | some c => ∃ i, s.program.classAt? c = some i ∧ i.scope = j

theorem Home.mono (hg : s.Grows s') {o : Option ClassId} {j : ScopeId} (h : s.Home o j) :
    s'.Home o j := by
  cases o with
  | none => exact h
  | some c =>
    obtain ⟨i, hi, rfl⟩ := h
    obtain ⟨i', hi', -, -, hs⟩ := hg.classes c i hi
    exact ⟨i', hi', hs⟩

/-! ## What is asked of the single entries -/

/-- What is asked of a class. -/
structure ClassOk (s : Resolver) (c : ClassId) (i : ClassInfo) : Prop where
  kind : s.registry.kind? i.ty = some (.ofClass c)
  named : s.registry.className? c = some i.name
  declared : ∃ sc, s.program.scopeAt? ScopeTree.globalId = some sc ∧ sc.types[i.name]? = some i.ty
  scope : ∃ sc, s.program.scopeAt? i.scope = some sc ∧ sc.kind = .ofClass c
  field : ∀ (n : String) v, i.fields[n]? = some v →
    ∃ x k, s.program.varAt? v = some x ∧ x.kind = .field c k
  order : ∀ v ∈ i.fieldOrder, ∃ x, s.program.varAt? v = some x
  method : ∀ (n : String) m, i.methods[n]? = some m →
    ∃ g, s.program.methodAt? m = some g ∧ g.owner = some c

/-- What is asked of a method, its body apart. -/
structure MethodOk (s : Resolver) (g : Method) : Prop where
  owner : ∀ c, g.owner = some c → ∃ i, s.program.classAt? c = some i
  result : s.registry.Has g.result
  argument : ∀ v ∈ g.arguments, ∃ x, s.program.varAt? v = some x
  receiver : ∀ v, g.receiver = some v → ∃ c i x, g.owner = some c ∧
    s.program.classAt? c = some i ∧ s.program.varAt? v = some x ∧ x.ty = i.ty
  scope : ∀ j, g.scope = some j → ∃ sc p, s.program.scopeAt? j = some sc ∧ sc.kind = .block ∧
    sc.parent = some p ∧ s.Home g.owner p
  operand : ∀ symbol ty, g.kind = .operator symbol ty → s.registry.Has ty ∧ g.owner = none

/-- What is asked of a variable. -/
structure VarOk (s : Resolver) (x : Variable) : Prop where
  ty : s.registry.Has x.ty
  owner : ∀ c k, x.kind = .field c k → ∃ i, s.program.classAt? c = some i

/-- What is asked of a scope. -/
structure ScopeOk (s : Resolver) (j : ScopeId) (sc : Scope) : Prop where
  root : sc.kind = .global ↔ j = ScopeTree.globalId
  parent : ∀ p, sc.parent = some p → p.index < j.index
  inside : sc.parent = none ↔ j = ScopeTree.globalId
  ofClass : ∀ c, sc.kind = .ofClass c →
    sc.parent = some ScopeTree.globalId ∧ ∃ i, s.program.classAt? c = some i ∧ i.scope = j
  var : ∀ (n : String) v, sc.vars[n]? = some v → ∃ x, s.program.varAt? v = some x ∧ sc.kind.Binds x.kind
  method : ∀ (n : String) m, sc.methods[n]? = some m → ∃ g, s.program.methodAt? m = some g ∧
    s.Home g.owner j
  type : ∀ (n : String) ty, sc.types[n]? = some ty → j = ScopeTree.globalId ∧
    ∃ c i, s.program.classAt? c = some i ∧ i.name = n ∧ i.ty = ty

/-- A class stays in order while the state grows. -/
theorem ClassOk.mono (hg : s.Grows s') {c : ClassId} {i : ClassInfo} (h : ClassOk s c i) :
    ClassOk s' c i where
  kind := hg.kind? h.kind
  named := hg.names c i.name h.named
  declared := by
    obtain ⟨sc, hsc, hty⟩ := h.declared
    obtain ⟨sc', hsc', hgs⟩ := hg.scopes _ sc hsc
    exact ⟨sc', hsc', hgs.types _ _ hty⟩
  scope := by
    obtain ⟨sc, hsc, hk⟩ := h.scope
    obtain ⟨sc', hsc', hgs⟩ := hg.scopes _ sc hsc
    exact ⟨sc', hsc', hgs.kind.trans hk⟩
  field n v hv := by
    obtain ⟨x, k, hx, hk⟩ := h.field n v hv
    exact ⟨x, k, hg.vars v x hx, hk⟩
  order v hv := by
    obtain ⟨x, hx⟩ := h.order v hv
    exact ⟨x, hg.vars v x hx⟩
  method n m hm := by
    obtain ⟨g, hgm, ho⟩ := h.method n m hm
    obtain ⟨g', hg', -, ho', -⟩ := hg.methods m g hgm
    exact ⟨g', hg', ho'.trans ho⟩

/-- The type of a class has an entry. -/
theorem ClassOk.entry {c : ClassId} {i : ClassInfo} (h : ClassOk s c i) :
    ∃ e, s.registry.entry? i.ty = some e ∧ e.kind = .ofClass c := Option.map_eq_some_iff.1 h.kind

theorem MethodOk.mono (hg : s.Grows s') {g : Method} (h : MethodOk s g) : MethodOk s' g where
  owner c hc := hg.someClass (h.owner c hc)
  result := hg.has h.result
  argument v hv := by
    obtain ⟨x, hx⟩ := h.argument v hv
    exact ⟨x, hg.vars v x hx⟩
  receiver v hv := by
    obtain ⟨c, i, x, ho, hi, hx, hty⟩ := h.receiver v hv
    obtain ⟨i', hi', -, hty', -⟩ := hg.classes c i hi
    exact ⟨c, i', x, ho, hi', hg.vars v x hx, hty.trans hty'.symm⟩
  scope j hj := by
    obtain ⟨sc, p, hsc, hk, hp, hh⟩ := h.scope j hj
    obtain ⟨sc', hsc', hgs⟩ := hg.scopes j sc hsc
    exact ⟨sc', p, hsc', hgs.kind.trans hk, hgs.parent.trans hp, hh.mono hg⟩
  operand symbol ty hk := (h.operand symbol ty hk).imp_left hg.has

theorem VarOk.mono (hg : s.Grows s') {x : Variable} (h : VarOk s x) : VarOk s' x where
  ty := hg.has h.ty
  owner c k hk := hg.someClass (h.owner c k hk)

/-- A scope stays in order while the state grows. -/
theorem ScopeOk.mono (hg : s.Grows s') {j : ScopeId} {sc : Scope} (h : ScopeOk s j sc) :
    ScopeOk s' j sc where
  root := h.root
  parent := h.parent
  inside := h.inside
  ofClass c hc := by
    obtain ⟨hp, i, hi, hj⟩ := h.ofClass c hc
    obtain ⟨i', hi', -, -, hs⟩ := hg.classes c i hi
    exact ⟨hp, i', hi', hs.trans hj⟩
  var n v hv := by
    obtain ⟨x, hx, hb⟩ := h.var n v hv
    exact ⟨x, hg.vars v x hx, hb⟩
  method n m hm := by
    obtain ⟨g, hgm, ho⟩ := h.method n m hm
    obtain ⟨g', hg', -, ho', -⟩ := hg.methods m g hgm
    exact ⟨g', hg', ho' ▸ ho.mono hg⟩
  type n ty hty := by
    obtain ⟨hj, c, i, hi, hn, ht⟩ := h.type n ty hty
    obtain ⟨i', hi', hn', ht', -⟩ := hg.classes c i hi
    exact ⟨hj, c, i', hi', hn'.trans hn, ht'.trans ht⟩

/-! ## Sound states -/

/-- **A sound state**: the registry is sound, and all that is stored is as it has to be. -/
structure Sound (s : Resolver) : Prop where
  registry : s.registry.Sound
  named : ∀ c n, s.registry.className? c = some n → ∃ i, s.program.classAt? c = some i
  classType : ∀ id c, s.registry.kind? id = some (.ofClass c) →
    ∃ i, s.program.classAt? c = some i ∧ i.ty = id
  member : ∀ id e n m, s.registry.entry? id = some e → (n, m) ∈ e.members →
    ∃ g, s.program.methodAt? m = some g ∧ g.name = n
  classes : ∀ c i, s.program.classAt? c = some i → ClassOk s c i
  methods : ∀ m g, s.program.methodAt? m = some g → MethodOk s g
  vars : ∀ v x, s.program.varAt? v = some x → VarOk s x
  scopes : ∀ j sc, s.program.scopeAt? j = some sc → ScopeOk s j sc
  global : ∃ sc, s.program.scopeAt? ScopeTree.globalId = some sc
  className : ∀ (n : String) c, s.program.classNames[n]? = some c → ∃ i, s.program.classAt? c = some i
  function : ∀ (n : String) m, s.program.functions[n]? = some m → ∃ g, s.program.methodAt? m = some g
  own : ∀ m m' g g' j, s.program.methodAt? m = some g → s.program.methodAt? m' = some g' →
    g.scope = some j → g'.scope = some j → m = m'

theorem Sound.rooted (hs : s.Sound) : s.scopes.Rooted :=
  fun j p sc hsc hp => (hs.scopes j sc hsc).parent p hp

/-- **A step enters only what is in order**: what the new state holds was in the old one or is as it
has to be in `w`. -/
structure InOrder (w s s' : Resolver) : Prop where
  named : ∀ c n, s'.registry.className? c = some n →
    s.registry.className? c = some n ∨ ∃ i, w.program.classAt? c = some i
  classType : ∀ id c, s'.registry.kind? id = some (.ofClass c) →
    s.registry.kind? id = some (.ofClass c) ∨ ∃ i, w.program.classAt? c = some i ∧ i.ty = id
  member : ∀ id e n m, s'.registry.entry? id = some e → (n, m) ∈ e.members →
    (∃ e₀, s.registry.entry? id = some e₀ ∧ (n, m) ∈ e₀.members) ∨
      ∃ g, w.program.methodAt? m = some g ∧ g.name = n
  classes : ∀ c i, s'.program.classAt? c = some i →
    s.program.classAt? c = some i ∨ ClassOk w c i
  methods : ∀ m g, s'.program.methodAt? m = some g →
    s.program.methodAt? m = some g ∨ MethodOk w g
  vars : ∀ v x, s'.program.varAt? v = some x → s.program.varAt? v = some x ∨ VarOk w x
  scopes : ∀ j sc, s'.program.scopeAt? j = some sc →
    s.program.scopeAt? j = some sc ∨ ScopeOk w j sc
  className : ∀ (n : String) c, s'.program.classNames[n]? = some c →
    s.program.classNames[n]? = some c ∨ ∃ i, w.program.classAt? c = some i
  function : ∀ (n : String) m, s'.program.functions[n]? = some m →
    s.program.functions[n]? = some m ∨ ∃ g, w.program.methodAt? m = some g

theorem InOrder.refl (w s : Resolver) : InOrder w s s where
  named _ _ h := .inl h
  classType _ _ h := .inl h
  member _ e _ _ he hm := .inl ⟨e, he, hm⟩
  classes _ _ h := .inl h
  methods _ _ h := .inl h
  vars _ _ h := .inl h
  scopes _ _ h := .inl h
  className _ _ h := .inl h
  function _ _ h := .inl h

/-- **A step keeps a state sound** if the state grows and only what is in order is entered. -/
theorem Sound.step (hs : s.Sound) (hg : s.Grows s') (registry : s'.registry.Sound)
    (h : InOrder s' s s')
    (own : ∀ m m' g g' j, s'.program.methodAt? m = some g → s'.program.methodAt? m' = some g' →
      g.scope = some j → g'.scope = some j → m = m') : s'.Sound where
  registry := registry
  named c n hc := (h.named c n hc).elim (fun hc => hg.someClass (hs.named c n hc)) id
  classType id c hc := by
    rcases h.classType id c hc with hc | hc
    · obtain ⟨i, hi, hty⟩ := hs.classType id c hc
      obtain ⟨i', hi', -, hty', -⟩ := hg.classes c i hi
      exact ⟨i', hi', hty'.trans hty⟩
    · exact hc
  member id e n m he hm := by
    rcases h.member id e n m he hm with ⟨e₀, he₀, hm₀⟩ | hm
    · obtain ⟨g, hgm, hn⟩ := hs.member id e₀ n m he₀ hm₀
      obtain ⟨g', hg', hn', -⟩ := hg.methods m g hgm
      exact ⟨g', hg', hn'.trans hn⟩
    · exact hm
  classes c i hi := (h.classes c i hi).elim (fun hi => (hs.classes c i hi).mono hg) id
  methods m g hm := (h.methods m g hm).elim (fun hm => (hs.methods m g hm).mono hg) id
  vars v x hx := (h.vars v x hx).elim (fun hx => (hs.vars v x hx).mono hg) id
  scopes j sc hsc := (h.scopes j sc hsc).elim (fun hsc => (hs.scopes j sc hsc).mono hg) id
  global := by
    obtain ⟨sc, hsc⟩ := hs.global
    obtain ⟨sc', hsc', -⟩ := hg.scopes _ sc hsc
    exact ⟨sc', hsc'⟩
  className n c hc := (h.className n c hc).elim (fun hc => hg.someClass (hs.className n c hc)) id
  function n m hm := by
    rcases h.function n m hm with hm | hm
    · obtain ⟨g, hgm⟩ := hs.function n m hm
      obtain ⟨g', hg', -⟩ := hg.methods m g hgm
      exact ⟨g', hg'⟩
    · exact hm
  own := own

end Resolver

end ClassLang
