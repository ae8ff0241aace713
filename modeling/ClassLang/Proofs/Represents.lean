import ClassLang.Proofs.Meaning

/-!
# States that represent a program

A state represents a unit if what it has found out about the native types, the classes and the
functions agrees with the text of the unit (`Resolver.Represents`). Inside a body, a scope reads as a
list of blocks (`Reads`), and the state knows the method whose body it is (`Within`).

Resolving a body keeps all this: `Represents.mono`, `Reads.mono`, `Within.mono`.
-/

namespace ClassLang

/-- What an operator of the native type `k` takes and gives. -/
def NativeOperator.signature (op : NativeOperator) (k : Native) : Signature :=
  ⟨if op.binary then [.native k] else [], .native op.result⟩

namespace Resolver

/-- What a variable is to the type rules. -/
def bindingOf? (s : Resolver) (v : VariableId) : Option Binding := do
  let x ← s.program.varAt? v
  return ⟨← s.registry.meaning? x.ty, x.kind = .receiver⟩

/-- A scope binds the names that a block of the type rules binds. -/
def Matches (s : Resolver) (sc : Scope) (names : Bindings) : Prop :=
  ∀ n : String, (sc.vars[n]?).bind s.bindingOf? = names.lookup n

/-- **A scope reads as a list of blocks**: the scopes from it outward are blocks that match, up to
the scope in which the members of `o` are named. -/
inductive Reads (s : Resolver) (o : Option ClassId) : ScopeId → Blocks → Prop where
  | home {j} : s.Home o j → Reads s o j []
  | block {j p sc names Γ} : s.program.scopeAt? j = some sc → sc.kind = .block →
      sc.parent = some p → s.Matches sc names → Reads s o p Γ → Reads s o j (names :: Γ)

/-- The native types have their operators, and pointers and arrays have no members. -/
structure Installed (s : Resolver) : Prop where
  operators : ∀ (k : Native) e, s.registry.entry? k.id = some e →
    e.members.map (fun p => (p.1, s.signatureOf? p.2)) =
      k.operators.map fun op => (op.symbol, some (op.signature k))
  operator : ∀ (k : Native) e p, s.registry.entry? k.id = some e → p ∈ e.members →
    ∃ g, s.program.methodAt? p.2 = some g ∧ g.isOperator = true
  bare : ∀ id e, s.registry.entry? id = some e → e.kind.part?.isSome → e.members = []

/-- What is known of a class agrees with the fields and methods that are written. -/
structure ClassHolds (s : Resolver) (d : Dialect) (u : CompilationUnit) (i : ClassInfo)
    (fs : List FieldDecl) (ms : List MethodDecl) : Prop where
  fields : ∀ n : String, (i.fields[n]?).bind s.tyOf? =
    (fs.find? fun f => f.name = n).bind fun f => f.type.denoted? d u
  scopeVars : ∀ sc, s.program.scopeAt? i.scope = some sc → ∀ n : String, sc.vars[n]? = i.fields[n]?
  methods : ∀ sc, s.program.scopeAt? i.scope = some sc → ∀ n : String,
    (sc.methods[n]?).bind s.signatureOf? =
      (ms.find? fun m => m.name = n).bind fun m => m.signature? d u
  members : ∀ sc e, s.program.scopeAt? i.scope = some sc → s.registry.entry? i.ty = some e →
    ∀ n : String, e.candidates n = (sc.methods[n]?).toList
  fieldTypes : ∀ f ∈ fs, (f.type.denoted? d u).isSome
  signatures : ∀ m ∈ ms, (m.signature? d u).isSome

/-- The classes that are named in the global scope are those of the unit. -/
def KnowsClasses (s : Resolver) (u : CompilationUnit) : Prop :=
  ∀ sc, s.program.scopeAt? ScopeTree.globalId = some sc → ∀ n : String,
    (sc.types[n]?).bind s.registry.meaning? = (u.classNamed? n).map fun c => .ofClass c.name

/-- **The state agrees with the text of a unit.** -/
structure Represents (s : Resolver) (d : Dialect) (u : CompilationUnit) : Prop where
  natives : s.Installed
  types : s.KnowsClasses u
  functions : ∀ sc, s.program.scopeAt? ScopeTree.globalId = some sc → ∀ n : String,
    (sc.methods[n]?).bind s.signatureOf? =
      (u.functionNamed? n).bind fun f => f.signature? d u
  classes : ∀ c i, s.program.classAt? c = some i →
    ∃ decl, u.classNamed? i.name = some decl ∧ s.ClassHolds d u i decl.fields decl.methods

/-- **The current method** is `g`, and its owner and result are those of the context. -/
structure Within (s : Resolver) (x : Context) (g : Method) : Prop where
  current : ∃ m, s.current = some m ∧ s.program.methodAt? m = some g
  result : s.registry.meaning? g.result = some x.result
  receiver : g.receiver.isSome = g.owner.isSome
  function : g.owner = none → x.owner = none
  method : ∀ c, g.owner = some c → ∃ i decl, s.program.classAt? c = some i ∧
    x.owner = some decl ∧ x.unit.classNamed? i.name = some decl

variable {s s' : Resolver} {d : Dialect} {u : CompilationUnit} {o : Option ClassId} {j : ScopeId}
  {Γ : Blocks} {x : Context} {g : Method} {sc : Scope} {i : ClassInfo}

/-! ## What stays -/

theorem Sound.bindingOf?_isSome (hs : s.Sound) {v : VariableId} {y : Variable}
    (hy : s.program.varAt? v = some y) : ∃ T, s.registry.meaning? y.ty = some T ∧
      s.bindingOf? v = some ⟨T, y.kind = .receiver⟩ := by
  obtain ⟨T, hT⟩ := hs.meaning?_isSome (hs.vars v y hy).ty
  refine ⟨T, hT, ?_⟩
  unfold bindingOf?
  rw [hy]
  simp only [Option.bind_eq_bind, Option.bind_some, hT, Option.pure_def]

theorem Grows.bindingOf? (hg : s.Grows s') (hs : s.Sound) (hs' : s'.Sound) {v : VariableId}
    {y : Variable} (hy : s.program.varAt? v = some y) : s'.bindingOf? v = s.bindingOf? v := by
  obtain ⟨T, hT, hb⟩ := hs.bindingOf?_isSome hy
  obtain ⟨T', hT', hb'⟩ := hs'.bindingOf?_isSome (hg.vars v y hy)
  rw [hg.meaning? hs.registry hs'.registry hT] at hT'
  cases hT'
  rw [hb, hb']

theorem Matches.mono (hg : s.Grows s') (hs : s.Sound) (hs' : s'.Sound) {names : Bindings}
    (hsc : s.program.scopeAt? j = some sc) (h : s.Matches sc names) : s'.Matches sc names := by
  intro n
  rw [← h n]
  cases hv : sc.vars[n]? with
  | none => rfl
  | some v =>
    obtain ⟨y, hy, -⟩ := (hs.scopes j sc hsc).var n v hv
    exact hg.bindingOf? hs hs' hy

/-- A scope reads the same as long as it and those around it are not changed. -/
theorem Reads.mono (hg : s.Grows s') (hs : s.Sound) (hs' : s'.Sound)
    (same : ∀ l sc, l.index ≤ j.index → s.program.scopeAt? l = some sc →
      s'.program.scopeAt? l = some sc) (h : s.Reads o j Γ) : s'.Reads o j Γ := by
  induction h with
  | home hh => exact .home (hh.mono hg)
  | @block j p sc names Γ hsc hk hp hm _ ih =>
    have hlt := (hs.scopes j sc hsc).parent p hp
    refine .block (same j sc (Nat.le_refl _) hsc) hk hp (hm.mono hg hs hs' hsc) (ih ?_)
    exact fun l sc' hl hsc' => same l sc' (by omega) hsc'

theorem Frame.signatureOf? {c : Option ClassId} {m : Option MethodId} {l : Option ScopeId}
    (h : Frame s s' c m l) (hs : s.Sound) (hs' : s'.Sound) {m' : MethodId} (hm : m ≠ some m')
    {sig : Signature} (hsig : s.signatureOf? m' = some sig) : s'.signatureOf? m' = some sig := by
  obtain ⟨g, hg, -⟩ := signatureOf?_eq_some_iff.1 hsig
  exact h.toGrows.signatureOf? hs.registry hs'.registry hg (h.sameMethods m' g hg hm) rfl rfl hsig

theorem Extends.signatureOf? (h : s.Extends s') (hs : s.Sound) (hs' : s'.Sound) {m : MethodId}
    {sig : Signature} (hsig : s.signatureOf? m = some sig) : s'.signatureOf? m = some sig := by
  obtain ⟨g, hg, -⟩ := signatureOf?_eq_some_iff.1 hsig
  obtain ⟨b, hb⟩ := h.methods m g hg
  exact h.grows.signatureOf? hs.registry hs'.registry hg hb rfl rfl hsig

/-- The native operators stay what they are. -/
theorem Installed.mono (hs : s.Sound)
    (types : ∀ id e, s.registry.entry? id = some e → (∀ c, e.kind ≠ .ofClass c) →
      s'.registry.entry? id = some e)
    (fresh : ∀ id e, s'.registry.entry? id = some e → s.registry.Has id ∨ e.members = [])
    (hg : s.Grows s')
    (hsig : ∀ m g sig, s.program.methodAt? m = some g → g.isOperator = true →
      s.signatureOf? m = some sig → s'.signatureOf? m = some sig) (h : s.Installed) :
    s'.Installed := by
  -- the entry of a native type is the old one
  have native : ∀ (k : Native) e, s'.registry.entry? k.id = some e →
      s.registry.entry? k.id = some e := by
    intro k e he
    obtain ⟨e₀, he₀⟩ := Registry.has_iff_entry.1 (hs.registry.has_native k)
    have hk := hs.registry.natives k
    unfold Registry.kind? at hk
    rw [he₀] at hk
    have := types k.id e₀ he₀ (by intro c hc; rw [Option.map_some, hc] at hk; cases hk)
    rw [he] at this
    cases this
    exact he₀
  refine ⟨fun k e he => ?_, fun k e p he hp => ?_, fun id e he hp => ?_⟩
  · rw [← h.operators k e (native k e he)]
    refine List.map_congr_left fun p hp => ?_
    obtain ⟨g, hgm, hop⟩ := h.operator k e p (native k e he) hp
    obtain ⟨sig, -, hsg, -⟩ := hs.signatureOf?_isSome hgm
    rw [hsg, hsig p.2 g sig hgm hop hsg]
  · obtain ⟨g, hgm, hop⟩ := h.operator k e p (native k e he) hp
    obtain ⟨g', hg', -, -, hk⟩ := hg.methods p.2 g hgm
    refine ⟨g', hg', ?_⟩
    unfold Method.isOperator at *
    rw [hk]; exact hop
  · rcases fresh id e he with hi | hm
    · obtain ⟨e₀, he₀⟩ := Registry.has_iff_entry.1 hi
      obtain ⟨e', he', hk, -⟩ := hg.types id e₀ he₀
      rw [he] at he'
      cases he'
      have := types id e₀ he₀ (by intro c hc; rw [hk, hc] at hp; cases hp)
      rw [he] at this
      cases this
      exact h.bare id e he₀ hp
    · exact hm

/-- If two things are read the same and all that is there can be read, both are there or neither. -/
theorem none_iff_of_bind_eq {α β γ : Type} {o : Option α} {o' : Option β} {f : α → Option γ}
    {f' : β → Option γ} (h : o.bind f = o'.bind f') (hf : ∀ a, o = some a → (f a).isSome)
    (hf' : ∀ b, o' = some b → (f' b).isSome) : o = none ↔ o' = none := by
  cases o <;> cases o' <;> grind

theorem Sound.signatureOf?_method (hs : s.Sound) {l : ScopeId}
    (hsc : s.program.scopeAt? l = some sc) {n : String} {m : MethodId}
    (hm : sc.methods[n]? = some m) : (s.signatureOf? m).isSome := by
  obtain ⟨g, hg, -⟩ := (hs.scopes _ sc hsc).method n m hm
  obtain ⟨sig, -, hsig, -⟩ := hs.signatureOf?_isSome hg
  rw [hsig]
  rfl

theorem ClassHolds.find_method_eq_none {fs : List FieldDecl} {ms : List MethodDecl}
    (h : s.ClassHolds d u i fs ms) (hs : s.Sound) (hsc : s.program.scopeAt? i.scope = some sc)
    {n : String} : sc.methods[n]? = none ↔ (ms.find? fun m => m.name = n) = none :=
  none_iff_of_bind_eq (h.methods sc hsc n) (fun _ hm => hs.signatureOf?_method hsc hm)
    fun m hm => h.signatures m (List.mem_of_find?_eq_some hm)

/-- The fields of a class keep their types. -/
theorem Grows.bind_field (hg : s.Grows s') (hs : s.Sound) (hs' : s'.Sound) {c : ClassId}
    (hi : ClassOk s c i) (n : String) :
    (i.fields[n]?).bind s'.tyOf? = (i.fields[n]?).bind s.tyOf? := by
  refine Option.bind_congr fun v hv => ?_
  obtain ⟨x, -, hx, -⟩ := hi.field n v hv
  obtain ⟨T, hT, -⟩ := hs.tyOf?_isSome hx
  rw [hT, hg.tyOf? hs.registry hs'.registry hT]

/-- The methods of a scope keep their signatures. -/
theorem Sound.bind_method (hs : s.Sound) {l : ScopeId} (hsc : s.program.scopeAt? l = some sc)
    (n : String) (h : ∀ m sig, sc.methods[n]? = some m → s.signatureOf? m = some sig →
      s'.signatureOf? m = some sig) :
    (sc.methods[n]?).bind s'.signatureOf? = (sc.methods[n]?).bind s.signatureOf? := by
  refine Option.bind_congr fun m hm => ?_
  obtain ⟨sig, hsig⟩ := Option.isSome_iff_exists.1 (hs.signatureOf?_method hsc hm)
  rw [hsig, h m sig hm hsig]

/-- A class goes on to hold what it holds. -/
theorem ClassHolds.mono (hg : s.Grows s') (hs : s.Sound) (hs' : s'.Sound) {c : ClassId}
    {fs : List FieldDecl} {ms : List MethodDecl} (hi : s.program.classAt? c = some i)
    (hsc : ∀ sc, s.program.scopeAt? i.scope = some sc → s'.program.scopeAt? i.scope = some sc)
    (he : ∀ e, s.registry.entry? i.ty = some e → s'.registry.entry? i.ty = some e)
    (hsig : ∀ sc (n : String) m sig, s.program.scopeAt? i.scope = some sc →
      sc.methods[n]? = some m → s.signatureOf? m = some sig → s'.signatureOf? m = some sig)
    (h : s.ClassHolds d u i fs ms) : s'.ClassHolds d u i fs ms := by
  have hok := hs.classes c i hi
  have scope : ∀ sc, s'.program.scopeAt? i.scope = some sc → s.program.scopeAt? i.scope = some sc := by
    intro sc h'
    obtain ⟨sc₀, hsc₀, -⟩ := hok.scope
    rw [hsc sc₀ hsc₀] at h'
    cases h'
    exact hsc₀
  have entry : ∀ e, s'.registry.entry? i.ty = some e → s.registry.entry? i.ty = some e := by
    intro e h'
    obtain ⟨e₀, he₀, -⟩ := hok.entry
    rw [he e₀ he₀] at h'
    cases h'
    exact he₀
  refine ⟨fun n => ?_, fun sc h' => h.scopeVars sc (scope sc h'), fun sc h' n => ?_,
    fun sc e h₁ h₂ => h.members sc e (scope sc h₁) (entry e h₂), h.fieldTypes, h.signatures⟩
  · rw [← h.fields n]
    exact hg.bind_field hs hs' hok n
  · rw [← h.methods sc (scope sc h') n]
    exact hs.bind_method (scope sc h') n fun m sig => hsig sc n m sig (scope sc h')

theorem Installed.frame {c : Option ClassId} {m : Option MethodId} {l : Option ScopeId}
    (hf : Frame s s' c m l) (hs : s.Sound) (hs' : s'.Sound)
    (hm : ∀ m' g, m = some m' → s.program.methodAt? m' = some g → g.isOperator = false)
    (h : s.Installed) : s'.Installed := by
  refine h.mono hs (fun id e he hk => hf.sameTypes id e he fun c _ => hk c)
    (fun id e he => (hf.fresh id e he).imp (fun h => h) And.left) hf.toGrows ?_
  intro m' g sig hg hop hsig
  refine hf.signatureOf? hs hs' (fun heq => ?_) hsig
  rw [hm m' g heq hg] at hop
  cases hop

theorem KnowsClasses.mono (hg : s.Grows s') (hs : s.Sound) (hs' : s'.Sound)
    (same : ∀ sc, s.program.scopeAt? ScopeTree.globalId = some sc →
      ∃ sc', s'.program.scopeAt? ScopeTree.globalId = some sc' ∧ sc'.types = sc.types)
    (h : s.KnowsClasses u) : s'.KnowsClasses u := by
  obtain ⟨sc, hsc⟩ := hs.global
  intro sc' hsc' n
  obtain ⟨_, hsc'', htypes⟩ := same sc hsc
  rw [hsc''] at hsc'
  cases hsc'
  rw [← h sc hsc n, htypes]
  cases hty : sc.types[n]? with
  | none => rfl
  | some ty =>
    obtain ⟨-, c, i, hi, -, rfl⟩ := (hs.scopes _ sc hsc).type n ty hty
    rw [Option.bind_some, Option.bind_some, hs.meaning?_class hi,
      hg.meaning? hs.registry hs'.registry (hs.meaning?_class hi)]

/-- **A state goes on representing a unit** while bodies are resolved. -/
theorem Represents.mono (hx : s.Extends s') (hs : s.Sound) (hs' : s'.Sound)
    (h : s.Represents d u) : s'.Represents d u := by
  -- only blocks can have changed
  have scope : ∀ l sc, s.program.scopeAt? l = some sc → sc.kind ≠ .block →
      s'.program.scopeAt? l = some sc := by
    intro l sc hsc hk
    obtain ⟨sc', hsc', -, heq⟩ := hx.scopes l sc hsc
    rw [heq hk] at hsc'
    exact hsc'
  have global : ∀ sc, s.program.scopeAt? ScopeTree.globalId = some sc →
      s'.program.scopeAt? ScopeTree.globalId = some sc := by
    intro sc hsc
    exact scope _ sc hsc (by rw [((hs.scopes _ sc hsc).root).2 rfl]; nofun)
  refine ⟨h.natives.mono hs (fun id e he _ => hx.registry.entry id e he)
    (fun id e he => (hx.fresh id e he).imp (fun h => h) And.left) hx.grows
    (fun _ _ _ _ _ => hx.signatureOf? hs hs'), h.types.mono hx.grows hs hs'
      (fun sc hsc => ⟨sc, global sc hsc, rfl⟩), ?_, ?_⟩
  · obtain ⟨sc, hsc⟩ := hs.global
    intro sc' hsc' n
    rw [global sc hsc] at hsc'
    cases hsc'
    rw [← h.functions sc hsc n]
    cases hm : sc.methods[n]? with
    | none => rfl
    | some m =>
      obtain ⟨g, hgm, -⟩ := (hs.scopes _ sc hsc).method n m hm
      obtain ⟨sig, -, hsg, -⟩ := hs.signatureOf?_isSome hgm
      rw [Option.bind_some, Option.bind_some, hsg, hx.signatureOf? hs hs' hsg]
  · intro c i hi
    -- there are no more classes than before
    have hlt := (Array.getElem?_eq_some_iff.1 hi).1
    rw [hx.noClass] at hlt
    have hi₀ := hx.classes c _ (Array.getElem?_eq_getElem hlt)
    rw [hi] at hi₀
    cases hi₀
    have hi₀ : s.program.classAt? c = some s.program.classes[c.index] :=
      Array.getElem?_eq_getElem hlt
    obtain ⟨decl, hd, hc⟩ := h.classes c _ hi₀
    refine ⟨decl, hd, hc.mono hx.grows hs hs' hi₀ (fun sc hsc => ?_)
      (fun e he => hx.registry.entry _ e he) fun _ _ _ _ _ _ => hx.signatureOf? hs hs'⟩
    obtain ⟨sc₀, hsc₀, hk⟩ := (hs.classes c _ hi₀).scope
    rw [hsc₀] at hsc
    cases hsc
    exact scope _ sc hsc₀ (by rw [hk]; nofun)

theorem Within.mono (hx : s.Extends s') (hs : s.Sound) (hs' : s'.Sound)
    (hcur : s'.current = s.current)
    (same : ∀ m, s.current = some m → s.program.methodAt? m = some g →
      s'.program.methodAt? m = some g) (h : s.Within x g) : s'.Within x g where
  current := by
    obtain ⟨m, hm, hg⟩ := h.current
    exact ⟨m, hcur.trans hm, same m hm hg⟩
  result := hx.grows.meaning? hs.registry hs'.registry h.result
  receiver := h.receiver
  function := h.function
  method c hc := by
    obtain ⟨i, decl, hi, ho, hd⟩ := h.method c hc
    exact ⟨i, decl, hx.classes c i hi, ho, hd⟩

end Resolver

end ClassLang
