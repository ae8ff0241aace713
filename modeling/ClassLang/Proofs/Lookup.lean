import ClassLang.Proofs.Represents

/-!
# What names mean

In a state that represents a unit, the names that are found from a scope are those of the type
rules:

* `KnowsClasses.findType?`: a name as a type, from every scope.
* `Reads.findVariable?`: a name as a variable of the blocks around.
* `Within.field?_eq`: a name as a field of the class around.
* `Within.method?_eq`: a name as a method of the class around or a function.
-/

namespace ClassLang

namespace Resolver

variable {s : Resolver} {d : Dialect} {u : CompilationUnit} {o : Option ClassId} {j p : ScopeId}
  {Γ : Blocks} {x : Context} {g : Method} {sc global : Scope} {n : String} {c : ClassId}
  {i : ClassInfo} {m : MethodId}

/-- The scope around a scope is there. -/
theorem Sound.scope_of_lt (hs : s.Sound) (hj : s.program.scopeAt? j = some sc)
    (hp : sc.parent = some p) : ∃ sp, s.program.scopeAt? p = some sp := by
  have h₁ := (hs.scopes j sc hj).parent p hp
  have h₂ := (Array.getElem?_eq_some_iff.1 hj).1
  exact ⟨_, Array.getElem?_eq_getElem (Nat.lt_trans h₁ h₂)⟩

/-! ## Types -/

/-- **A name means the same type from every scope**: only the global scope names types. -/
theorem Sound.findType?_eq (hs : s.Sound)
    (hglobal : s.program.scopeAt? ScopeTree.globalId = some global)
    (hj : s.program.scopeAt? j = some sc) (catalog : Catalog) (n : String) :
    s.scopes.findType? catalog j n = ((catalog.find? n).map Native.id).or global.types[n]? := by
  obtain ⟨l⟩ := j
  induction l using Nat.strongRecOn generalizing sc with
  | ind l ih =>
    have hok := hs.scopes _ sc hj
    unfold ScopeTree.findType?
    rw [ScopeTree.find_eq hs.rooted hj]
    cases hp : sc.parent with
    | none =>
      have hroot := hok.inside.1 hp
      rw [hroot, hglobal] at hj
      cases hj
      unfold Scope.findType?
      rw [hok.root.2 hroot]
      simp only [Option.or_none]
      rfl
    | some p =>
      -- an inner scope declares no types, so the search goes on outside
      have hne : (⟨l⟩ : ScopeId) ≠ ScopeTree.globalId := fun h => by
        rw [hok.inside.2 h] at hp; cases hp
      have hown : sc.findType? catalog n = none := by
        have htypes : sc.types[n]? = none := by
          cases hty : sc.types[n]? with
          | none => rfl
          | some ty => exact absurd (hok.type n ty hty).1 hne
        unfold Scope.findType? Scope.findUserType?
        cases hk : sc.kind with
        | global => exact absurd (hok.root.1 hk) hne
        | ofClass c => exact htypes
        | block => exact htypes
      obtain ⟨sp, hsp⟩ := hs.scope_of_lt hj hp
      rw [hown, Option.none_or]
      exact ih p.index (hok.parent p hp) hsp

/-- A name is found as a type if and only if it denotes one, and then the type it denotes. -/
theorem KnowsClasses.findType? (hu : s.KnowsClasses u) (hs : s.Sound)
    (hj : s.program.scopeAt? j = some sc) (d : Dialect) (n : String) (sp : Span) :
    (s.scopes.findType? d.catalog j n).bind s.registry.meaning? =
      (TypeName.named n sp).denoted? d u := by
  obtain ⟨global, hglobal⟩ := hs.global
  rw [hs.findType?_eq hglobal hj, TypeName.denoted?]
  cases d.catalog.find? n with
  | some k => exact Registry.meaning?_native hs.registry k
  | none => exact hu global hglobal n

theorem Sound.has_of_findType? (hs : s.Sound) (hj : s.program.scopeAt? j = some sc)
    {catalog : Catalog} {ty : TypeId} (h : s.scopes.findType? catalog j n = some ty) :
    s.registry.Has ty := by
  obtain ⟨global, hglobal⟩ := hs.global
  rw [hs.findType?_eq hglobal hj] at h
  cases hk : catalog.find? n with
  | some k => rw [hk] at h; cases h; exact hs.registry.has_native k
  | none =>
    rw [hk] at h
    obtain ⟨-, c, i, hi, -, rfl⟩ := (hs.scopes _ global hglobal).type n ty h
    exact Registry.has_of_kind? (hs.classes c i hi).kind

/-! ## Variables -/

/-- **A name as a variable of the blocks around**, or else as one of the scope in which members are
named. -/
theorem Reads.findVariable? (hs : s.Sound) (h : s.Reads o j Γ) (n : String) :
    (∃ v y b, s.scopes.findVariable? j n = some v ∧ s.program.varAt? v = some y ∧
      (∀ c k, y.kind ≠ .field c k) ∧ s.bindingOf? v = some b ∧ Γ.find? n = some b) ∨
    (Γ.find? n = none ∧
      ∃ p, s.Home o p ∧ s.scopes.findVariable? j n = s.scopes.findVariable? p n) := by
  induction h with
  | home hh => exact .inr ⟨rfl, _, hh, rfl⟩
  | @block j p sc names Γ hsc hk hp hm _ ih =>
    have hfind : s.scopes.findVariable? j n =
        (sc.vars[n]?).or (s.scopes.findVariable? p n) := by
      unfold ScopeTree.findVariable?
      rw [ScopeTree.find_eq hs.rooted hsc, hp]
      rfl
    have hΓ : Blocks.find? (names :: Γ) n = (names.lookup n).or (Blocks.find? Γ n) := by
      unfold Blocks.find?
      rw [List.findSome?_cons]
      cases names.lookup n <;> rfl
    rw [hfind, hΓ, ← hm n]
    cases hv : sc.vars[n]? with
    | none =>
      simp only [Option.bind_none, Option.none_or]
      exact ih
    | some v =>
      obtain ⟨y, hy, hb⟩ := (hs.scopes j sc hsc).var n v hv
      obtain ⟨T, -, hT⟩ := hs.bindingOf?_isSome hy
      rw [hk] at hb
      refine .inl ⟨v, y, _, rfl, hy, hb, hT, ?_⟩
      rw [Option.bind_some, hT]; rfl

theorem Sound.findVariable?_global (hs : s.Sound) (n : String) :
    s.scopes.findVariable? ScopeTree.globalId n = none := by
  obtain ⟨global, hglobal⟩ := hs.global
  have hok := hs.scopes _ global hglobal
  unfold ScopeTree.findVariable?
  rw [ScopeTree.find_eq hs.rooted hglobal, hok.inside.2 rfl]
  cases hv : global.vars[n]? with
  | none => unfold Scope.findVariable?; rw [hv]; rfl
  | some v =>
    obtain ⟨y, -, hb⟩ := hok.var n v hv
    rw [hok.root.2 rfl] at hb
    exact hb.elim

/-- The scope of a class stands in the global one. -/
theorem Sound.class_scope (hs : s.Sound) (hi : s.program.classAt? c = some i) :
    ∃ sc, s.program.scopeAt? i.scope = some sc ∧
      sc.kind = .ofClass c ∧ sc.parent = some ScopeTree.globalId := by
  obtain ⟨sc, hsc, hk⟩ := (hs.classes c i hi).scope
  exact ⟨sc, hsc, hk, ((hs.scopes _ sc hsc).ofClass c hk).1⟩

/-- **A name as a field of the class around.** -/
theorem Within.field?_eq (hs : s.Sound) (hR : s.Represents x.dialect x.unit) (hw : s.Within x g)
    (hp : s.Home g.owner p) (n : String) :
    (s.scopes.findVariable? p n).bind s.tyOf? = x.field? n ∧
      ∀ v, s.scopes.findVariable? p n = some v → ∃ y c k, s.program.varAt? v = some y ∧
        y.kind = .field c k ∧ g.owner = some c := by
  unfold Context.field?
  cases ho : g.owner with
  | none =>
    rw [ho] at hp
    rw [hp, hs.findVariable?_global n, hw.function ho]
    exact ⟨rfl, nofun⟩
  | some c =>
    rw [ho] at hp
    obtain ⟨i, hi, rfl⟩ := hp
    obtain ⟨i', decl, hi', hx, hd⟩ := hw.method c ho
    rw [hi] at hi'
    cases hi'
    obtain ⟨decl', hd', hc⟩ := hR.classes c i hi
    rw [hd] at hd'
    cases hd'
    obtain ⟨sc, hsc, -, hparent⟩ := hs.class_scope hi
    -- around a class there is only the global scope, which binds no variables
    have hfind : s.scopes.findVariable? i.scope n = i.fields[n]? := by
      unfold ScopeTree.findVariable?
      rw [ScopeTree.find_eq hs.rooted hsc, hparent]
      have := hs.findVariable?_global n
      unfold ScopeTree.findVariable? at this
      simp only [this, Option.or_none]
      exact hc.scopeVars sc hsc n
    rw [hfind]
    constructor
    · have hname : decl.name = i.name := by
        have := List.find?_some hd
        simpa using this
      rw [hc.fields n, hx]
      show _ = (do
        let f ← (← x.unit.classNamed? decl.name).fieldNamed? n
        f.type.denoted? x.dialect x.unit)
      rw [hname, hd]
      rfl
    · intro v hv
      obtain ⟨y, k, hy, hk⟩ := (hs.classes c i hi).field n v hv
      exact ⟨y, c, k, hy, hk, rfl⟩

/-! ## Methods -/

/-- Blocks name no methods. -/
theorem Sound.block_methods (hs : s.Sound) (hj : s.program.scopeAt? j = some sc)
    (hk : sc.kind = .block) (n : String) : sc.methods[n]? = none := by
  cases hm : sc.methods[n]? with
  | none => rfl
  | some m =>
    obtain ⟨g, -, hh⟩ := (hs.scopes j sc hj).method n m hm
    cases ho : g.owner with
    | none =>
      rw [ho] at hh
      rw [(hs.scopes j sc hj).root.2 hh] at hk
      cases hk
    | some c =>
      rw [ho] at hh
      obtain ⟨i, hi, rfl⟩ := hh
      obtain ⟨sc', hsc', hk', -⟩ := hs.class_scope hi
      rw [hj] at hsc'
      cases hsc'
      rw [hk] at hk'
      cases hk'

theorem Reads.findMethod? (hs : s.Sound) (h : s.Reads o j Γ) (n : String) :
    ∃ p, s.Home o p ∧ s.scopes.findMethod? j n = s.scopes.findMethod? p n := by
  induction h with
  | home hh => exact ⟨_, hh, rfl⟩
  | @block j p sc names Γ hsc hk hp _ _ ih =>
    obtain ⟨q, hq, heq⟩ := ih
    refine ⟨q, hq, ?_⟩
    rw [← heq]
    unfold ScopeTree.findMethod?
    rw [ScopeTree.find_eq hs.rooted hsc, hp]
    have hnone : sc.findMethod? n = none := hs.block_methods hsc hk n
    simp only [hnone, Option.none_or]

theorem Sound.findMethod?_global (hs : s.Sound)
    (hglobal : s.program.scopeAt? ScopeTree.globalId = some global) (n : String) :
    s.scopes.findMethod? ScopeTree.globalId n = global.methods[n]? := by
  unfold ScopeTree.findMethod?
  rw [ScopeTree.find_eq hs.rooted hglobal, (hs.scopes _ global hglobal).inside.2 rfl]
  simp only [Option.or_none]
  rfl

/-- What the global scope binds to a method is a function. -/
theorem Sound.owner_of_global (hs : s.Sound)
    (hglobal : s.program.scopeAt? ScopeTree.globalId = some global)
    (hm : global.methods[n]? = some m) : ∃ g, s.program.methodAt? m = some g ∧ g.owner = none := by
  obtain ⟨g, hg, hh⟩ := (hs.scopes _ global hglobal).method n m hm
  refine ⟨g, hg, ?_⟩
  cases ho : g.owner with
  | none => rfl
  | some c =>
    rw [ho] at hh
    obtain ⟨i, hi, hj⟩ := hh
    obtain ⟨sc, hsc, hk, -⟩ := hs.class_scope hi
    rw [hj, hglobal] at hsc
    cases hsc
    rw [(hs.scopes _ global hglobal).root.2 rfl] at hk
    cases hk

/-- What the scope of a class binds to a method is a method of that class. -/
theorem Sound.owner_of_class (hs : s.Sound) (hi : s.program.classAt? c = some i)
    (hsc : s.program.scopeAt? i.scope = some sc) (hm : sc.methods[n]? = some m) :
    ∃ g, s.program.methodAt? m = some g ∧ g.owner = some c := by
  obtain ⟨g, hg, hh⟩ := (hs.scopes _ sc hsc).method n m hm
  refine ⟨g, hg, ?_⟩
  obtain ⟨sc', hsc', hk, -⟩ := hs.class_scope hi
  rw [hsc] at hsc'
  cases hsc'
  cases ho : g.owner with
  | none =>
    rw [ho] at hh
    rw [(hs.scopes _ sc hsc).root.2 hh] at hk
    cases hk
  | some c' =>
    rw [ho] at hh
    obtain ⟨i', hi', hj⟩ := hh
    obtain ⟨sc', hsc', hk', -⟩ := hs.class_scope hi'
    rw [hj, hsc] at hsc'
    cases hsc'
    rw [hk] at hk'
    cases hk'; rfl

/-- A candidate is listed under its name. -/
theorem Sound.lists_of_candidate (hs : s.Sound) {id : TypeId} {e : TypeEntry}
    (he : s.registry.entry? id = some e) (hm : m ∈ e.candidates n) :
    ∃ g, s.program.methodAt? m = some g ∧ g.name = n ∧ s.registry.Lists id g.name m := by
  unfold TypeEntry.candidates at hm
  obtain ⟨⟨n', m'⟩, hmem, hif⟩ := List.mem_filterMap.1 hm
  split at hif
  · rename_i hn
    cases hif
    obtain ⟨g, hg, hname⟩ := hs.member id e n' m' he hmem
    exact ⟨g, hg, hname.trans hn, e, he, by rw [hname]; exact hmem⟩
  · cases hif

/-- From a class, methods are looked up in its scope and then in the global one. -/
theorem Sound.findMethod?_class (hs : s.Sound)
    (hglobal : s.program.scopeAt? ScopeTree.globalId = some global)
    (hi : s.program.classAt? c = some i) (n : String) :
    ∃ sc, s.program.scopeAt? i.scope = some sc ∧
      s.scopes.findMethod? i.scope n = (sc.methods[n]?).or global.methods[n]? := by
  obtain ⟨sc, hsc, -, hparent⟩ := hs.class_scope hi
  refine ⟨sc, hsc, ?_⟩
  rw [← hs.findMethod?_global hglobal]
  unfold ScopeTree.findMethod?
  rw [ScopeTree.find_eq hs.rooted hsc, hparent]
  rfl

/-- **A name as a method of the class around or a function.** What is found is a function, or a
method that the class lists. -/
theorem Within.method?_eq (hs : s.Sound) (hR : s.Represents x.dialect x.unit) (hw : s.Within x g)
    (hj : s.Reads g.owner j Γ) (n : String) :
    (s.scopes.findMethod? j n).bind s.signatureOf? = x.method? n ∧
      ∀ m, s.scopes.findMethod? j n = some m → ∃ g', s.program.methodAt? m = some g' ∧
        (g'.owner = none ∨ ∃ c i, g'.owner = some c ∧ g.owner = some c ∧
          s.program.classAt? c = some i ∧ s.registry.Lists i.ty g'.name m) := by
  obtain ⟨p, hp, hfind⟩ := hj.findMethod? hs n
  obtain ⟨global, hglobal⟩ := hs.global
  have hfun := hR.functions global hglobal n
  rw [hfind]
  unfold Context.method?
  cases ho : g.owner with
  | none =>
    rw [ho] at hp
    rw [hp, hs.findMethod?_global hglobal, hw.function ho]
    refine ⟨hfun, fun m hm => ?_⟩
    obtain ⟨g', hg', hnone⟩ := hs.owner_of_global hglobal hm
    exact ⟨g', hg', .inl hnone⟩
  | some c =>
    rw [ho] at hp
    obtain ⟨i, hi, rfl⟩ := hp
    obtain ⟨i', decl, hi', hx, hd⟩ := hw.method c ho
    rw [hi] at hi'
    cases hi'
    obtain ⟨decl', hd', hc⟩ := hR.classes c i hi
    rw [hd] at hd'
    cases hd'
    obtain ⟨sc, hsc, hclass⟩ := hs.findMethod?_class hglobal hi n
    have hmeth := hc.methods sc hsc n
    rw [hclass, hx]
    simp only [Option.bind_some]
    cases hm : sc.methods[n]? with
    | some m =>
      -- a method of the class hides a function of the same name
      obtain ⟨g', hg', ho'⟩ := hs.owner_of_class hi hsc hm
      obtain ⟨sig, -, hsig, -⟩ := hs.signatureOf?_isSome hg'
      rw [hm, Option.bind_some, hsig] at hmeth
      refine ⟨?_, ?_⟩
      · cases hmd : decl.methodNamed? n with
        | none =>
          unfold ClassDecl.methodNamed? at hmd
          rw [hmd] at hmeth
          cases hmeth
        | some md =>
          unfold ClassDecl.methodNamed? at hmd
          rw [hmd] at hmeth
          exact hsig.trans hmeth
      · rintro _ ⟨⟩
        obtain ⟨e, he, -⟩ := (hs.classes c i hi).entry
        have hcand : m ∈ e.candidates n := by rw [hc.members sc e hsc he n, hm]; simp
        obtain ⟨g'', hg'', -, hl⟩ := hs.lists_of_candidate he hcand
        rw [hg'] at hg''
        cases hg''
        exact ⟨g', hg', .inr ⟨c, i, ho', rfl, hi, hl⟩⟩
    | none =>
      rw [show decl.methodNamed? n = none from (hc.find_method_eq_none hs hsc).1 hm, Option.none_or,
        Option.none_or]
      refine ⟨hfun, fun m hm => ?_⟩
      obtain ⟨g', hg', hnone⟩ := hs.owner_of_global hglobal hm
      exact ⟨g', hg', .inl hnone⟩

end Resolver

end ClassLang
