import ClassLang.Proofs.State

/-!
# What the single steps change

Resolution changes its state in a few ways: it enters a type, adds a variable, method or scope,
replaces a scope, method or class by one that says more, and adds a member to a type. For each of
them there are two lemmas, one saying what stays exactly as it was (`Resolver.Frame`) and one saying
that the state stays sound.
-/

namespace ClassLang

namespace Resolver

variable {old g : Method} {sc : Scope} {l : MethodId}

/-- The state with another registry. -/
def withRegistry (s : Resolver) (r : Registry) : Resolver := { s with registry := r }

/-- The state with one variable more. -/
def pushVar (s : Resolver) (x : Variable) : Resolver :=
  { s with program := { s.program with vars := s.program.vars.push x } }

/-- The state with one method more. -/
def pushMethod (s : Resolver) (g : Method) : Resolver :=
  { s with program := { s.program with methods := s.program.methods.push g } }

/-- The state with one scope more. -/
def pushScope (s : Resolver) (sc : Scope) : Resolver :=
  { s with program := { s.program with scopes := ⟨s.program.scopes.scopes.push sc⟩ } }

/-- The state with another scope in the place of `j`. -/
def setScope (s : Resolver) (j : ScopeId) (sc : Scope) : Resolver :=
  { s with program := { s.program with scopes := s.program.scopes.set j sc } }

/-- The state with another method in the place of `m`. -/
def setMethod (s : Resolver) (m : MethodId) (g : Method) : Resolver :=
  let methods := s.program.methods.setIfInBounds m.index g
  { s with program := { s.program with methods := methods } }

/-- The state with another class in the place of `c`. -/
def setClass (s : Resolver) (c : ClassId) (i : ClassInfo) : Resolver :=
  let classes := s.program.classes.setIfInBounds c.index i
  { s with program := { s.program with classes := classes } }

/-- The number the next variable will have. -/
def nextVar (s : Resolver) : VariableId := ⟨s.program.vars.size⟩

/-- The number the next method will have. -/
def nextMethod (s : Resolver) : MethodId := ⟨s.program.methods.size⟩

/-- The number the next scope will have. -/
def nextScope (s : Resolver) : ScopeId := ⟨s.program.scopes.size⟩

/-- What is found after an entry that is there has been replaced. -/
theorem getElem?_replace {α : Type} {xs : Array α} {k : Nat} {old : α} (h : xs[k]? = some old)
    (x : α) (i : Nat) : (xs.setIfInBounds k x)[i]? = if i = k then some x else xs[i]? := by
  have hlt := (Array.getElem?_eq_some_iff.1 h).1
  rw [Array.getElem?_setIfInBounds, if_pos hlt]
  by_cases hik : k = i
  · rw [if_pos hik, if_pos hik.symm]
  · rw [if_neg hik, if_neg (Ne.symm hik)]

variable {s s' s'' : Resolver}

theorem varAt?_pushVar (x : Variable) (v : VariableId) :
    (s.pushVar x).program.varAt? v = if v = s.nextVar then some x else s.program.varAt? v := by
  obtain ⟨i⟩ := v
  simp only [Program.varAt?, pushVar, nextVar, Array.getElem?_push, VariableId.mk.injEq]

theorem methodAt?_pushMethod (g : Method) (m : MethodId) :
    (s.pushMethod g).program.methodAt? m =
      if m = s.nextMethod then some g else s.program.methodAt? m := by
  obtain ⟨i⟩ := m
  simp only [Program.methodAt?, pushMethod, nextMethod, Array.getElem?_push, MethodId.mk.injEq]

theorem scopeAt?_pushScope (sc : Scope) (j : ScopeId) :
    (s.pushScope sc).program.scopeAt? j =
      if j = s.nextScope then some sc else s.program.scopeAt? j := by
  obtain ⟨i⟩ := j
  simp only [Program.scopeAt?, pushScope, nextScope, Array.getElem?_push, ScopeId.mk.injEq,
    ScopeTree.size]

theorem scopeAt?_setScope {j : ScopeId} {old : Scope} (h : s.program.scopeAt? j = some old)
    (sc : Scope) (l : ScopeId) :
    (s.setScope j sc).program.scopeAt? l = if l = j then some sc else s.program.scopeAt? l := by
  obtain ⟨i⟩ := l
  obtain ⟨k⟩ := j
  simp only [ScopeId.mk.injEq]
  exact getElem?_replace h sc i

theorem methodAt?_setMethod {m : MethodId} (h : s.program.methodAt? m = some old) (g : Method)
    (l : MethodId) :
    (s.setMethod m g).program.methodAt? l = if l = m then some g else s.program.methodAt? l := by
  obtain ⟨i⟩ := l
  obtain ⟨k⟩ := m
  simp only [MethodId.mk.injEq]
  exact getElem?_replace h g i

theorem classAt?_setClass {c : ClassId} {old : ClassInfo} (h : s.program.classAt? c = some old)
    (i : ClassInfo) (l : ClassId) :
    (s.setClass c i).program.classAt? l = if l = c then some i else s.program.classAt? l := by
  obtain ⟨n⟩ := l
  obtain ⟨k⟩ := c
  simp only [ClassId.mk.injEq]
  exact getElem?_replace h i n

theorem varAt?_nextVar (s : Resolver) : s.program.varAt? s.nextVar = none := by
  simp [Program.varAt?, nextVar]

theorem methodAt?_nextMethod (s : Resolver) : s.program.methodAt? s.nextMethod = none := by
  simp [Program.methodAt?, nextMethod]

theorem scopeAt?_nextScope (s : Resolver) : s.program.scopeAt? s.nextScope = none := by
  simp [Program.scopeAt?, nextScope, ScopeTree.size]

/-- A scope that is there has a smaller number than the next one. -/
theorem scope_lt_next {j : ScopeId} (h : s.program.scopeAt? j = some sc) :
    j.index < s.nextScope.index := (Array.getElem?_eq_some_iff.1 h).1

/-- **All but one class, one method and one scope stay exactly as they are**, these go on as the
state grows, and no method gets a body. -/
structure Frame (s s' : Resolver) (c : Option ClassId) (m : Option MethodId) (j : Option ScopeId) :
    Prop extends Grows s s' where
  sameTypes : ∀ id e, s.registry.entry? id = some e → (∀ c', c = some c' → e.kind ≠ .ofClass c') →
    s'.registry.entry? id = some e
  sameNames : s'.registry.classNames = s.registry.classNames
  sameClasses : ∀ c' i, s.program.classAt? c' = some i → c ≠ some c' →
    s'.program.classAt? c' = some i
  sameMethods : ∀ m' g, s.program.methodAt? m' = some g → m ≠ some m' →
    s'.program.methodAt? m' = some g
  sameScopes : ∀ j' sc, s.program.scopeAt? j' = some sc → j ≠ some j' →
    s'.program.scopeAt? j' = some sc
  fresh : ∀ id e, s'.registry.entry? id = some e →
    s.registry.Has id ∨ e.members = [] ∧ e.kind.part?.isSome
  noClass : s'.program.classes.size = s.program.classes.size
  tables : s'.program.classNames = s.program.classNames ∧
    s'.program.functions = s.program.functions
  noBody : ∀ m' g, s'.program.methodAt? m' = some g →
    g.body = none ∨ ∃ g₀, s.program.methodAt? m' = some g₀ ∧ g₀.body = g.body
  current : s'.current = s.current

variable {c : Option ClassId} {m : Option MethodId} {j : Option ScopeId}

theorem Frame.refl (s : Resolver) (c : Option ClassId) (m : Option MethodId) (j : Option ScopeId) :
    Frame s s c m j where
  toGrows := .refl s
  sameTypes _ _ h _ := h
  sameNames := rfl
  sameClasses _ _ h _ := h
  sameMethods _ _ h _ := h
  sameScopes _ _ h _ := h
  fresh _ e h := .inl (Registry.has_iff_entry.2 ⟨e, h⟩)
  noClass := rfl
  tables := ⟨rfl, rfl⟩
  noBody _ g h := .inr ⟨g, h, rfl⟩
  current := rfl

/-- Where no class is excepted, types and classes stay as they are. -/
theorem Frame.keepsType {id : TypeId} {e : TypeEntry} (h : Frame s s' none m j)
    (he : s.registry.entry? id = some e) : s'.registry.entry? id = some e :=
  h.sameTypes id e he fun c' hc => absurd hc.symm (Option.some_ne_none c')

theorem Frame.keepsClass {l : ClassId} {i : ClassInfo} (h : Frame s s' none m j)
    (hi : s.program.classAt? l = some i) : s'.program.classAt? l = some i :=
  h.sameClasses l i hi (Option.some_ne_none l).symm

/-- Where no method is excepted, methods stay as they are. -/
theorem Frame.keepsMethod (h : Frame s s' c none j) (hg : s.program.methodAt? l = some g) :
    s'.program.methodAt? l = some g :=
  h.sameMethods l g hg (Option.some_ne_none l).symm

/-- Where no scope is excepted, scopes stay as they are. -/
theorem Frame.keepsScope {l : ScopeId} (h : Frame s s' c m none)
    (hsc : s.program.scopeAt? l = some sc) : s'.program.scopeAt? l = some sc :=
  h.sameScopes l sc hsc (Option.some_ne_none l).symm

/-- Two steps after each other. The second may change methods and scopes that the first has added. -/
theorem Frame.comp {m' : Option MethodId} {j' : Option ScopeId} (h : Frame s s' c m j)
    (h' : Frame s' s'' c m' j')
    (hm : ∀ l g, s.program.methodAt? l = some g → m' = some l → m = some l)
    (hj : ∀ l sc, s.program.scopeAt? l = some sc → j' = some l → j = some l) :
    Frame s s'' c m j where
  toGrows := h.toGrows.trans h'.toGrows
  sameTypes id e he hc := h'.sameTypes id e (h.sameTypes id e he hc) hc
  sameNames := h'.sameNames.trans h.sameNames
  sameClasses c' i hi hc := h'.sameClasses c' i (h.sameClasses c' i hi hc) hc
  sameMethods l g hg hl := h'.sameMethods l g (h.sameMethods l g hg hl) fun h => hl (hm l g hg h)
  sameScopes l sc hsc hl := h'.sameScopes l sc (h.sameScopes l sc hsc hl) fun h => hl (hj l sc hsc h)
  fresh id e he := by
    rcases h'.fresh id e he with hi | hi
    · obtain ⟨e', he'⟩ := Registry.has_iff_entry.1 hi
      rcases h.fresh id e' he' with hi | ⟨hm, hp⟩
      · exact .inl hi
      · -- what is entered on the way is no class, so it stays as it is
        have := h'.sameTypes id e' he' fun c _ hc => by rw [hc] at hp; cases hp
        rw [he] at this
        cases this
        exact .inr ⟨hm, hp⟩
    · exact .inr hi
  noClass := h'.noClass.trans h.noClass
  tables := ⟨h'.tables.1.trans h.tables.1, h'.tables.2.trans h.tables.2⟩
  noBody l g hg := by
    rcases h'.noBody l g hg with hb | ⟨g₁, hg₁, hb⟩
    · exact .inl hb
    · rw [← hb]
      exact h.noBody l g₁ hg₁
  current := h'.current.trans h.current

theorem Frame.trans (h : Frame s s' c m j) (h' : Frame s' s'' c m j) : Frame s s'' c m j :=
  h.comp h' (fun _ _ _ h => h) fun _ _ _ h => h

/-- A step inside a scope that has just been added. -/
theorem Frame.trans_inner {l : ScopeId} (h : Frame s s' c m j) (hl : s.program.scopeAt? l = none)
    (h' : Frame s' s'' c m (some l)) : Frame s s'' c m j :=
  h.comp h' (fun _ _ _ h => h) fun l' sc hsc heq => by cases heq; rw [hl] at hsc; cases hsc

/-- What keeps all but some things keeps all but more things. -/
theorem Frame.weaken {c' : Option ClassId} {m' : Option MethodId} {j' : Option ScopeId}
    (h : Frame s s' c m j) (hc : c = none ∨ c = c') (hm : m = none ∨ m = m')
    (hj : j = none ∨ j = j') : Frame s s' c' m' j' where
  toGrows := h.toGrows
  sameTypes id e he hk := h.sameTypes id e he fun d hd => hk d (by grind)
  sameNames := h.sameNames
  sameClasses d i hi hd := h.sameClasses d i hi (by grind)
  sameMethods l g hg hl := h.sameMethods l g hg (by grind)
  sameScopes l sc hsc hl := h.sameScopes l sc hsc (by grind)
  fresh := h.fresh
  noClass := h.noClass
  tables := h.tables
  noBody := h.noBody
  current := h.current

/-! ## Entering a type -/

theorem Frame.intern (s : Resolver) {k : TypeKind} (hk : k.part?.isSome) :
    Frame s (s.withRegistry (s.registry.intern k).2) none none none :=
  { Frame.refl s none none none with
    types := fun id e he => ⟨e, (s.registry.intern_extends k).entry id e he, rfl, fun _ hm => hm⟩
    names := fun c n hn => by rw [← hn]; exact (s.registry.intern_extends k).className? c
    sameTypes := fun id e he _ => (s.registry.intern_extends k).entry id e he
    sameNames := (s.registry.intern_extends k).classNames
    fresh := by
      intro id e he
      rcases Registry.entry?_of_intern he with he | ⟨-, rfl⟩
      · exact .inl (Registry.has_iff_entry.2 ⟨e, he⟩)
      · exact .inr ⟨rfl, hk⟩ }

theorem Sound.intern (hs : s.Sound) {k : TypeKind} {t : TypeId} (hk : k.part? = some t)
    (ht : s.registry.Has t) : (s.withRegistry (s.registry.intern k).2).Sound := by
  have hr := Registry.intern_sound hs.registry (k := k) (by rw [hk]; rintro _ ⟨⟩; exact ht)
  refine hs.step (Frame.intern s (by rw [hk]; rfl)).toGrows hr
    { InOrder.refl _ s with named := ?_, classType := ?_, member := ?_ } hs.own
  · intro c n h
    rw [withRegistry, (Registry.intern_extends s.registry k).className?] at h
    exact .inl h
  · intro id c h
    rcases Registry.kind?_of_intern h with h | ⟨-, rfl⟩
    · exact .inl h
    · cases hk
  · intro id e n m he hm
    rcases Registry.entry?_of_intern he with he | ⟨-, rfl⟩
    · exact .inl ⟨e, he, hm⟩
    · simp at hm

/-! ## Adding a variable, a method or a scope -/

theorem Frame.pushVar (s : Resolver) (x : Variable) : Frame s (s.pushVar x) none none none :=
  { Frame.refl s none none none with
    vars := by
      intro v y hy
      rw [varAt?_pushVar, if_neg]
      · exact hy
      · rintro rfl; rw [varAt?_nextVar] at hy; cases hy }

theorem Sound.pushVar (hs : s.Sound) {x : Variable} (hx : VarOk s x) : (s.pushVar x).Sound := by
  have hg := (Frame.pushVar s x).toGrows
  refine hs.step hg hs.registry { InOrder.refl _ s with vars := ?_ } hs.own
  intro v y hy
  rw [varAt?_pushVar] at hy
  split at hy
  · cases hy; exact .inr (hx.mono hg)
  · exact .inl hy

theorem methodAt?_pushMethod_of_some {g' : Method} {m : MethodId}
    (h : s.program.methodAt? m = some g') : (s.pushMethod g).program.methodAt? m = some g' := by
  rw [methodAt?_pushMethod, if_neg]
  · exact h
  · rintro rfl; rw [methodAt?_nextMethod] at h; cases h

theorem Grows.pushMethod (s : Resolver) (g : Method) : s.Grows (s.pushMethod g) :=
  { Grows.refl s with
    methods := fun _ g' h => ⟨g', methodAt?_pushMethod_of_some h, rfl, rfl, rfl⟩ }

theorem Frame.pushMethod (s : Resolver) (hb : g.body = none) :
    Frame s (s.pushMethod g) none none none :=
  { Grows.pushMethod s g, Frame.refl s none none none with
    sameMethods := fun _ _ h _ => methodAt?_pushMethod_of_some h
    noBody := by
      intro m' g' h
      rw [methodAt?_pushMethod] at h
      split at h
      · cases h; exact .inl hb
      · exact .inr ⟨g', h, rfl⟩ }

theorem Sound.pushMethod (hs : s.Sound) (hg : MethodOk s g) (hj : g.scope = none) :
    (s.pushMethod g).Sound := by
  have hgr := Grows.pushMethod s g
  refine hs.step hgr hs.registry { InOrder.refl _ s with methods := ?_ } ?_
  · intro m g' hg'
    rw [methodAt?_pushMethod] at hg'
    split at hg'
    · cases hg'; exact .inr (hg.mono hgr)
    · exact .inl hg'
  · intro m m' a b l ha hb hal hbl
    rw [methodAt?_pushMethod] at ha hb
    split at ha
    · cases ha; rw [hj] at hal; cases hal
    · split at hb
      · cases hb; rw [hj] at hbl; cases hbl
      · exact hs.own m m' a b l ha hb hal hbl

theorem scopeAt?_pushScope_of_some {sc' : Scope} {j : ScopeId} (h : s.program.scopeAt? j = some sc') :
    (s.pushScope sc).program.scopeAt? j = some sc' := by
  rw [scopeAt?_pushScope, if_neg]
  · exact h
  · rintro rfl; rw [scopeAt?_nextScope] at h; cases h

theorem Frame.pushScope (s : Resolver) (sc : Scope) :
    Frame s (s.pushScope sc) none none none :=
  { Frame.refl s none none none with
    scopes := fun _ sc' h => ⟨sc', scopeAt?_pushScope_of_some h, .refl sc'⟩
    sameScopes := fun _ _ h _ => scopeAt?_pushScope_of_some h }

theorem Sound.pushScope (hs : s.Sound) (hsc : ScopeOk s s.nextScope sc) :
    (s.pushScope sc).Sound := by
  have hg := (Frame.pushScope s sc).toGrows
  refine hs.step hg hs.registry { InOrder.refl _ s with scopes := ?_ } hs.own
  intro j sc' hsc'
  rw [scopeAt?_pushScope] at hsc'
  split at hsc'
  · rename_i hj; cases hsc'; subst hj; exact .inr (hsc.mono hg)
  · exact .inl hsc'

/-! ## Replacing a scope, a method or a class -/

theorem Frame.setScope {l : ScopeId} {old : Scope} (hl : s.program.scopeAt? l = some old)
    (hgr : old.Grows sc) : Frame s (s.setScope l sc) none none (some l) :=
  { Frame.refl s none none (some l) with
    scopes := by
      intro j' sc' hsc'
      rw [scopeAt?_setScope hl]
      split
      · rename_i hj
        subst hj
        rw [hl] at hsc'
        cases hsc'
        exact ⟨sc, rfl, hgr⟩
      · exact ⟨sc', hsc', .refl sc'⟩
    sameScopes := by
      intro j' sc' h hj
      rw [scopeAt?_setScope hl, if_neg (fun he => hj (by rw [he]))]
      exact h }

theorem Sound.setScope (hs : s.Sound) {l : ScopeId} {old : Scope}
    (hl : s.program.scopeAt? l = some old) (hgr : old.Grows sc) (hok : ScopeOk s l sc) :
    (s.setScope l sc).Sound := by
  have hg := (Frame.setScope hl hgr).toGrows
  refine hs.step hg hs.registry { InOrder.refl _ s with scopes := ?_ } hs.own
  intro j' sc' hsc'
  rw [scopeAt?_setScope hl] at hsc'
  split at hsc'
  · rename_i hj; cases hsc'; subst hj; exact .inr (hok.mono hg)
  · exact .inl hsc'

theorem Grows.setMethod (hl : s.program.methodAt? l = some old) (hn : g.name = old.name)
    (ho : g.owner = old.owner) (hk : g.kind = old.kind) : s.Grows (s.setMethod l g) :=
  { Grows.refl s with
    methods := by
      intro m' g' hg'
      rw [methodAt?_setMethod hl]
      split
      · rename_i hm
        subst hm
        rw [hl] at hg'
        cases hg'
        exact ⟨g, rfl, hn, ho, hk⟩
      · exact ⟨g', hg', rfl, rfl, rfl⟩ }

theorem Frame.setMethod (hl : s.program.methodAt? l = some old) (hn : g.name = old.name)
    (ho : g.owner = old.owner) (hk : g.kind = old.kind) (hb : g.body = none) :
    Frame s (s.setMethod l g) none (some l) none :=
  { Grows.setMethod hl hn ho hk, Frame.refl s none (some l) none with
    sameMethods := by
      intro m' g' h hm
      rw [methodAt?_setMethod hl, if_neg (fun he => hm (by rw [he]))]
      exact h
    noBody := by
      intro m' g' h
      rw [methodAt?_setMethod hl] at h
      split at h
      · cases h; exact .inl hb
      · exact .inr ⟨g', h, rfl⟩ }

/-- A method may be replaced by one in order. -/
theorem Sound.setMethod (hs : s.Sound) (hl : s.program.methodAt? l = some old)
    (hn : g.name = old.name) (ho : g.owner = old.owner) (hk : g.kind = old.kind)
    (hok : MethodOk s g)
    (hown : g.scope = old.scope ∨ ∀ m' g', s.program.methodAt? m' = some g' → g'.scope ≠ g.scope) :
    (s.setMethod l g).Sound := by
  have hg := Grows.setMethod hl hn ho hk
  refine hs.step hg hs.registry { InOrder.refl _ s with methods := ?_ } ?_
  · intro m' g' hg'
    rw [methodAt?_setMethod hl] at hg'
    split at hg'
    · cases hg'; exact .inr (hok.mono hg)
    · exact .inl hg'
  · -- the scope is the one `l` had, or nobody's
    have other : ∀ m' g' j, s.program.methodAt? m' = some g' → g'.scope = some j →
        g.scope = some j → m' = l := by
      intro m' g' j hg' hj' hj
      rcases hown with h | h
      · exact hs.own m' l g' old j hg' hl hj' (h ▸ hj)
      · exact absurd (hj'.trans hj.symm) (h m' g' hg')
    intro m' m'' a b j ha hb hja hjb
    rw [methodAt?_setMethod hl] at ha hb
    split at ha <;> split at hb
    · rename_i h₁ h₂; rw [h₁, h₂]
    · rename_i h₁ _; cases ha; rw [h₁, other m'' b j hb hjb hja]
    · rename_i _ h₂; cases hb; rw [h₂, other m' a j ha hja hjb]
    · exact hs.own m' m'' a b j ha hb hja hjb

theorem Frame.setClass {l : ClassId} {old i : ClassInfo} (hl : s.program.classAt? l = some old)
    (hn : i.name = old.name) (ht : i.ty = old.ty) (hsc : i.scope = old.scope) :
    Frame s (s.setClass l i) (some l) none none :=
  { Frame.refl s (some l) none none with
    classes := by
      intro c' i' hi'
      rw [classAt?_setClass hl]
      split
      · rename_i hc
        subst hc
        rw [hl] at hi'
        cases hi'
        exact ⟨i, rfl, hn, ht, hsc⟩
      · exact ⟨i', hi', rfl, rfl, rfl⟩
    sameClasses := by
      intro c' i' h hc
      rw [classAt?_setClass hl, if_neg (fun he => hc (by rw [he]))]
      exact h
    noClass := by simp [Resolver.setClass] }

theorem Sound.setClass (hs : s.Sound) {l : ClassId} {old i : ClassInfo}
    (hl : s.program.classAt? l = some old) (hn : i.name = old.name) (ht : i.ty = old.ty)
    (hsc : i.scope = old.scope) (hok : ClassOk s l i) : (s.setClass l i).Sound := by
  have hg := (Frame.setClass hl hn ht hsc).toGrows
  refine hs.step hg hs.registry { InOrder.refl _ s with classes := ?_ } hs.own
  intro c' i' hi'
  rw [classAt?_setClass hl] at hi'
  split at hi'
  · rename_i hc; cases hi'; subst hc; exact .inr (hok.mono hg)
  · exact .inl hi'

end Resolver

/-! ## Adding a member -/

namespace Registry

variable {r : Registry} {id : TypeId} {e : TypeEntry}

/-- The registry with one member more in the type of number `id`, which is `e` so far. -/
def withMember (r : Registry) (id : TypeId) (e : TypeEntry) (name : String) (m : MethodId) :
    Registry :=
  let extended := { e with members := e.members ++ [(name, m)] }
  { r with types := r.types.setIfInBounds id.index extended }

theorem addMember_eq (h : r.entry? id = some e) (name : String) (m : MethodId) :
    r.addMember id name m = .ok (r.withMember id e name m) := by
  unfold addMember; rw [h]; rfl

theorem entry?_withMember (h : r.entry? id = some e) (name : String) (m : MethodId) (l : TypeId) :
    Registry.entry? (r.withMember id e name m) l =
      if l = id then some { e with members := e.members ++ [(name, m)] } else r.entry? l := by
  obtain ⟨i⟩ := l
  obtain ⟨k⟩ := id
  simp only [TypeId.mk.injEq]
  exact Resolver.getElem?_replace h _ i

/-- A further member leaves all types what they are. -/
theorem kind?_withMember (h : r.entry? id = some e) (name : String) (m : MethodId) (l : TypeId) :
    (r.withMember id e name m).kind? l = r.kind? l := by
  unfold kind?
  rw [entry?_withMember h]
  split
  · rename_i hl; subst hl; rw [h]; rfl
  · rfl

theorem Indexed.withMember (hr : r.Indexed) (h : r.entry? id = some e) (name : String)
    (m : MethodId) : (r.withMember id e name m).Indexed := by
  intro k l
  rw [kind?_withMember h]
  exact hr k l

theorem Sound.withMember (hr : r.Sound) (h : r.entry? id = some e) (name : String) (m : MethodId) :
    (r.withMember id e name m).Sound where
  natives k := by rw [kind?_withMember h]; exact hr.natives k
  descends l k t hk ht := by rw [kind?_withMember h] at hk; exact hr.descends l k t hk ht
  indexed := hr.indexed.withMember h name m

end Registry

namespace Resolver

variable {s : Resolver} {id : TypeId} {e : TypeEntry}

theorem Grows.withMember (h : s.registry.entry? id = some e) (name : String) (m : MethodId) :
    s.Grows (s.withRegistry (s.registry.withMember id e name m)) :=
  { Grows.refl s with
    types := by
      intro l e' he'
      rw [withRegistry, Registry.entry?_withMember h]
      split
      · rename_i hl
        subst hl
        rw [h] at he'
        cases he'
        exact ⟨_, rfl, rfl, by simp⟩
      · exact ⟨e', he', rfl, fun _ hm => hm⟩ }

theorem Frame.withMember {c : ClassId} (h : s.registry.entry? id = some e)
    (hk : e.kind = .ofClass c) (name : String) (m : MethodId) :
    Frame s (s.withRegistry (s.registry.withMember id e name m)) (some c) none none :=
  { Grows.withMember h name m, Frame.refl s (some c) none none with
    sameTypes := by
      intro l e' he' hne
      rw [Resolver.withRegistry, Registry.entry?_withMember h, if_neg]
      · exact he'
      · rintro rfl
        rw [h] at he'
        cases he'
        exact hne c rfl hk
    fresh := by
      intro l e' he'
      obtain ⟨k, hk⟩ := Registry.has_iff.1 (Registry.has_iff_entry.2 ⟨e', he'⟩)
      rw [Resolver.withRegistry, Registry.kind?_withMember h] at hk
      exact .inl (Registry.has_of_kind? hk) }

theorem Sound.withMember (hs : s.Sound) (h : s.registry.entry? id = some e) {name : String}
    {m : MethodId} {g : Method} (hm : s.program.methodAt? m = some g) (hn : g.name = name) :
    (s.withRegistry (s.registry.withMember id e name m)).Sound := by
  refine hs.step (Grows.withMember h name m) (hs.registry.withMember h name m)
    { InOrder.refl _ s with classType := ?_, member := ?_ } hs.own
  · intro l c hl
    rw [withRegistry, Registry.kind?_withMember h] at hl
    exact .inl hl
  · intro l e' n m' he' hm'
    rw [withRegistry, Registry.entry?_withMember h] at he'
    split at he'
    · rename_i hl
      cases he'
      rcases List.mem_append.1 hm' with hm' | hm'
      · exact .inl ⟨e, hl ▸ h, hm'⟩
      · cases List.mem_singleton.1 hm'
        exact .inr ⟨g, hm, hn⟩
    · exact .inl ⟨e', he', hm'⟩

end Resolver

end ClassLang
