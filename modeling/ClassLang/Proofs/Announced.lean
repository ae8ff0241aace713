import ClassLang.Proofs.Additions

/-!
# Announced units

After the first pass over a unit its classes and functions have numbers and are known by their names,
but nothing is known of them yet.

* `Resolver.ClassBlank`: a class of which only the name is known.
* `Resolver.Announced`: the classes and functions of a unit are there, are known by their names, and
  are blank.
* `Announced.pushClass`, `Announced.bindFunction`: **one declaration more is announced**.
* `Installing.announced`: the initial state announces the empty unit.
-/

namespace ClassLang

open Resolver Resolve

variable {α : Type}

namespace Resolver

variable {s s' : Resolver} {n : String} {span : Span} {global : Scope} {i : ClassInfo}

theorem Sound.scope_ne_global (hs : s.Sound) {c : ClassId} (hi : s.program.classAt? c = some i) :
    i.scope ≠ ScopeTree.globalId := by
  intro hj
  obtain ⟨sc, hsc, hk⟩ := (hs.classes c i hi).scope
  rw [((hs.scopes _ sc hsc).root).2 hj] at hk
  cases hk

/-- Nothing is known yet of the members of a class. -/
structure ClassBlank (s : Resolver) (i : ClassInfo) : Prop where
  fields : ∀ n : String, i.fields[n]? = none
  methods : ∀ n : String, i.methods[n]? = none
  scope : ∀ sc, s.program.scopeAt? i.scope = some sc → ∀ n : String,
    sc.vars[n]? = none ∧ sc.methods[n]? = none
  members : ∀ e, s.registry.entry? i.ty = some e → e.members = []
  order : i.fieldOrder = []

theorem ClassBlank.holds (h : s.ClassBlank i) (d : Dialect) (u : CompilationUnit) :
    s.ClassHolds d u i [] [] where
  fields n := by rw [h.fields]; rfl
  scopeVars sc hsc n := by rw [h.fields, (h.scope sc hsc n).1]
  methods sc hsc n := by rw [(h.scope sc hsc n).2]; rfl
  members sc e hsc he n := by
    rw [(h.scope sc hsc n).2]
    unfold TypeEntry.candidates
    rw [h.members e he]; rfl
  fieldTypes := nofun
  signatures := nofun

/-- A class stays blank while its scope and its type stay. -/
theorem ClassBlank.mono {c : ClassId} (hs : s.Sound) (hi : s.program.classAt? c = some i)
    (hsc : ∀ sc, s.program.scopeAt? i.scope = some sc → s'.program.scopeAt? i.scope = some sc)
    (he : ∀ e, s.registry.entry? i.ty = some e → s'.registry.entry? i.ty = some e)
    (h : s.ClassBlank i) : s'.ClassBlank i where
  fields := h.fields
  methods := h.methods
  scope sc hsc' := by
    obtain ⟨sc₀, hsc₀, -⟩ := (hs.classes c i hi).scope
    rw [hsc sc₀ hsc₀] at hsc'
    cases hsc'
    exact h.scope _ hsc₀
  members e he' := by
    obtain ⟨e₀, he₀, -⟩ := (hs.classes c i hi).entry
    rw [he e₀ he₀] at he'
    cases he'
    exact h.members _ he₀
  order := h.order

/-- **A unit is announced**: its classes and functions are there, `known` has them by name, and
nothing else is known of them. -/
structure Announced (s : Resolver) (d : Dialect) (u : CompilationUnit) (known : Declarations) :
    Prop where
  sound : s.Sound
  natives : s.Installed
  types : s.KnowsClasses u
  unresolved : ∀ m g, s.program.methodAt? m = some g → g.scope = none ∧ g.body = none
  classNames : (u.classes.map ClassDecl.name).Nodup
  notNative : ∀ c ∈ u.classes, d.catalog.contains c.name = false
  functionNames : (u.functions.map MethodDecl.name).Nodup
  classes : ∀ n : String, u.classNamed? n = (known.classes[n]?).map Prod.snd
  blank : ∀ (n : String) c decl, known.classes[n]? = some (c, decl) →
    ∃ i, s.program.classAt? c = some i ∧ i.name = n ∧ s.ClassBlank i
  listed : ∀ c i, s.program.classAt? c = some i → ∃ decl, known.classes[i.name]? = some (c, decl)
  functions : ∀ n : String, u.functionNamed? n = (known.functions[n]?).map Prod.snd
  announced : ∀ (n : String) m f, known.functions[n]? = some (m, f) →
    s.program.methodAt? m = some (f.announce none)
  global : ∀ sc, s.program.scopeAt? ScopeTree.globalId = some sc → ∀ n : String,
    sc.methods[n]? = (known.functions[n]?).map Prod.fst
  classTable : ∀ n : String, s.program.classNames[n]? = (known.classes[n]?).map Prod.fst
  functionTable : ∀ n : String, s.program.functions[n]? = (known.functions[n]?).map Prod.fst
  spans : ∀ (n : String) c decl i, known.classes[n]? = some (c, decl) →
    s.program.classAt? c = some i → i.span = decl.span

end Resolver

theorem CompilationUnit.classes_concat (decls : List Decl) (span : Span) (decl : Decl) :
    CompilationUnit.classes ⟨decls ++ [decl], span⟩ = CompilationUnit.classes ⟨decls, span⟩ ++
      match decl with
      | .ofClass c => [c]
      | .ofFunction _ => [] := by
  unfold CompilationUnit.classes
  rw [List.filterMap_append]
  cases decl <;> rfl

theorem CompilationUnit.functions_concat (decls : List Decl) (span : Span) (decl : Decl) :
    CompilationUnit.functions ⟨decls ++ [decl], span⟩ = CompilationUnit.functions ⟨decls, span⟩ ++
      match decl with
      | .ofClass _ => []
      | .ofFunction f => [f] := by
  unfold CompilationUnit.functions
  rw [List.filterMap_append]
  cases decl <;> rfl

/-- A name that nothing of a list has can be added. -/
theorem nodup_concat {l : List α} {f : α → String} {a : α} (h : (l.map f).Nodup)
    (ha : f a ∉ l.map f) : ((l ++ [a]).map f).Nodup := by
  rw [List.map_append, List.nodup_append]
  refine ⟨h, by simp, ?_⟩
  intro b hb c hc
  cases List.mem_singleton.1 hc
  rintro rfl
  exact ha hb

/-- A name is not found if and only if nothing of a list has it. -/
theorem find?_name_eq_none {l : List α} {f : α → String} {n : String} :
    l.find? (fun a => f a = n) = none ↔ n ∉ l.map f := by
  rw [List.find?_eq_none]
  constructor
  · intro h hn
    obtain ⟨a, ha, rfl⟩ := List.mem_map.1 hn
    simpa using h a ha
  · intro hn a ha hname
    have hname : f a = n := by simpa using hname
    exact hn (hname ▸ List.mem_map_of_mem ha)

theorem find?_concat {l : List α} {f : α → String} {a : α} (h : l.find? (fun b => f b = f a) = none)
    (n : String) :
    (l ++ [a]).find? (fun b => f b = n) = if f a = n then some a else l.find? fun b => f b = n := by
  rw [List.find?_append]
  by_cases hn : f a = n
  · subst hn
    simp [h]
  · simp [hn]

/-- Two tables that agree on the first part of an entry still do with an entry more in both. -/
theorem getElem?_insert_fst {β : Type} {ids : Std.TreeMap String α}
    {known : Std.TreeMap String (α × β)} (h : ∀ n : String, ids[n]? = (known[n]?).map Prod.fst)
    (k : String) (a : α) (b : β) (n : String) :
    (ids.insert k a)[n]? = ((known.insert k (a, b))[n]?).map Prod.fst := by
  rw [getElem?_insert_eq, getElem?_insert_eq]
  split
  · rfl
  · exact h n

namespace CompilationUnit

variable {decls : List Decl} {span : Span} {c : ClassDecl} {f : MethodDecl}

/-- The last class is found by its name if that was free, and the others as before. -/
theorem classNamed?_concat (hfree : classNamed? ⟨decls, span⟩ c.name = none) (n : String) :
    classNamed? ⟨decls ++ [.ofClass c], span⟩ n =
      if c.name = n then some c else classNamed? ⟨decls, span⟩ n := by
  unfold classNamed?
  rw [classes_concat]
  exact find?_concat hfree n

/-- The last function is found by its name if that was free, and the others as before. -/
theorem functionNamed?_concat (hfree : functionNamed? ⟨decls, span⟩ f.name = none) (n : String) :
    functionNamed? ⟨decls ++ [.ofFunction f], span⟩ n =
      if f.name = n then some f else functionNamed? ⟨decls, span⟩ n := by
  unfold functionNamed?
  rw [functions_concat]
  exact find?_concat hfree n

/-- A class more leaves the functions as they are, -/
theorem functions_concat_class :
    functions ⟨decls ++ [.ofClass c], span⟩ = functions ⟨decls, span⟩ := by
  rw [functions_concat, List.append_nil]

/-- and a function more the classes. -/
theorem classes_concat_function :
    classes ⟨decls ++ [.ofFunction f], span⟩ = classes ⟨decls, span⟩ := by
  rw [classes_concat, List.append_nil]

end CompilationUnit

namespace Resolver

variable {s : Resolver} {d : Dialect} {decls : List Decl} {span : Span} {known : Declarations}
  {global : Scope} {c : ClassDecl}

/-- The classes that are named in the global scope are those that are known. -/
theorem Announced.type_eq_none {u : CompilationUnit} (h : s.Announced d u known) {n : String}
    (hg : s.program.scopeAt? ScopeTree.globalId = some global) (hn : known.classes[n]? = none) :
    global.types[n]? = none := by
  have htypes := h.types global hg n
  rw [h.classes n, hn] at htypes
  cases hty : global.types[n]? with
  | none => rfl
  | some ty =>
    obtain ⟨-, c, i, hi, -, rfl⟩ := (h.sound.scopes _ _ hg).type n ty hty
    rw [hty, Option.bind_some, h.sound.meaning?_class hi] at htypes
    cases htypes

section

variable {c : ClassDecl} {global : Scope}
  (hg : s.program.scopeAt? ScopeTree.globalId = some global)

theorem Installed.pushClass (h : s.Installed) (hs : s.Sound)
    (hgr : s.Grows (s.pushClass global c.name c.span))
    (hs' : (s.pushClass global c.name c.span).Sound) :
    (s.pushClass global c.name c.span).Installed := by
  refine h.mono hs (fun id e he _ => entry?_pushClass_of_some he) ?_ hgr ?_
  · intro id e he
    rw [registry_pushClass, Registry.entry?_pushClass] at he
    split at he
    · cases he; exact .inr rfl
    · exact .inl (Registry.has_iff_entry.2 ⟨e, he⟩)
  · intro m g sig hgm _ hsig
    exact hgr.signatureOf? hs.registry hs'.registry hgm hgm rfl rfl hsig

include hg

/-- The new class is known by its name. -/
theorem KnowsClasses.pushClass {u u' : CompilationUnit} (h : s.KnowsClasses u) (hs : s.Sound)
    (hty : global.types[c.name]? = none)
    (hfind : ∀ n, u'.classNamed? n = if c.name = n then some c else u.classNamed? n) :
    (s.pushClass global c.name c.span).KnowsClasses u' := by
  have hgr : s.Grows (s.pushClass global c.name c.span) := Grows.pushClass hs hg hty
  have hs' : (s.pushClass global c.name c.span).Sound := hs.pushClass hg hty
  intro sc hsc n
  rw [scopeAt?_pushClass_global hg] at hsc
  cases hsc
  rw [hfind, getElem?_insert_eq]
  by_cases hn : c.name = n
  · rw [if_pos hn, if_pos hn]
    exact hs'.meaning?_class classAt?_pushClass_self
  · rw [if_neg hn, if_neg hn, ← h global hg n]
    cases htn : global.types[n]? with
    | none => rfl
    | some ty =>
      obtain ⟨-, c', i, hi, -, rfl⟩ := (hs.scopes _ _ hg).type n ty htn
      have hm := hs.meaning?_class hi
      exact (hgr.meaning? hs.registry hs'.registry hm).trans hm.symm

/-- The new class is blank, -/
theorem ClassBlank.newClass :
    (s.pushClass global c.name c.span).ClassBlank (s.newClass c.name c.span) where
  fields := by simp [Resolver.newClass]
  methods := by simp [Resolver.newClass]
  scope sc hsc n := by
    rw [scopeAt?_pushClass hg] at hsc
    simp only [Resolver.newClass, if_true, Option.some.injEq] at hsc
    subst hsc
    simp [Scope.empty]
  members e he := by
    rw [registry_pushClass, Registry.entry?_pushClass] at he
    simp only [Resolver.newClass, if_true, Option.some.injEq] at he
    subst he
    rfl
  order := rfl

/-- and the others stay so. -/
theorem ClassBlank.pushClass {c' : ClassId} {i : ClassInfo} (h : s.ClassBlank i) (hs : s.Sound)
    (hi : s.program.classAt? c' = some i) : (s.pushClass global c.name c.span).ClassBlank i :=
  h.mono hs hi (fun _ hsc => scopeAt?_pushClass_of_some hg (hs.scope_ne_global hi) hsc)
    fun _ he => entry?_pushClass_of_some he

end

/-! ## Announcing a class -/

/-- Every class that is known once a class has been added is blank, and is entered with its name and
its place. It is the new class or one of those before. -/
theorem Announced.known_pushClass (h : s.Announced d ⟨decls, span⟩ known)
    (hg : s.program.scopeAt? ScopeTree.globalId = some global) {n : String} {c' : ClassId}
    {decl : ClassDecl}
    (hc' : (known.classes.insert c.name (s.program.nextClass, c))[n]? = some (c', decl)) :
    ∃ i, (s.pushClass global c.name c.span).program.classAt? c' = some i ∧ i.name = n ∧
      i.span = decl.span ∧ (s.pushClass global c.name c.span).ClassBlank i := by
  rw [getElem?_insert_eq] at hc'
  split at hc'
  · rename_i hn
    cases hc'
    exact ⟨_, classAt?_pushClass_self, hn, rfl, .newClass hg⟩
  · obtain ⟨i, hi, hname, hblank⟩ := h.blank n c' decl hc'
    exact ⟨i, classAt?_pushClass_of_some hi, hname, h.spans n c' decl i hc' hi,
      hblank.pushClass hg h.sound hi⟩

/-- Every class of the program is known once a class has been added. -/
theorem Announced.listed_pushClass (h : s.Announced d ⟨decls, span⟩ known)
    (hn : known.classes[c.name]? = none) {c' : ClassId} {i : ClassInfo}
    (hi : (s.pushClass global c.name c.span).program.classAt? c' = some i) :
    ∃ decl, (known.classes.insert c.name (s.program.nextClass, c))[i.name]? = some (c', decl) := by
  rw [classAt?_pushClass] at hi
  split at hi
  · rename_i hc'
    cases hi
    subst hc'
    exact ⟨c, getElem?_insert_eq.trans (if_pos rfl)⟩
  · obtain ⟨decl, hd⟩ := h.listed c' i hi
    exact ⟨decl, getElem?_insert_of_some hn hd⟩

/-- **Announcing a class.** Its name is neither that of a class before it nor that of a native type.
The functions are as they were. -/
theorem Announced.pushClass (h : s.Announced d ⟨decls, span⟩ known)
    (hg : s.program.scopeAt? ScopeTree.globalId = some global) (hn : known.classes[c.name]? = none)
    (hcat : d.catalog.contains c.name = false) :
    (s.pushClass global c.name c.span).Announced d ⟨decls ++ [.ofClass c], span⟩
      { known with classes := known.classes.insert c.name (s.program.nextClass, c) } := by
  have hs := h.sound
  -- a name that is not known is bound nowhere, so the state grows and stays sound
  have hty := h.type_eq_none hg hn
  have hgr : s.Grows (s.pushClass global c.name c.span) := Grows.pushClass hs hg hty
  have hs' : (s.pushClass global c.name c.span).Sound := hs.pushClass hg hty
  have hfree : CompilationUnit.classNamed? ⟨decls, span⟩ c.name = none := by
    rw [h.classes, hn]; rfl
  have hfind := CompilationUnit.classNamed?_concat hfree
  exact
    { sound := hs'
      natives := h.natives.pushClass hs hgr hs'
      types := h.types.pushClass hg hs hty hfind
      unresolved := h.unresolved
      classNames := by
        rw [CompilationUnit.classes_concat]
        exact nodup_concat h.classNames (find?_name_eq_none.1 hfree)
      notNative := by
        intro c' hc'
        rw [CompilationUnit.classes_concat] at hc'
        rcases List.mem_append.1 hc' with hc' | hc'
        · exact h.notNative c' hc'
        · cases List.mem_singleton.1 hc'; exact hcat
      functionNames := by
        rw [CompilationUnit.functions_concat_class]
        exact h.functionNames
      classes := by
        intro n
        rw [hfind, getElem?_insert_eq]
        split
        · rfl
        · exact h.classes n
      blank := by
        intro n c' decl hc'
        obtain ⟨i, hi, hname, -, hblank⟩ := h.known_pushClass hg hc'
        exact ⟨i, hi, hname, hblank⟩
      listed := fun c' i hi => h.listed_pushClass hn hi
      functions := by
        intro n
        unfold CompilationUnit.functionNamed?
        rw [CompilationUnit.functions_concat_class]
        exact h.functions n
      announced := h.announced
      global := by
        -- the global scope has a type more, but binds the functions that it did
        intro sc hsc
        rw [scopeAt?_pushClass_global hg] at hsc
        cases hsc
        exact h.global global hg
      classTable := getElem?_insert_fst h.classTable c.name s.program.nextClass c
      functionTable := h.functionTable
      spans := by
        intro n c' decl i hc' hi
        obtain ⟨i', hi', -, hspan, -⟩ := h.known_pushClass hg hc'
        rw [hi'] at hi
        cases hi
        exact hspan }

/-! ## Announcing a function -/

/-- What is entered for a function is in order. -/
theorem Sound.announce_ok (hs : s.Sound) (f : MethodDecl) : MethodOk s (f.announce none) where
  owner := nofun
  result := hs.registry.has_native .void
  argument := nofun
  receiver := nofun
  scope := nofun
  operand := by
    intro symbol ty hk
    unfold MethodDecl.announce MethodDecl.kind at hk
    cases hb : f.body <;> simp [hb] at hk

section

variable {f : MethodDecl} {global : Scope}
  (hg : s.program.scopeAt? ScopeTree.globalId = some global)

include hg

/-- The native operators are found as before. -/
theorem Installed.bindFunction (h : s.Installed) (hs : s.Sound)
    (hm : global.methods[f.name]? = none)
    (hs' : (s.bindFunction global (f.announce none)).Sound) :
    (s.bindFunction global (f.announce none)).Installed := by
  have hgrows : s.Grows (s.bindFunction global (f.announce none)) := Grows.bindFunction hg hm
  refine h.mono hs (fun _ _ he _ => he)
    (fun _ e he => .inl (Registry.has_iff_entry.2 ⟨e, he⟩)) hgrows ?_
  intro m g sig hgm _ hsig
  exact hgrows.signatureOf? hs.registry hs'.registry hgm (methodAt?_pushMethod_of_some hgm)
    rfl rfl hsig

/-- The classes are known by the names they had. -/
theorem KnowsClasses.bindFunction {u u' : CompilationUnit} (h : s.KnowsClasses u) (hs : s.Sound)
    (hm : global.methods[f.name]? = none)
    (hs' : (s.bindFunction global (f.announce none)).Sound)
    (hnamed : u'.classNamed? = u.classNamed?) :
    (s.bindFunction global (f.announce none)).KnowsClasses u' := by
  have htypes := h.mono (Grows.bindFunction hg hm) hs hs' fun sc hsc => by
    rw [hg] at hsc
    cases hsc
    exact ⟨_, scopeAt?_bindFunction_global hg, rfl⟩
  unfold KnowsClasses at htypes ⊢
  rw [hnamed]
  exact htypes

/-- A blank class stays so: of the scopes only the global one changes, and no class has that. -/
theorem ClassBlank.bindFunction {c : ClassId} {i : ClassInfo} (h : s.ClassBlank i) (hs : s.Sound)
    (hm : global.methods[f.name]? = none) (hi : s.program.classAt? c = some i) :
    (s.bindFunction global (f.announce none)).ClassBlank i := by
  have hset : Frame (s.pushFunction (f.announce none)) (s.bindFunction global (f.announce none))
      none none (some ScopeTree.globalId) := Frame.bindFunction hg hm
  refine h.mono hs hi (fun sc hsc => ?_) fun e he => he
  exact hset.sameScopes _ _ hsc fun hj => hs.scope_ne_global hi (Option.some.inj hj).symm

end

/-- **Announcing a function.** Its name is that of no function before it. The classes are as they
were. -/
theorem Announced.bindFunction (h : s.Announced d ⟨decls, span⟩ known) {f : MethodDecl}
    (hg : s.program.scopeAt? ScopeTree.globalId = some global)
    (hn : known.functions[f.name]? = none) :
    (s.bindFunction global (f.announce none)).Announced d ⟨decls ++ [.ofFunction f], span⟩
      { known with functions := known.functions.insert f.name (s.nextMethod, f) } := by
  have hs := h.sound
  -- a name that is not known is bound nowhere, so the state stays sound
  have hm : global.methods[f.name]? = none := by rw [h.global global hg, hn]; rfl
  have hs' : (s.bindFunction global (f.announce none)).Sound :=
    hs.bindFunction hg (hs.announce_ok f) rfl rfl hm
  have hfree : CompilationUnit.functionNamed? ⟨decls, span⟩ f.name = none := by
    rw [h.functions, hn]; rfl
  have hclasses : CompilationUnit.classes ⟨decls ++ [.ofFunction f], span⟩ =
      CompilationUnit.classes ⟨decls, span⟩ := CompilationUnit.classes_concat_function
  have hnamed : CompilationUnit.classNamed? ⟨decls ++ [.ofFunction f], span⟩ =
      CompilationUnit.classNamed? ⟨decls, span⟩ := by
    unfold CompilationUnit.classNamed?
    rw [hclasses]
  exact
    { sound := hs'
      natives := h.natives.bindFunction hg hs hm hs'
      types := h.types.bindFunction hg hs hm hs' hnamed
      unresolved := by
        intro m g hgm
        rw [methodAt?_bindFunction] at hgm
        split at hgm
        · cases hgm; exact ⟨rfl, rfl⟩
        · exact h.unresolved m g hgm
      classNames := by rw [hclasses]; exact h.classNames
      notNative := by rw [hclasses]; exact h.notNative
      functionNames := by
        rw [CompilationUnit.functions_concat]
        exact nodup_concat h.functionNames (find?_name_eq_none.1 hfree)
      classes := by rw [hnamed]; exact h.classes
      blank := by
        intro n c decl hc
        obtain ⟨i, hi, hname, hblank⟩ := h.blank n c decl hc
        exact ⟨i, hi, hname, hblank.bindFunction hg hs hm hi⟩
      listed := h.listed
      functions := by
        intro n
        rw [CompilationUnit.functionNamed?_concat hfree, getElem?_insert_eq]
        split
        · rfl
        · exact h.functions n
      announced := by
        -- a function is found under the number it was given when its name was bound
        intro n m f' hf'
        rw [getElem?_insert_eq] at hf'
        split at hf'
        · cases hf'
          exact (methodAt?_bindFunction _).trans (if_pos rfl)
        · exact methodAt?_pushMethod_of_some (h.announced n m f' hf')
      global := by
        intro sc hsc
        rw [scopeAt?_bindFunction_global hg] at hsc
        cases hsc
        exact getElem?_insert_fst (h.global global hg) f.name s.nextMethod f
      classTable := h.classTable
      functionTable := getElem?_insert_fst h.functionTable f.name s.nextMethod f
      spans := h.spans }

/-- Before the first declaration nothing is announced, and the state knows the native types only. -/
theorem Installing.announced (h : s.Installing Native.operators) :
    s.Announced d ⟨[], span⟩ .empty := by
  -- only the global scope is there, and no class
  have hglobal : ∀ sc, s.program.scopeAt? ScopeTree.globalId = some sc →
      sc = .empty .global none := by
    intro sc hsc
    unfold Program.scopeAt? at hsc
    rw [h.scopes] at hsc
    cases hsc; rfl
  have hclass : ∀ c, s.program.classAt? c = none := by
    intro c
    unfold Program.classAt?
    rw [h.classes]
    rfl
  exact
    { sound := h.sound
      natives := h.installed
      types := by
        intro sc hsc n
        rw [hglobal sc hsc]
        simp [Scope.empty, CompilationUnit.classNamed?, CompilationUnit.classes]
      unresolved := h.methods
      classNames := List.nodup_nil
      notNative := nofun
      functionNames := List.nodup_nil
      classes := by
        simp [Declarations.empty, CompilationUnit.classNamed?, CompilationUnit.classes]
      blank := by simp [Declarations.empty]
      listed := by
        intro c i hi
        rw [hclass] at hi
        cases hi
      functions := by
        simp [Declarations.empty, CompilationUnit.functionNamed?, CompilationUnit.functions]
      announced := by simp [Declarations.empty]
      global := by
        intro sc hsc n
        rw [hglobal sc hsc]
        simp [Scope.empty, Declarations.empty]
      classTable := by simp [h.tables.1, Declarations.empty]
      functionTable := by simp [h.tables.2, Declarations.empty]
      spans := by simp [Declarations.empty] }

end Resolver

end ClassLang
