import ClassLang.Proofs.Announced

/-!
# Declaring classes and functions

The first pass over a unit gives its classes and functions their numbers.

* `declareClass_leads`, `declareFunction_leads`: one declaration is announced, or its name is taken.
* `declare_leads`: the pass fails only if two classes or two functions have one name, or a class has
  the name of a native type; otherwise the unit is announced afterwards.
-/

namespace ClassLang

open Resolver Resolve

variable {s : Resolver} {d : Dialect} {u : CompilationUnit} {known : Declarations}

theorem internClass_leads (hs : s.Sound) {n : String} {E : Diagnostic → Prop} :
    Leads (internClass s.program.nextClass n) s (fun ty s' => ty = s.registry.nextType ∧
      s' = s.withRegistry (s.registry.pushClass s.program.nextClass n)) E := by
  unfold internClass
  apply Leads.get_seq
  rw [Registry.internClass_eq hs.registry.indexed hs.kind?_ne_nextClass]
  exact ⟨rfl, rfl⟩

/-- **One class is announced**, or its name is taken. -/
theorem declareClass_leads {decls : List Decl} {span : Span}
    (h : s.Announced d ⟨decls, span⟩ known) (c : ClassDecl) :
    Leads (declareClass d known c) s
      (fun id s' => s'.Announced d ⟨decls ++ [.ofClass c], span⟩
        { known with classes := known.classes.insert c.name (id, c) })
      (Refused (known.classes[c.name]? = none ∧ d.catalog.contains c.name = false)) := by
  obtain ⟨global, hg⟩ := h.sound.global
  unfold declareClass
  by_cases hc : (known.classes.contains c.name || d.catalog.contains c.name) = true
  · rw [if_pos hc]
    refine ⟨rfl, fun hfree => ?_⟩
    rw [hfree.2, Bool.or_false, ScopeTree.contains_iff] at hc
    exact hc hfree.1
  · rw [if_neg hc]
    simp only [Bool.or_eq_true, not_or, ScopeTree.contains_iff, Decidable.not_not,
      Bool.not_eq_true] at hc
    obtain ⟨hn, hcat⟩ := hc
    have hann := h.pushClass hg hn hcat
    refine Leads.get_seq
      ((internClass_leads h.sound).sure_seq ?_)
    rintro _ _ ⟨rfl, rfl⟩
    -- the name is free in the global scope, so the type can be declared
    have hfree := h.type_eq_none hg hn
    refine Leads.sure_seq (Q := fun _ s' => s' = (s.withRegistry
        (s.registry.pushClass s.program.nextClass c.name)).setScope ScopeTree.globalId
          { global with types := global.types.insert c.name s.registry.nextType }) ?_ ?_
    · refine updateScopes_leads ((ScopeTree.declareType_leads hg _).imp ?_ ?_)
      · rintro _ _ ⟨rfl, -⟩; rfl
      · exact fun _ hr => hr.2 hfree
    · rintro _ _ rfl
      refine Leads.sure_seq (Q := fun j s' => j = s.nextScope ∧ s' = Resolver.pushScope _ _)
        ⟨nextScope_setScope, rfl⟩ ?_
      rintro _ _ ⟨rfl, rfl⟩
      exact hann

/-- **One function is announced**, or its name is taken. -/
theorem declareFunction_leads {decls : List Decl} {span : Span}
    (h : s.Announced d ⟨decls, span⟩ known) (f : MethodDecl) :
    Leads (declareFunction known f) s
      (fun id s' => s'.Announced d ⟨decls ++ [.ofFunction f], span⟩
        { known with functions := known.functions.insert f.name (id, f) })
      (Refused (known.functions[f.name]? = none)) := by
  obtain ⟨global, hg⟩ := h.sound.global
  unfold declareFunction
  by_cases hc : known.functions.contains f.name = true
  · rw [if_pos hc]
    exact ⟨rfl, ScopeTree.contains_iff.1 hc⟩
  · rw [if_neg hc]
    rw [ScopeTree.contains_iff, Decidable.not_not] at hc
    have hfree : global.methods[f.name]? = none := by rw [h.global global hg, hc]; rfl
    show Leads (updateScopes _ >>= fun _ => pure s.nextMethod)
      (s.pushFunction (f.announce none)) _ _
    refine Leads.sure_seq (Q := fun _ s' => s' = s.bindFunction global (f.announce none)) ?_ ?_
    · refine updateScopes_leads ((ScopeTree.declareMethod_leads hg _).imp ?_ ?_)
      · rintro _ _ ⟨rfl, -⟩; rfl
      · exact fun _ hr => hr.2 hfree
    · rintro _ _ rfl
      exact h.bindFunction hg hc

/-- **The names of a unit are distinct**: no two classes and no two functions have the same, and no
class has that of a native type. -/
structure CompilationUnit.DistinctNames (d : Dialect) (u : CompilationUnit) : Prop where
  classes : (u.classes.map ClassDecl.name).Nodup
  notNative : ∀ c ∈ u.classes, d.catalog.contains c.name = false
  functions : (u.functions.map MethodDecl.name).Nodup

theorem CompilationUnit.WellDeclared.distinctNames (hu : u.WellDeclared d) : u.DistinctNames d :=
  ⟨hu.classNames, fun c hc => (hu.classes c hc).notNative, hu.functionNames⟩

/-- Where names are distinct, a name is still free when it is declared. -/
theorem CompilationUnit.DistinctNames.class_free {pre post : List Decl} {c : ClassDecl}
    (hu : u.DistinctNames d) (hdecls : u.decls = pre ++ .ofClass c :: post)
    (h : s.Announced d ⟨pre, u.span⟩ known) :
    known.classes[c.name]? = none ∧ d.catalog.contains c.name = false := by
  have hclasses : u.classes = CompilationUnit.classes ⟨pre, u.span⟩ ++
      c :: CompilationUnit.classes ⟨post, u.span⟩ := by
    unfold CompilationUnit.classes
    rw [hdecls, List.filterMap_append]
    rfl
  refine ⟨?_, hu.notNative c (by rw [hclasses]; simp)⟩
  have hnodup := hu.classes
  rw [hclasses, List.map_append, List.map_cons, List.nodup_append] at hnodup
  have hnone : CompilationUnit.classNamed? ⟨pre, u.span⟩ c.name = none := by
    refine List.find?_eq_none.2 fun c' hc' hname => ?_
    exact hnodup.2.2 c'.name (List.mem_map_of_mem hc') c.name List.mem_cons_self
      (by simpa using hname)
  rw [h.classes, Option.map_eq_none_iff] at hnone
  exact hnone

theorem CompilationUnit.DistinctNames.function_free {pre post : List Decl} {f : MethodDecl}
    (hu : u.DistinctNames d) (hdecls : u.decls = pre ++ .ofFunction f :: post)
    (h : s.Announced d ⟨pre, u.span⟩ known) : known.functions[f.name]? = none := by
  have hfunctions : u.functions = CompilationUnit.functions ⟨pre, u.span⟩ ++
      f :: CompilationUnit.functions ⟨post, u.span⟩ := by
    unfold CompilationUnit.functions
    rw [hdecls, List.filterMap_append]
    rfl
  have hnodup := hu.functions
  rw [hfunctions, List.map_append, List.map_cons, List.nodup_append] at hnodup
  have hnone : CompilationUnit.functionNamed? ⟨pre, u.span⟩ f.name = none := by
    refine List.find?_eq_none.2 fun f' hf' hname => ?_
    exact hnodup.2.2 f'.name (List.mem_map_of_mem hf') f.name List.mem_cons_self
      (by simpa using hname)
  rw [h.functions, Option.map_eq_none_iff] at hnone
  exact hnone

/-- **The first pass announces the unit**, or its names are not distinct. -/
theorem declare_leads (h : s.Installing Native.operators) :
    Leads (declare d u) s (fun known s' => s'.Announced d u known)
      (Refused (u.DistinctNames d)) := by
  unfold declare
  refine Leads.foldlM (fun pre known (s : Resolver) => s.Announced d ⟨pre, u.span⟩ known)
    h.announced ?_
  intro pre decl post known s hdecls hI
  cases decl with
  | ofClass c =>
    refine (declareClass_leads hI c).seq_imp
      (fun _ hr => hr.imp fun hu => hu.class_free hdecls hI) ?_
    exact fun _ _ h => Leads.pure h
  | ofFunction f =>
    refine (declareFunction_leads hI f).seq_imp
      (fun _ hr => hr.imp fun hu => hu.function_free hdecls hI) ?_
    exact fun _ _ h => Leads.pure h

end ClassLang
