import ClassLang.Proofs.BodyIndependence
import ClassLang.Proofs.TypeIdentity

/-!
# Which declarations are accepted

The first two passes look at names only. `CompilationUnit.WellFormed` says what they ask for: names
that are distinct where they have to be, and written types whose first name stands for something,
wherever in the unit that is declared.

* `signaturesResolve_iff`: the two passes succeed if and only if the unit is well formed.
* `DistinctNames.not_repeats`, `FirstRepeat.unique`: a declaration that repeats an earlier one, and
  the first of them.
* `declare_refuses`: the first pass fails at the first declaration that repeats another.
* `headings_accepted`: both together.
-/

namespace ClassLang

open Resolver Resolve

/-! ## Well-formed declarations -/

section

variable (d : Dialect) (u : CompilationUnit)

/-- A name stands for a type: the dialect has a native type of that name, or the unit a class. -/
def CompilationUnit.Names (n : String) : Prop :=
  d.catalog.contains n = true ∨ ∃ c ∈ u.classes, c.name = n

/-- A method is well formed: no two arguments share a name, none takes that of the receiver, and its
written types start with names of types. -/
structure MethodDecl.WellFormed (inClass : Bool) (m : MethodDecl) : Prop where
  argumentNames : (m.arguments.map ArgumentDecl.name).Nodup
  notThis : inClass = true → ∀ a ∈ m.arguments, a.name ≠ "this"
  argumentTypes : ∀ a ∈ m.arguments, u.Names d a.type.base
  resultType : ∀ type, m.result = some type → u.Names d type.base

/-- A class is well formed. -/
structure ClassDecl.WellFormed (c : ClassDecl) : Prop where
  fieldNames : (c.fields.map FieldDecl.name).Nodup
  fieldTypes : ∀ f ∈ c.fields, u.Names d f.type.base
  methodNames : (c.methods.map MethodDecl.name).Nodup
  methods : ∀ m ∈ c.methods, m.WellFormed d u true

/-- **The declarations of a unit are well formed**, in whatever order they are written. -/
structure CompilationUnit.WellFormed : Prop where
  classNames : (u.classes.map ClassDecl.name).Nodup
  notNative : ∀ c ∈ u.classes, d.catalog.contains c.name = false
  classes : ∀ c ∈ u.classes, c.WellFormed d u
  functionNames : (u.functions.map MethodDecl.name).Nodup
  functions : ∀ f ∈ u.functions, f.WellFormed d u false

end

variable {d : Dialect} {u : CompilationUnit}

theorem Catalog.isSome_find? (c : Catalog) (n : String) : (c.find? n).isSome = c.contains n :=
  Std.TreeMap.contains_eq_isSome_getElem?.symm

/-- A written type denotes something if and only if the name it starts with does. -/
theorem TypeName.denoted?_isSome_iff (type : TypeName) :
    (type.denoted? d u).isSome = true ↔ u.Names d type.base := by
  induction type with
  | named n span =>
    unfold denoted? base CompilationUnit.Names
    rw [← d.catalog.isSome_find?]
    cases d.catalog.find? n with
    | some k => simp
    | none => simp [CompilationUnit.classNamed?]
  | pointer target span ih | array element span ih => rw [denoted?, Option.isSome_map]; exact ih

/-- What resolution asks of a method, said of its text. -/
theorem MethodDecl.declared_iff {inClass : Bool} (m : MethodDecl) :
    m.Declared d u inClass ↔ m.WellFormed d u inClass := by
  have hresult : (m.result? d u).isSome = true ↔
      ∀ type, m.result = some type → u.Names d type.base := by
    unfold MethodDecl.result?
    cases m.result with
    | none => simp
    | some type => simp [type.denoted?_isSome_iff]
  have hthis : "this" ∉ m.arguments.map ArgumentDecl.name ↔ ∀ a ∈ m.arguments, a.name ≠ "this" := by
    simp
  constructor
  · intro h
    exact ⟨h.distinct, fun hc => hthis.1 (h.notThis hc),
      fun a ha => a.type.denoted?_isSome_iff.1 (h.arguments a ha), hresult.1 h.result⟩
  · intro h
    exact ⟨fun a ha => a.type.denoted?_isSome_iff.2 (h.argumentTypes a ha),
      hresult.2 h.resultType, h.argumentNames, fun hc => hthis.2 (h.notThis hc)⟩

theorem CompilationUnit.wellDeclared_iff : u.WellDeclared d ↔ u.WellFormed d := by
  constructor
  · intro h
    refine ⟨h.classNames, fun c hc => (h.classes c hc).notNative, fun c hc => ?_, h.functionNames,
      fun f hf => f.declared_iff.1 (h.functions f hf)⟩
    have hdecl := h.classes c hc
    exact ⟨hdecl.fieldNames, fun f hf => f.type.denoted?_isSome_iff.1 (hdecl.fields f hf),
      hdecl.methodNames, fun m hm => m.declared_iff.1 (hdecl.methods m hm)⟩
  · intro h
    refine ⟨h.classNames, fun c hc => ?_, h.functionNames,
      fun f hf => f.declared_iff.2 (h.functions f hf)⟩
    have hdecl := h.classes c hc
    exact ⟨h.notNative c hc, fun f hf => f.type.denoted?_isSome_iff.2 (hdecl.fieldTypes f hf),
      hdecl.fieldNames, fun m hm => m.declared_iff.2 (hdecl.methods m hm), hdecl.methodNames⟩

/-- **The first two passes succeed** if and only if the declarations are well formed. -/
theorem CompilationUnit.signaturesResolve_iff : u.SignaturesResolve d ↔ u.WellFormed d := by
  rw [← wellDeclared_iff]
  obtain ⟨s₀, h₀⟩ : ∃ s, s = Resolver.initial := ⟨_, rfl⟩
  unfold SignaturesResolve
  rw [← h₀]
  exact ((readSignatures_signs d u h₀).imp (fun _ _ h => h.declared) fun _ hr => hr.2).succeeds_iff

/-! ## The first declaration that repeats another -/

/-- A declaration repeats an earlier one of its kind, or is a class with the name of a native type. -/
def Decl.Repeats (d : Dialect) (before : List Decl) : Decl → Prop
  | .ofClass c => (∃ c', .ofClass c' ∈ before ∧ c'.name = c.name) ∨ d.catalog.contains c.name = true
  | .ofFunction f => ∃ f', .ofFunction f' ∈ before ∧ f'.name = f.name

/-- What is said of a declaration that repeats another: its name, and where it stands. -/
def Decl.complaint : Decl → Diagnostic
  | .ofClass c => ⟨.duplicateClass c.name, c.span⟩
  | .ofFunction f => ⟨.duplicateMethod f.name, f.span⟩

/-- **The first declaration of a unit, as they are written, that repeats another.** -/
def CompilationUnit.FirstRepeat (d : Dialect) (u : CompilationUnit) (decl : Decl) : Prop :=
  ∃ before after, u.decls = before ++ decl :: after ∧ decl.Repeats d before ∧
    ∀ before' decl' after', before = before' ++ decl' :: after' → ¬ decl'.Repeats d before'

/-- Where names are distinct nothing is repeated. -/
theorem CompilationUnit.DistinctNames.not_repeats {decls before after : List Decl} {span : Span}
    {decl : Decl} (h : CompilationUnit.DistinctNames d ⟨decls, span⟩)
    (hsplit : decls = before ++ decl :: after) : ¬ decl.Repeats d before := by
  subst hsplit
  cases decl with
  | ofClass c =>
    rintro (⟨c', hc', hname⟩ | hnative)
    · have hnodup := h.classes
      unfold CompilationUnit.classes at hnodup
      rw [List.filterMap_append, List.map_append, List.nodup_append] at hnodup
      refine hnodup.2.2 c'.name ?_ c.name (by simp) hname
      exact List.mem_map_of_mem (List.mem_filterMap.2 ⟨_, hc', rfl⟩)
    · rw [h.notNative c (mem_classes.2 (by simp))] at hnative
      cases hnative
  | ofFunction f =>
    rintro ⟨f', hf', hname⟩
    have hnodup := h.functions
    unfold CompilationUnit.functions at hnodup
    rw [List.filterMap_append, List.map_append, List.nodup_append] at hnodup
    refine hnodup.2.2 f'.name ?_ f.name (by simp) hname
    exact List.mem_map_of_mem (List.mem_filterMap.2 ⟨_, hf', rfl⟩)

/-- No two declarations are the first that repeats another. -/
theorem CompilationUnit.FirstRepeat.unique {decl decl' : Decl} (h : u.FirstRepeat d decl)
    (h' : u.FirstRepeat d decl') : decl = decl' := by
  obtain ⟨before, after, hu, hrep, hfirst⟩ := h
  obtain ⟨before', after', hu', hrep', hfirst'⟩ := h'
  rw [hu] at hu'
  rcases List.append_eq_append_iff.1 hu' with ⟨as, has, heq⟩ | ⟨bs, hbs, heq⟩
  · cases as with
    | nil => cases heq; rfl
    | cons a as =>
      -- the first stands among those before the second
      cases heq
      exact absurd hrep (hfirst' before decl as has)
  · cases bs with
    | nil => cases heq; rfl
    | cons b bs =>
      cases heq
      exact absurd hrep' (hfirst before' decl' bs hbs)

/-! ## Where the first pass fails -/

namespace Resolve

variable {s : Resolver} {known : Declarations} {decls : List Decl} {span : Span}

/-- A class is declared unless it repeats another one, and that is what is said then. -/
theorem declareClass_refuses (h : s.Announced d ⟨decls, span⟩ known) (c : ClassDecl) :
    Leads (declareClass d known c) s
      (fun id s' => s'.Announced d ⟨decls ++ [.ofClass c], span⟩
        { known with classes := known.classes.insert c.name (id, c) })
      fun fault => (Decl.ofClass c).Repeats d decls ∧ fault = (Decl.ofClass c).complaint := by
  by_cases hc : (known.classes.contains c.name || d.catalog.contains c.name) = true
  · unfold declareClass
    rw [if_pos hc]
    refine ⟨?_, rfl⟩
    rw [Bool.or_eq_true] at hc
    refine hc.imp (fun hknown => ?_) fun hnative => hnative
    -- what is known is what has been declared
    rw [ScopeTree.contains_iff] at hknown
    have hfind := h.classes c.name
    cases hv : known.classes[c.name]? with
    | none => exact absurd hv hknown
    | some v =>
      rw [hv] at hfind
      obtain ⟨hmem, hname⟩ := classNamed?_mem hfind
      exact ⟨v.2, CompilationUnit.mem_classes.1 hmem, hname⟩
  · refine (declareClass_leads h c).imp (fun _ _ h => h) fun fault hr => ?_
    simp only [Bool.or_eq_true, not_or, ScopeTree.contains_iff, Decidable.not_not,
      Bool.not_eq_true] at hc
    exact absurd hc hr.2

/-- A function is declared unless it repeats another one, and that is what is said then. -/
theorem declareFunction_refuses (h : s.Announced d ⟨decls, span⟩ known) (f : MethodDecl) :
    Leads (declareFunction known f) s
      (fun id s' => s'.Announced d ⟨decls ++ [.ofFunction f], span⟩
        { known with functions := known.functions.insert f.name (id, f) })
      fun fault => (Decl.ofFunction f).Repeats d decls ∧
        fault = (Decl.ofFunction f).complaint := by
  by_cases hc : known.functions.contains f.name = true
  · unfold declareFunction
    rw [if_pos hc]
    refine ⟨?_, rfl⟩
    rw [ScopeTree.contains_iff] at hc
    have hfind := h.functions f.name
    cases hv : known.functions[f.name]? with
    | none => exact absurd hv hc
    | some v =>
      rw [hv] at hfind
      refine ⟨v.2, CompilationUnit.mem_functions.1 (List.mem_of_find?_eq_some hfind), ?_⟩
      simpa using List.find?_some hfind
  · refine (declareFunction_leads h f).imp (fun _ _ h => h) fun fault hr => ?_
    rw [ScopeTree.contains_iff, Decidable.not_not] at hc
    exact absurd hc hr.2

/-- **The first pass fails at the first declaration that repeats another.** -/
theorem declare_refuses (h : s.Installing Native.operators) :
    Leads (declare d u) s (fun known s' => s'.Announced d u known)
      fun fault => ∃ decl, u.FirstRepeat d decl ∧ fault = decl.complaint := by
  unfold declare
  refine Leads.foldlM (fun pre known (s : Resolver) => s.Announced d ⟨pre, u.span⟩ known)
    h.announced ?_
  intro pre decl post known s hdecls hI
  -- nothing has been repeated so far
  have hpre : ∀ before' decl' after', pre = before' ++ decl' :: after' → ¬ decl'.Repeats d before' :=
    fun _ _ _ => CompilationUnit.DistinctNames.not_repeats
      ⟨hI.classNames, hI.notNative, hI.functionNames⟩
  cases decl with
  | ofClass c =>
    refine (declareClass_refuses hI c).seq_imp ?_ fun _ _ h => Leads.pure h
    exact fun fault hf => ⟨_, ⟨pre, post, hdecls, hf.1, hpre⟩, hf.2⟩
  | ofFunction f =>
    refine (declareFunction_refuses hI f).seq_imp ?_ fun _ _ h => Leads.pure h
    exact fun fault hf => ⟨_, ⟨pre, post, hdecls, hf.1, hpre⟩, hf.2⟩

end Resolve

/-- **The first pass fails** at the first declaration whose name is taken. -/
theorem CompilationUnit.declare_error_iff {fault : Diagnostic} :
    (∃ s, (do installOperators; declare d u : Resolve Declarations) .initial = .error fault s) ↔
      ∃ decl, u.FirstRepeat d decl ∧ fault = decl.complaint := by
  obtain ⟨s₀, h₀⟩ : ∃ s, s = Resolver.initial := ⟨_, rfl⟩
  have hleads : Leads (do installOperators; declare d u : Resolve Declarations) s₀
      (fun known s => s.Announced d u known)
      fun fault => ∃ decl, u.FirstRepeat d decl ∧ fault = decl.complaint :=
    (installOperators_leads h₀).sure_seq fun _ _ h => declare_refuses h
  unfold Leads at hleads
  rw [← h₀]
  constructor
  · rintro ⟨s, hrun⟩
    rw [hrun] at hleads
    exact hleads
  · rintro ⟨decl, hfirst, rfl⟩
    cases hrun : (do installOperators; declare d u : Resolve Declarations) s₀ with
    | ok known s =>
      -- names that are all distinct repeat nothing
      rw [hrun] at hleads
      obtain ⟨before, after, hu, hrep, -⟩ := hfirst
      have hnames : u.DistinctNames d := ⟨hleads.classNames, hleads.notNative, hleads.functionNames⟩
      exact absurd hrep (hnames.not_repeats hu)
    | error fault s =>
      rw [hrun] at hleads
      obtain ⟨decl', hfirst', rfl⟩ := hleads
      exact ⟨s, by rw [hfirst.unique hfirst']⟩

/-- **Which declarations are accepted**: the first two passes succeed if and only if the declarations
are well formed, and the first pass fails if and only if some declaration repeats another, with what
is to be said of the first that does. -/
theorem CompilationUnit.headings_accepted (d : Dialect) (u : CompilationUnit) :
    (u.SignaturesResolve d ↔ u.WellFormed d) ∧
      ∀ fault, (∃ s, (do installOperators; declare d u : Resolve Declarations) .initial =
          .error fault s) ↔ ∃ decl, u.FirstRepeat d decl ∧ fault = decl.complaint :=
  ⟨signaturesResolve_iff, fun _ => declare_error_iff⟩

end ClassLang
