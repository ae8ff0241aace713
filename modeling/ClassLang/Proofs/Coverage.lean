import ClassLang.Proofs.PlacementPasses

/-!
# The methods of a program are those declared

Besides the native operators, a program has the methods that its unit declares and no others. A
method is added when a function is declared or when a method of a class is, and what is added is
handed on: the functions in the table of declarations, the methods of a class in its answer.

* `Program.Adds p p' ids`: since `p`, no methods have been added but `ids`.
* `resolveSignatures_covers`: after the second pass, every method that is no operator waits for its
  body, and variables have their places.
-/

namespace ClassLang

open Resolver Resolve

variable {s : Resolver} {d : Dialect}

namespace Program

variable {p p' p'' : Program} {ids ids' : List MethodId}

/-- **Since `p`, no methods have been added but these**, and operators are as they were. -/
def Adds (p p' : Program) (ids : List MethodId) : Prop :=
  ∀ l g', p'.methodAt? l = some g' →
    (g'.isOperator = false ∧ (l ∈ ids ∨ ∃ g, p.methodAt? l = some g ∧ g.isOperator = false)) ∨
      (g'.isOperator = true ∧ p.methodAt? l = some g')

theorem Adds.of_eq (h : p'.methods = p.methods) : p.Adds p' [] := by
  intro l g hg
  have hg₀ : p.methodAt? l = some g := by
    unfold methodAt? at hg ⊢
    rw [← h]
    exact hg
  cases hop : g.isOperator with
  | false => exact .inl ⟨rfl, .inr ⟨g, hg₀, hop⟩⟩
  | true => exact .inr ⟨rfl, hg₀⟩

theorem Adds.trans (h : p.Adds p' ids) (h' : p'.Adds p'' ids') : p.Adds p'' (ids ++ ids') := by
  intro l g'' hg''
  rcases h' l g'' hg'' with ⟨hop, hl | ⟨g', hg', hop'⟩⟩ | ⟨hop, hg'⟩
  · exact .inl ⟨hop, .inl (List.mem_append_right _ hl)⟩
  · rcases h l g' hg' with ⟨-, hl⟩ | ⟨hop'', -⟩
    · exact .inl ⟨hop, hl.imp_left (List.mem_append_left _)⟩
    · rw [hop'] at hop''
      cases hop''
  · rcases h l g'' hg' with ⟨hop', -⟩ | hg
    · rw [hop] at hop'
      cases hop'
    · exact .inr hg

theorem Adds.mono (h : p.Adds p' ids) (hsub : ids ⊆ ids') : p.Adds p' ids' :=
  fun l g hg => (h l g hg).imp_left (And.imp_right (Or.imp_left fun hl => hsub hl))

/-- Two steps of which the first adds nothing. -/
theorem Adds.after (h : p'.Adds p'' ids) (heq : p'.methods = p.methods) : p.Adds p'' ids :=
  (Adds.of_eq heq).trans h

/-- Two steps of which the second adds nothing. -/
theorem Adds.before (h : p.Adds p' ids) (h' : p'.Adds p'' []) : p.Adds p'' ids := by
  have := h.trans h'
  rwa [List.append_nil] at this

end Program

namespace Resolver

variable {s : Resolver}

theorem adds_pushMethod {g : Method} (hop : g.isOperator = false) :
    s.program.Adds (s.pushMethod g).program [s.nextMethod] := by
  intro l g' hg'
  rw [methodAt?_pushMethod] at hg'
  split at hg'
  · rename_i hl
    cases hg'
    exact .inl ⟨hop, .inl (List.mem_singleton.2 hl)⟩
  · exact (Program.Adds.of_eq rfl l g' hg').imp_left (And.imp_right (Or.imp_left nofun))

theorem adds_setMethod {l : MethodId} {g : Method} (hl : s.program.methodAt? l = some g)
    {g' : Method} (hop : g.isOperator = false) (hop' : g'.isOperator = false) :
    s.program.Adds (s.setMethod l g').program [] := by
  intro k h hh
  rw [methodAt?_setMethod hl] at hh
  split at hh
  · rename_i hk
    cases hh
    exact .inl ⟨hop', .inr ⟨g, hk ▸ hl, hop⟩⟩
  · exact Program.Adds.of_eq rfl k h hh

end Resolver

/-! ## The first pass -/

/-- So far every method is an operator. -/
theorem addOperator_operators (k : Native) (op : NativeOperator)
    (h : ∀ l g, s.program.methodAt? l = some g → g.isOperator = true) :
    Gives (addOperator k op) s
      (fun _ s' => ∀ l g, s'.program.methodAt? l = some g → g.isOperator = true) := by
  have hadd : ∀ (s : Resolver) (arguments : List VariableId),
      (∀ l g, s.program.methodAt? l = some g → g.isOperator = true) →
      Gives (do
        let m ← Resolve.addMethod ⟨op.symbol, none, op.result.id, arguments, none, none, none,
          .operator op.symbol k.id, .nowhere⟩
        addMember k.id op.symbol m) s
        (fun _ s' => ∀ l g, s'.program.methodAt? l = some g → g.isOperator = true) := by
    intro s arguments h
    refine (addMethod_runs _ s).seq ?_
    rintro _ _ ⟨rfl, rfl⟩
    refine (addMember_methods _ _ _ _).post (fun _ s' hm l g hg => ?_)
    unfold Program.methodAt? at hg
    rw [hm] at hg
    have hg' := (methodAt?_pushMethod (s := s) _ l).symm.trans hg
    split at hg'
    · cases hg'; rfl
    · exact h l g hg'
  unfold addOperator
  cases op.binary with
  | false => exact hadd s [] h
  | true => exact hadd (s.pushVar _) [s.nextVar] h

/-- To begin with, all methods are operators. -/
theorem installOperators_operators (hs : s = initial) :
    Gives installOperators s
      (fun _ s' => ∀ l g, s'.program.methodAt? l = some g → g.isOperator = true) := by
  refine Leads.forM
    (fun _ (s' : Resolver) => ∀ l g, s'.program.methodAt? l = some g → g.isOperator = true) ?_ ?_
  · intro l g hg
    rw [hs] at hg
    cases hg
  · intro _ k _ s₁ _ h₁
    refine Leads.forM
      (fun _ (s' : Resolver) => ∀ l g, s'.program.methodAt? l = some g → g.isOperator = true) h₁ ?_
    exact fun _ op _ s₂ _ h₂ => addOperator_operators k op h₂

theorem declareClass_methods (d : Dialect) (known : Declarations) (c : ClassDecl) :
    KeepsMethods (declareClass d known c) := by
  refine .ite (.of_steady (.refuse _ _)) ?_
  refine KeepsMethods.seq (fun _ => rfl) fun s => ?_
  refine KeepsMethods.seq (fun _ => rfl) fun ty => ?_
  refine KeepsMethods.seq (fun _ => updateScopes_leads (Leads.of_forall fun _ _ => rfl)) fun _ => ?_
  exact KeepsMethods.seq (fun _ => rfl) fun j _ => rfl

/-- **What the first pass adds are the functions**, and the table of declarations has them. -/
theorem declare_adds (d : Dialect) (u : CompilationUnit) (s : Resolver) :
    Gives (declare d u) s
      (fun known s' => s.program.Adds s'.program (known.functions.values.map Prod.fst)) := by
  refine Leads.foldlM (fun _ (known : Declarations) (s' : Resolver) =>
    s.program.Adds s'.program (known.functions.values.map Prod.fst)) ?_ ?_
  · exact (Program.Adds.of_eq rfl).mono (List.nil_subset _)
  · intro _ decl _ known s₁ _ hI
    cases decl with
    | ofClass c =>
      refine (declareClass_methods d known c s₁).seq fun id s₂ h₂ => Leads.pure ?_
      exact hI.before (.of_eq h₂)
    | ofFunction f =>
      show Leads (declareFunction known f >>= _) s₁ _ _
      unfold declareFunction
      by_cases hc : known.functions.contains f.name = true
      · rw [if_pos hc]
        exact trivial
      rw [if_neg hc, bind_assoc]
      rw [ScopeTree.contains_iff, Decidable.not_not] at hc
      have hadd : Gives (addFunction (f.announce none)) s₁
          (fun l s' => s₁.program.Adds s'.program [l]) :=
        adds_pushMethod MethodDecl.isOperator_announce
      refine hadd.seq fun l s₂ h₂ => ?_
      rw [bind_assoc]
      refine (declareMethod_methods _ _ _ _ s₂).seq fun _ s₃ h₃ => ?_
      refine Leads.pure ((hI.trans (h₂.before (.of_eq h₃))).mono fun id hid => ?_)
      -- the name of the function was free, so no other is lost from the table
      rcases List.mem_append.1 hid with hid | hid
      · obtain ⟨v, hv, rfl⟩ := List.mem_map.1 hid
        obtain ⟨n, hn⟩ := mem_values.1 hv
        exact List.mem_map_of_mem (mem_values.2 ⟨n, getElem?_insert_of_some hc hn⟩)
      · cases List.mem_singleton.1 hid
        refine List.mem_map.2 ⟨(l, f), mem_values.2 ⟨f.name, ?_⟩, rfl⟩
        exact getElem?_insert_eq.trans (if_pos rfl)

/-! ## Signatures -/

/-- A signature adds no method. -/
theorem resolveSignature_adds {l : MethodId} {m : MethodDecl} {o : Option ClassId}
    (hl : s.program.methodAt? l = some (m.announce o)) :
    Gives (resolveSignature d l m) s (fun _ s' => s.program.Adds s'.program []) := by
  unfold resolveSignature
  refine getMethod_seq hl ?_
  refine (homeScope_steady _ s).seq fun parent s₁ h₁ => ?_
  have hpush : Gives (Resolve.pushScope .block parent) s₁
      (fun _ s' => s'.program.methods = s₁.program.methods) := rfl
  refine hpush.seq fun j s₂ h₂ => ?_
  refine (bindReceiver_methods j m o s₂).seq fun receiver s₃ h₃ => ?_
  refine (resolveArguments_methods d j m.arguments s₃).seq fun arguments s₄ h₄ => ?_
  refine (resolveResult_steady d j m.result s₄).seq fun result s₅ h₅ => ?_
  have hkept : s₅.program.methods = s.program.methods := by
    rw [h₅.1, h₄, h₃, h₂, h₁.1]
  have hl₅ : s₅.program.methodAt? l = some (m.announce o) := by
    unfold Program.methodAt? at hl ⊢
    rw [hkept]
    exact hl
  have hop : (m.announce o).isOperator = false := MethodDecl.isOperator_announce
  refine updateMethod_leads hl₅ (Program.Adds.after (adds_setMethod hl₅ hop ?_) hkept)
  exact hop

/-- A method of a class is added. -/
theorem declareMethod_adds (d : Dialect) (c : ClassId) (m : MethodDecl) (s : Resolver) :
    Gives (declareMethod d c m) s (fun l s' => s.program.Adds s'.program [l]) := by
  unfold declareMethod
  refine ask_any fun i => ?_
  split
  · exact refuse_leads trivial
  have hl₁ : (s.pushMethod (m.announce (some c))).program.methodAt? s.nextMethod =
      some (m.announce (some c)) := (methodAt?_pushMethod _ _).trans (if_pos rfl)
  refine (addMethod_runs _ s).seq ?_
  rintro _ _ ⟨rfl, rfl⟩
  refine (declareMethod_methods _ _ _ _ _).seq fun _ s₂ h₂ => ?_
  refine (updateClass_methods _ _ s₂).seq fun _ s₃ h₃ => ?_
  refine (addMember_methods _ _ _ s₃).seq fun _ s₄ h₄ => ?_
  have hkept : s₄.program.methods = (s.pushMethod (m.announce (some c))).program.methods := by
    rw [h₄, h₃, h₂]
  have hl₄ : s₄.program.methodAt? s.nextMethod = some (m.announce (some c)) := by
    unfold Program.methodAt? at hl₁ ⊢
    rw [hkept]
    exact hl₁
  refine (resolveSignature_adds hl₄).seq fun _ s₅ h₅ => Leads.pure ?_
  exact (adds_pushMethod MethodDecl.isOperator_announce).before (h₅.after hkept)

theorem resolveFields_methods (d : Dialect) (decl : ClassDecl) (c : ClassId) :
    KeepsMethods (resolveFields d decl c) := by
  refine (KeepsMethods.of_steady (.ask _)).seq fun i => .forM fun q => ?_
  refine (KeepsMethods.of_steady (.ask _)).seq fun info => .ite (.of_steady (.refuse _ _)) ?_
  refine (KeepsMethods.of_steady (q.1.type.resolve_steady d _)).seq fun ty => ?_
  exact KeepsMethods.seq (fun _ => bindVariable_methods) fun v => updateClass_methods _ _

/-- **What a class adds are the methods that it answers.** Their names are different, so none is lost
where they are put in order. -/
theorem resolveClass_adds {u : CompilationUnit} {c : ClassId} {i : ClassInfo} {decl : ClassDecl}
    (h₀ : s.Grounded u) (hi : s.program.classAt? c = some i) (hb : s.ClassBlank i)
    (hd : u.classNamed? i.name = some decl) :
    Gives (resolveClass d c decl) s
      (fun new s' => s.program.Adds s'.program (new.map Prod.fst)) := by
  unfold resolveClass
  refine ((resolveFields_leads h₀ hi hb decl).and (resolveFields_methods d decl c s)).seq_imp
    (fun _ _ => trivial) ?_
  rintro _ s₁ ⟨h₁, hm₁⟩
  have run := Leads.mapM (l := decl.methods) (s := s₁) (E := fun _ => True)
    (f := fun m => do return (m.name, (← declareMethod d c m), m))
    (fun pre answers s' => Filled s s' d u c i decl.fields pre ∧
      answers.map Prod.fst = pre.map MethodDecl.name ∧
      s.program.Adds s'.program (answers.map fun a => a.2.1)) ⟨h₁, rfl, .of_eq hm₁⟩ ?_
  · refine run.seq ?_
    rintro answers s' ⟨hF, hnames, hadds⟩
    -- the answers are kept by name, and no name comes twice
    have hnodup : (answers.map Prod.fst).Nodup := by
      rw [hnames]
      exact hF.methodNames
    refine Leads.pure (hadds.mono fun l hl => ?_)
    obtain ⟨a, ha, rfl⟩ := List.mem_map.1 hl
    exact List.mem_map_of_mem (f := Prod.fst)
      (mem_values.2 ⟨a.1, (getElem?_ofList_iff hnodup).2 ha⟩)
  · rintro pre m post answers s₂ _ ⟨hF, hnames, hadds⟩
    refine ((declareMethod_leads h₀ hi hd hF m).and (declareMethod_adds d c m s₂)).seq_imp
      (fun _ _ => trivial) ?_
    rintro l s₃ ⟨⟨hF', -⟩, hadds'⟩
    refine Leads.pure ⟨hF', ?_, ?_⟩
    · rw [List.map_append, List.map_append, hnames]; rfl
    · rw [List.map_append]
      exact hadds.trans hadds'

/-! ## The second pass -/

/-- **Every method is one of these or an operator**, and operators have no scopes. -/
def Program.CoveredBy (p : Program) (ids : List MethodId) : Prop :=
  ∀ l g, p.methodAt? l = some g →
    (g.isOperator = false ∧ l ∈ ids) ∨ (g.isOperator = true ∧ g.scope = none)

/-- **After the second pass** variables have their places, what waits for a body is every method that
is no operator, and operators have no scopes. -/
theorem resolveSignatures_covers {u : CompilationUnit} {known : Declarations}
    (h : s.Announced d u known) (hp : s.program.Placed fun _ => False)
    (hcovers : ∀ l g, s.program.methodAt? l = some g → g.isOperator = false →
      l ∈ known.functions.values.map Prod.fst) :
    Gives (resolveSignatures d known) s (fun bodies s' => s'.program.Placed (fun _ => False) ∧
      s'.program.CoveredBy (bodies.map Prod.fst)) := by
  unfold resolveSignatures
  -- each class adds the methods that it answers
  have classes := Leads.mapM (l := known.classes.values) (s := s) (E := fun _ => True)
    (f := fun (v : ClassId × ClassDecl) => resolveClass d v.1 v.2)
    (fun pre answers s' => s'.Signing d u known pre [] answers.flatten ∧
      s'.program.Placed (fun _ => False) ∧
      s.program.Adds s'.program (answers.flatten.map Prod.fst)) ⟨h.signing, hp, .of_eq rfl⟩ ?_
  · refine classes.seq ?_
    rintro answers s₁ ⟨h₁, hp₁, hadds₁⟩
    -- the functions are there since the first pass, so none is added
    have functions := Leads.mapM (l := known.functions.values) (s := s₁) (E := fun _ => True)
      (f := fun (v : MethodId × MethodDecl) => do
        resolveSignature d v.1 v.2
        return (v.1, v.2))
      (fun pre fs s' => fs = pre ∧
        s'.Signing d u known known.classes.values pre answers.flatten ∧
        s'.program.Placed (fun _ => False) ∧
        s.program.Adds s'.program (answers.flatten.map Prod.fst)) ⟨rfl, h₁, hp₁, hadds₁⟩ ?_
    · refine functions.seq ?_
      rintro _ s₂ ⟨rfl, -, hp₂, hadds₂⟩
      refine Leads.pure ⟨hp₂, fun l g hg => ?_⟩
      rw [List.map_append, List.mem_append]
      -- added by a class, or there before as a function or a native operator
      rcases hadds₂ l g hg with ⟨hop, hl | ⟨g₀, hg₀, hop₀⟩⟩ | ⟨hop, hg₀⟩
      · exact .inl ⟨hop, .inl hl⟩
      · exact .inl ⟨hop, .inr (hcovers l g₀ hg₀ hop₀)⟩
      · exact .inr ⟨hop, (h.unresolved l g hg₀).1⟩
    · rintro _ v post fs s₂ hl ⟨rfl, hI, hp₂, hadds₂⟩
      have hv : v ∈ known.functions.values := by rw [hl]; simp
      obtain ⟨hpre, hrest⟩ := distinct_split h.functions_distinct hl
      have hnew : v ∉ fs := fun hmem => hpre v hmem rfl
      refine (((hI.function_leads hv hnew hrest).and
        (resolveSignature_places hp₂ (hI.announced v hv hnew))).and
        (resolveSignature_adds (hI.announced v hv hnew))).seq_imp (fun _ _ => trivial) ?_
      rintro _ s₃ ⟨⟨hI', hp₃⟩, hadds₃⟩
      exact Leads.pure ⟨rfl, hI', hp₃, hadds₂.before hadds₃⟩
  · rintro pre v post answers s₁ hl ⟨hI, hp₁, hadds₁⟩
    have hv : v ∈ known.classes.values := by rw [hl]; simp
    obtain ⟨hpre, hrest⟩ := distinct_split h.classes_distinct hl
    have hnew : v ∉ pre := fun hmem => hpre v hmem rfl
    obtain ⟨i, hi, hd, hb⟩ := hI.blank v hv hnew
    refine (((hI.class_leads h.notNative hv hnew hpre hrest).and (resolveClass_places hp₁)).and
      (resolveClass_adds hI.grounded hi hb hd)).gives ?_
    rintro new s₂ ⟨⟨hI', hp₂⟩, hadds₂⟩
    rw [List.flatten_append, List.flatten_singleton, List.map_append]
    exact ⟨hI', hp₂, hadds₁.trans hadds₂⟩

end ClassLang
