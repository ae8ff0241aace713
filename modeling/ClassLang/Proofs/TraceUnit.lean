import ClassLang.Proofs.TraceBody
import ClassLang.Proofs.BodyPass

/-!
# The steps of resolving a unit

The path of a unit goes through its passes: the native operators, the names of classes and functions
in the order in which they are written, the signatures, and the bodies.

* `resolveUnit_traces`: every run on a unit is a path, and its fault is at a span of the unit, or
  internal. A run that succeeds has resolved every type that is written in the unit, and what it has
  announced are the operators, the declarations in their order, and the methods class after class.
* `CompilationUnit.resolve_traces`: the same for what is resolved.
-/

namespace ClassLang

open Resolver Resolve

/-! ## Spans and written types of declarations -/

/-- Where an argument and its type are written. -/
def ArgumentDecl.spans (a : ArgumentDecl) : List Span := a.span :: a.type.spans

/-- Where a field and its type are written. -/
def FieldDecl.spans (f : FieldDecl) : List Span := f.span :: f.type.spans

namespace MethodDecl

/-- Where a method and its parts are written. -/
def spans (m : MethodDecl) : List Span :=
  m.span :: (m.arguments.flatMap ArgumentDecl.spans ++ m.result.elim [] TypeName.spans ++
    m.body.elim [] Block.spans)

/-- The types written in the signature of a method. -/
def signatureTypes (m : MethodDecl) : List TypeName :=
  m.arguments.map ArgumentDecl.type ++ m.result.toList

/-- The types written in the body of a method. -/
def bodyTypes (m : MethodDecl) : List TypeName := m.body.elim [] Block.types

/-- The announcement of a method. -/
def announcement (owner : Option ClassId) (m : MethodDecl) : Announcement :=
  .method ⟨owner, m.name, m.kind⟩

end MethodDecl

/-- Where a feature and its parts are written. -/
def Feature.spans : Feature → List Span
  | field f => f.spans
  | method m => m.spans

/-- Where a class and its parts are written. -/
def ClassDecl.spans (c : ClassDecl) : List Span := c.span :: c.features.flatMap Feature.spans

/-- The types written in the fields and signatures of a class. -/
def ClassDecl.signatureTypes (c : ClassDecl) : List TypeName :=
  c.fields.map FieldDecl.type ++ c.methods.flatMap MethodDecl.signatureTypes

/-- Where a declaration and its parts are written. -/
def Decl.spans : Decl → List Span
  | ofClass c => c.spans
  | ofFunction f => f.spans

/-- The announcement of a class or function. -/
def Decl.announcement : Decl → Announcement
  | ofClass c => .ofClass c.name
  | ofFunction f => f.announcement none

namespace CompilationUnit

/-- Where the declarations of a unit and their parts are written. -/
def spans (u : CompilationUnit) : List Span := u.decls.flatMap Decl.spans

/-- The types written in a unit: of fields, in signatures and in bodies. -/
def types (u : CompilationUnit) : List TypeName :=
  u.classes.flatMap (fun c => c.signatureTypes ++ c.methods.flatMap MethodDecl.bodyTypes) ++
    u.functions.flatMap fun f => f.signatureTypes ++ f.bodyTypes

end CompilationUnit

/-- The announcements of the native operators. -/
def Native.operatorAnnouncements : List Announcement :=
  Native.all.flatMap fun k =>
    k.operators.map fun op => .method ⟨none, op.symbol, .operator op.symbol k.id⟩

section

variable {c : ClassDecl} {u : CompilationUnit}

theorem ClassDecl.field_spans {f : FieldDecl} (hf : f ∈ c.fields) : f.spans ⊆ c.spans := by
  intro sp hsp
  exact List.mem_cons_of_mem _ (List.mem_flatMap.2 ⟨_, mem_fields.1 hf, hsp⟩)

theorem ClassDecl.method_spans (hm : m ∈ c.methods) : m.spans ⊆ c.spans := by
  intro sp hsp
  exact List.mem_cons_of_mem _ (List.mem_flatMap.2 ⟨_, mem_methods.1 hm, hsp⟩)

theorem CompilationUnit.class_spans (hc : c ∈ u.classes) : c.spans ⊆ u.spans := by
  intro sp hsp
  exact List.mem_flatMap.2 ⟨_, mem_classes.1 hc, hsp⟩

theorem CompilationUnit.function_spans {f : MethodDecl} (hf : f ∈ u.functions) :
    f.spans ⊆ u.spans := by
  intro sp hsp
  exact List.mem_flatMap.2 ⟨_, mem_functions.1 hf, hsp⟩

theorem CompilationUnit.Declares.spans {owner : Option ClassDecl} (h : u.Declares owner m) :
    m.spans ⊆ u.spans := by
  cases owner with
  | none => exact function_spans h
  | some c => exact fun _ hsp => class_spans h.1 (ClassDecl.method_spans h.2 hsp)

end

variable {d : Dialect} {s : Resolver} {spans : List Span} {known : Declarations} {c : ClassDecl}
  {id : ClassId} {j : ScopeId} {m : MethodDecl} {u : CompilationUnit} {β : Type}
  {bodies : List (MethodId × MethodDecl)}

/-! ## Native operators -/

theorem addOperator_traces {k : Native} {op : NativeOperator} :
    Traces d (addOperator k op) s spans fun _ log =>
      Notes log [] [.method ⟨none, op.symbol, .operator op.symbol k.id⟩] := by
  have hrest : ∀ (args : List VariableId) (s : Resolver), Traces d (do
      let m ← addMethod ⟨op.symbol, none, op.result.id, args, none, none, none,
        .operator op.symbol k.id, .nowhere⟩
      addMember k.id op.symbol m) s spans fun _ log =>
      Notes log [] [.method ⟨none, op.symbol, .operator op.symbol k.id⟩] := by
    intro args s
    refine addMethod_traces.seq fun m s₁ log _ hlog => ?_
    refine addMember_traces.post fun _ log' hlog' => ?_
    rw [hlog', List.append_nil]
    exact hlog
  unfold addOperator
  cases op.binary with
  | false => exact hrest [] s
  | true =>
    refine addVariable_traces.seq fun rhs s₁ log _ hlog => ?_
    subst hlog
    exact hrest [rhs] s₁

theorem flatMap_nil_eq {α : Type} (l : List α) : l.flatMap (fun _ => ([] : List β)) = [] :=
  List.flatMap_eq_nil_iff.2 fun _ _ => rfl

theorem installOperators_traces : Traces d installOperators s spans fun _ log =>
    Notes log [] Native.operatorAnnouncements := by
  have hkind : ∀ k ∈ Native.all, ∀ s, Traces d (k.operators.forM (addOperator k)) s spans
      fun _ log => Notes log [] (k.operators.map fun op =>
        .method ⟨none, op.symbol, .operator op.symbol k.id⟩) := by
    intro k _ s
    refine (Traces.forM fun op _ s => addOperator_traces).post fun _ log hlog => ?_
    rwa [flatMap_nil_eq, ← List.map_eq_flatMap] at hlog
  refine (Traces.forM hkind).post fun _ log hlog => ?_
  rwa [flatMap_nil_eq] at hlog

/-! ## Names -/

theorem declareClass_traces (h : c.span ∈ spans) :
    Traces d (declareClass d known c) s spans fun _ log => Notes log [] [.ofClass c.name] := by
  unfold declareClass
  split
  · exact Traces.refuse h
  refine Traces.get_seq ?_
  have hclass : Traces d (internClass s.program.nextClass c.name) s spans fun _ log =>
      Notes log [] [.ofClass c.name] :=
    ⟨_, (Step.ofClass s.program.nextClass c.name).path, rfl, rfl⟩
  refine hclass.seq fun ty s₁ log hrun hlog => ?_
  have hfind : s₁.registry.find? (.ofClass s.program.nextClass) = some ty := by
    cases hrun
    exact s.registry.find?_internClass _ _
  refine (declareType_scope_traces h hfind).seq fun _ s₂ log₂ _ hlog₂ => ?_
  refine pushScope_traces.seq fun j s₃ log₃ _ hlog₃ => ?_
  refine addClass_traces.post fun _ log₄ hlog₄ => ?_
  rw [hlog₂, hlog₃, hlog₄, List.append_nil, List.append_nil, List.append_nil]
  exact hlog

theorem declareFunction_traces {f : MethodDecl} (h : f.span ∈ spans) :
    Traces d (declareFunction known f) s spans fun _ log => Notes log [] [f.announcement none] := by
  unfold declareFunction
  split
  · exact Traces.refuse h
  refine addFunction_traces.seq fun m s₁ log _ hlog => ?_
  refine (declareMethod_scope_traces h).seq fun _ s₂ log₂ _ hlog₂ => Traces.pure ?_
  rw [hlog₂, List.append_nil, List.append_nil]
  exact hlog

/-- **The steps of the first pass**, in the order in which declarations are written. -/
theorem declareAll_traces : ∀ (decls : List Decl) (known : Declarations) (s : Resolver),
    (∀ decl ∈ decls, decl.spans ⊆ spans) →
    Traces d (decls.foldlM (declareOne d) known) s spans fun _ log =>
      Notes log [] (decls.map Decl.announcement) := by
  intro decls
  induction decls with
  | nil => exact fun known s _ => Traces.pure Notes.nil
  | cons decl decls ih =>
    intro known s h
    have hdecl := h decl List.mem_cons_self
    have hone : Traces d (declareOne d known decl) s spans fun _ log =>
        Notes log [] [decl.announcement] := by
      cases decl with
      | ofClass c =>
        refine (declareClass_traces (hdecl List.mem_cons_self)).seq fun _ _ log _ hlog => ?_
        exact Traces.pure (by rw [List.append_nil]; exact hlog)
      | ofFunction f =>
        refine (declareFunction_traces (hdecl List.mem_cons_self)).seq fun _ _ log _ hlog => ?_
        exact Traces.pure (by rw [List.append_nil]; exact hlog)
    rw [List.foldlM_cons]
    refine hone.seq fun known' s' log _ hlog => ?_
    refine (ih known' s' fun b hb => h b (List.mem_cons_of_mem _ hb)).post ?_
    intro _ log' hlog'
    exact hlog.append hlog'

/-! ## Signatures -/

/-- Looking something up, where only the resolver can be at fault. -/
theorem getClass_seq_traces {c : ClassId} {k : ClassInfo → Resolve β} {R : β → List Event → Prop}
    (h : ∀ i, Traces d (k i) s spans R) : Traces d (getClass c >>= k) s spans R :=
  Traces.ask_seq (Program.getClass_isAt s.program c) fun i _ => h i

theorem resolveField_traces {f : FieldDecl} {index : Nat} (h : f.spans ⊆ spans) :
    Traces d (resolveField d c id j f index) s spans fun _ log => Notes log [f.type] [] := by
  unfold resolveField
  refine getClass_seq_traces fun i => ?_
  split
  · exact Traces.refuse (h List.mem_cons_self)
  have htype : f.type.spans ⊆ spans := fun _ ha => h (List.mem_cons_of_mem _ ha)
  refine (TypeName.resolve_traces htype).seq fun ty s₁ log _ hlog => ?_
  refine (bindVariable_traces (h List.mem_cons_self)).seq fun v s₂ log₂ _ hlog₂ => ?_
  refine updateClass_traces.post fun _ log₃ hlog₃ => ?_
  rw [hlog₂, hlog₃, List.append_nil, List.append_nil]
  exact hlog

theorem flatMap_zipIdx {α : Type} (f : α → List β) (l : List α) :
    l.zipIdx.flatMap (fun a => f a.1) = l.flatMap f := by
  rw [← List.flatMap_map, List.zipIdx_map_fst]

theorem resolveFields_traces (h : c.spans ⊆ spans) :
    Traces d (resolveFields d c id) s spans fun _ log =>
      Notes log (c.fields.map FieldDecl.type) [] := by
  unfold resolveFields
  refine getClass_seq_traces fun i => ?_
  have hfield : ∀ a ∈ c.fields.zipIdx, ∀ s, Traces d (resolveField d c id i.scope a.1 a.2) s spans
      fun _ log => Notes log [a.1.type] [] := by
    intro a ha s
    have hmem : a.1 ∈ c.fields := List.fst_mem_of_mem_zipIdx ha
    exact resolveField_traces fun _ hsp => h (ClassDecl.field_spans hmem hsp)
  refine (Traces.forM hfield).post fun _ log hlog => ?_
  rwa [flatMap_nil_eq, flatMap_zipIdx (fun f : FieldDecl => [f.type]), ← List.map_eq_flatMap]
    at hlog

theorem resolveArgument_traces {a : ArgumentDecl} {index : Nat} (h : a.spans ⊆ spans) :
    Traces d (resolveArgument d j a index) s spans fun _ log => Notes log [a.type] [] := by
  unfold resolveArgument
  have htype : a.type.spans ⊆ spans := fun _ ha => h (List.mem_cons_of_mem _ ha)
  refine (TypeName.resolve_traces htype).seq fun ty s₁ log _ hlog => ?_
  refine (bindVariable_traces (h List.mem_cons_self)).post fun _ log₂ hlog₂ => ?_
  rw [hlog₂, List.append_nil]
  exact hlog

theorem homeScope_traces {o : Option ClassId} :
    Traces d (homeScope o) s spans fun _ log => log = [] := by
  cases o with
  | none => exact Traces.pure rfl
  | some c => exact getClass_seq_traces fun i => Traces.pure rfl

theorem bindReceiver_traces {o : Option ClassId} (h : m.span ∈ spans) :
    Traces d (bindReceiver j m o) s spans fun _ log => log = [] := by
  cases o with
  | none => exact Traces.pure rfl
  | some c => exact getClass_seq_traces fun i => Traces.map (bindVariable_traces h)

theorem resolveResult_traces {result : Option TypeName} (h : result.elim [] TypeName.spans ⊆ spans) :
    Traces d (resolveResult d j result) s spans fun _ log => Notes log result.toList [] := by
  cases result with
  | none => exact Traces.pure Notes.nil
  | some type => exact TypeName.resolve_traces h

/-- **The steps of a signature** are those of its types. -/
theorem resolveSignature_traces {id : MethodId} (h : m.spans ⊆ spans) :
    Traces d (resolveSignature d id m) s spans fun _ log => Notes log m.signatureTypes [] := by
  have hspan : m.span ∈ spans := h List.mem_cons_self
  unfold resolveSignature
  refine Traces.ask_seq (Program.getMethod_isAt s.program id) fun g _ => ?_
  refine homeScope_traces.seq fun p s₁ log₁ _ hlog₁ => ?_
  refine pushScope_traces.seq fun j s₂ log₂ _ hlog₂ => ?_
  refine (bindReceiver_traces hspan).seq fun receiver s₃ log₃ _ hlog₃ => ?_
  have hargument : ∀ a ∈ m.arguments.zipIdx, ∀ s, Traces d (resolveArgument d j a.1 a.2) s spans
      fun _ log => Notes log [a.1.type] [] := by
    intro a ha s
    have hmem : a.1 ∈ m.arguments := List.fst_mem_of_mem_zipIdx ha
    refine resolveArgument_traces fun sp hsp => h (List.mem_cons_of_mem _ ?_)
    exact List.mem_append_left _ (List.mem_append_left _ (List.mem_flatMap.2 ⟨_, hmem, hsp⟩))
  refine (Traces.mapM hargument).seq fun args s₄ log₄ _ hlog₄ => ?_
  rw [flatMap_nil_eq, flatMap_zipIdx (fun a : ArgumentDecl => [a.type]), ← List.map_eq_flatMap]
    at hlog₄
  have hresult : m.result.elim [] TypeName.spans ⊆ spans := fun _ hsp =>
    h (List.mem_cons_of_mem _ (List.mem_append_left _ (List.mem_append_right _ hsp)))
  refine (resolveResult_traces hresult).seq fun result s₅ log₅ _ hlog₅ => ?_
  refine (updateMethod_traces ?_).post fun _ log₆ hlog₆ => ?_
  · exact fun _ => rfl
  subst hlog₁ hlog₂ hlog₃ hlog₆
  rw [List.append_nil]
  exact hlog₄.append hlog₅

theorem declareMethod_traces (h : m.spans ⊆ spans) :
    Traces d (declareMethod d id m) s spans fun _ log =>
      Notes log m.signatureTypes [m.announcement (some id)] := by
  have hspan : m.span ∈ spans := h List.mem_cons_self
  unfold declareMethod
  refine getClass_seq_traces fun i => ?_
  split
  · exact Traces.refuse hspan
  refine addMethod_traces.seq fun l s₁ log₁ _ hlog₁ => ?_
  refine (declareMethod_scope_traces hspan).seq fun _ s₂ log₂ _ hlog₂ => ?_
  refine updateClass_traces.seq fun _ s₃ log₃ _ hlog₃ => ?_
  refine addMember_traces.seq fun _ s₄ log₄ _ hlog₄ => ?_
  refine (resolveSignature_traces h).seq fun _ s₅ log₅ _ hlog₅ => Traces.pure ?_
  subst hlog₂ hlog₃ hlog₄
  rw [List.append_nil]
  exact hlog₁.append hlog₅

theorem resolveClass_traces (h : c.spans ⊆ spans) :
    Traces d (resolveClass d id c) s spans fun _ log =>
      Notes log c.signatureTypes (c.methods.map (MethodDecl.announcement (some id))) := by
  unfold resolveClass
  refine (resolveFields_traces h).seq fun _ s₁ log₁ _ hlog₁ => ?_
  have hmethod : ∀ m ∈ c.methods, ∀ s, Traces d
      (do return (m.name, (← declareMethod d id m), m) : Resolve (String × MethodId × MethodDecl))
      s spans fun _ log => Notes log m.signatureTypes [m.announcement (some id)] := by
    intro m hm s
    refine (declareMethod_traces fun _ hsp => h (ClassDecl.method_spans hm hsp)).seq ?_
    intro _ _ log _ hlog
    exact Traces.pure (by rw [List.append_nil]; exact hlog)
  refine (Traces.mapM hmethod).seq fun _ s₂ log₂ _ hlog₂ => Traces.pure ?_
  rw [← List.map_eq_flatMap] at hlog₂
  rw [List.append_nil]
  exact hlog₁.append hlog₂

/-- **The steps of the second pass.** -/
theorem resolveSignatures_traces (hclasses : ∀ v ∈ known.classes.values, v.2.spans ⊆ spans)
    (hfunctions : ∀ v ∈ known.functions.values, v.2.spans ⊆ spans) :
    Traces d (resolveSignatures d known) s spans fun _ log =>
      Notes log (known.classes.values.flatMap (fun v => v.2.signatureTypes) ++
          known.functions.values.flatMap fun v => v.2.signatureTypes)
        (known.classes.values.flatMap fun v =>
          v.2.methods.map (MethodDecl.announcement (some v.1))) := by
  unfold resolveSignatures
  have hclass : ∀ v ∈ known.classes.values, ∀ s, Traces d (resolveClass d v.1 v.2) s spans
      fun _ log => Notes log v.2.signatureTypes
        (v.2.methods.map (MethodDecl.announcement (some v.1))) :=
    fun v hv s => resolveClass_traces (hclasses v hv)
  have hfunction : ∀ v ∈ known.functions.values, ∀ s, Traces d
      (do resolveSignature d v.1 v.2; return (v.1, v.2) : Resolve (MethodId × MethodDecl)) s spans
      fun _ log => Notes log v.2.signatureTypes [] := by
    intro v hv s
    refine (resolveSignature_traces (hfunctions v hv)).seq fun _ _ log _ hlog => ?_
    exact Traces.pure (by rw [List.append_nil]; exact hlog)
  refine (Traces.mapM hclass).seq fun _ s₁ log₁ _ hlog₁ => ?_
  refine (Traces.mapM hfunction).seq fun _ s₂ log₂ _ hlog₂ => Traces.pure ?_
  rw [flatMap_nil_eq] at hlog₂
  have hall := hlog₁.append hlog₂
  rw [List.append_nil] at hall
  rwa [List.append_nil]

/-! ## Bodies -/

/-- **The steps of a body** are those of its statements. -/
theorem resolveBody_traces {id : MethodId} (h : m.spans ⊆ spans) :
    Traces d (resolveBody d id m) s spans fun _ log => Notes log m.bodyTypes [] := by
  unfold resolveBody MethodDecl.bodyTypes
  unfold MethodDecl.spans at h
  cases hbody : m.body with
  | none => exact Traces.pure Notes.nil
  | some body =>
    rw [hbody] at h
    have hblock : body.spans ⊆ spans := fun _ hsp =>
      h (List.mem_cons_of_mem _ (List.mem_append_right _ hsp))
    refine Traces.ask_seq (Program.getMethod_isAt s.program id) fun g _ => ?_
    cases g.scope with
    | none => exact ⟨⟨[], .done s⟩, Diagnostic.internal_isAt _ _⟩
    | some j =>
      have hcurrent : Traces d (modify fun s => { s with current := some id } : Resolve PUnit) s
          spans fun _ log => log = [] :=
        quiet_traces { s with current := some id } rfl (.of_scopes rfl rfl) rfl
      refine hcurrent.seq fun _ s₁ log₁ _ hlog₁ => ?_
      refine (Block.resolve_traces body j s₁ hblock).seq fun block s₂ log₂ _ hlog₂ => ?_
      refine (updateMethod_traces ?_).post fun _ log₃ hlog₃ => ?_
      · exact fun _ => rfl
      subst hlog₁ hlog₃
      rw [List.append_nil]
      exact hlog₂

/-- **The steps of the third pass.** -/
theorem resolveBodies_traces (h : ∀ b ∈ bodies, b.2.spans ⊆ spans) :
    Traces d (resolveBodies d bodies) s spans fun _ log =>
      Notes log (bodies.flatMap fun b => b.2.bodyTypes) [] := by
  unfold resolveBodies
  have hbody : ∀ b ∈ bodies, ∀ s, Traces d (resolveBody d b.1 b.2) s spans fun _ log =>
      Notes log b.2.bodyTypes [] := fun b hb s => resolveBody_traces (h b hb)
  refine (Traces.forM hbody).seq fun _ s₁ log₁ _ hlog₁ => ?_
  rw [flatMap_nil_eq] at hlog₁
  have hleave : Traces d (modify fun s => { s with current := none } : Resolve PUnit) s₁
      spans fun _ log => log = [] :=
    quiet_traces { s₁ with current := none } rfl (.of_scopes rfl rfl) rfl
  refine hleave.post fun _ log₂ hlog₂ => ?_
  rw [hlog₂, List.append_nil]
  exact hlog₁

/-! ## Units -/

/-- What a run that succeeds has noted: every written type, and the announcements of the operators,
of the declarations in their order, and of the methods of the classes, each class once. -/
structure CompilationUnit.Logged (u : CompilationUnit) (log : List Event) : Prop where
  types : u.types ⊆ typesIn log
  announced : ∃ classes : List (ClassId × ClassDecl),
    announcedIn log = Native.operatorAnnouncements ++ u.decls.map Decl.announcement ++
      classes.flatMap (fun v => v.2.methods.map (MethodDecl.announcement (some v.1))) ∧
    (∀ v ∈ classes, v.2 ∈ u.classes) ∧ classes.Pairwise fun v w => v.1 ≠ w.1

/-- Every type written in a unit is in a signature or a body that the passes go through. -/
theorem CompilationUnit.types_subset
    (hclasses : ∀ c ∈ u.classes, ∃ id, (id, c) ∈ known.classes.values)
    (hfunctions : ∀ f ∈ u.functions, ∃ id, (id, f) ∈ known.functions.values)
    (hbodies : ∀ owner m, u.Declares owner m → ∃ l, (l, m) ∈ bodies) :
    u.types ⊆ known.classes.values.flatMap (fun v => v.2.signatureTypes) ++
      known.functions.values.flatMap (fun v => v.2.signatureTypes) ++
      bodies.flatMap fun b => b.2.bodyTypes := by
  have hbody : ∀ owner m, u.Declares owner m → ∀ n ∈ m.bodyTypes,
      n ∈ bodies.flatMap fun b => b.2.bodyTypes := by
    intro owner m hm n hn
    obtain ⟨l, hl⟩ := hbodies owner m hm
    exact List.mem_flatMap.2 ⟨_, hl, hn⟩
  intro n hn
  simp only [types, List.mem_append, List.mem_flatMap] at hn ⊢
  rcases hn with ⟨c, hc, hsig | ⟨m, hm, hn⟩⟩ | ⟨f, hf, hsig | hn⟩
  · obtain ⟨id, hid⟩ := hclasses c hc
    exact .inl (.inl ⟨_, hid, hsig⟩)
  · exact .inr (List.mem_flatMap.1 (hbody (some c) m ⟨hc, hm⟩ n hn))
  · obtain ⟨id, hid⟩ := hfunctions f hf
    exact .inl (.inr ⟨_, hid, hsig⟩)
  · exact .inr (List.mem_flatMap.1 (hbody none f hf n hn))

/-- What has been announced by name stands in the unit, classes -/
theorem Resolver.Announced.class_mem (h : s.Announced d u known) {v : ClassId × ClassDecl}
    (hv : v ∈ known.classes.values) : v.2 ∈ u.classes := by
  obtain ⟨i, -, -, hnamed, -⟩ := h.class_of_value hv
  exact List.mem_of_find?_eq_some hnamed

/-- and functions, -/
theorem Resolver.Announced.function_mem (h : s.Announced d u known) {v : MethodId × MethodDecl}
    (hv : v ∈ known.functions.values) : v.2 ∈ u.functions := by
  obtain ⟨n, hn⟩ := mem_values.1 hv
  have hnamed := h.functions n
  rw [hn] at hnamed
  exact List.mem_of_find?_eq_some hnamed

/-- and so does what waits for its body. -/
theorem Resolver.Signed.body_spans (h : s.Signed d u bodies) :
    ∀ b ∈ bodies, b.2.spans ⊆ u.spans := by
  intro b hb
  obtain ⟨owner, g, j, hm, -⟩ := h.ready b hb
  exact hm.spans

/-- **Every run on a unit is a path.** -/
theorem resolveUnit_traces (d : Dialect) (u : CompilationUnit) {s₀ : Resolver}
    (h₀ : s₀ = .initial) :
    Traces d (resolveUnit d u) s₀ u.spans fun _ log => u.Logged log := by
  unfold resolveUnit
  have hinstall := installOperators_leads h₀
  refine installOperators_traces.seq fun _ s₁ log₁ hrun₁ hlog₁ => ?_
  -- what a pass leads to is known of the state in which it really ended
  unfold Leads at hinstall
  rw [hrun₁] at hinstall
  have hdeclare := declare_leads (d := d) (u := u) hinstall
  have hdecls : ∀ decl ∈ u.decls, decl.spans ⊆ u.spans :=
    fun decl hdecl _ hsp => List.mem_flatMap.2 ⟨decl, hdecl, hsp⟩
  refine (declareAll_traces u.decls .empty s₁ hdecls).seq fun known s₂ log₂ hrun₂ hlog₂ => ?_
  unfold Leads at hdeclare
  rw [show declare d u s₁ = _ from hrun₂] at hdeclare
  have hsign := resolveSignatures_leads hdeclare
  have hsigned := resolveSignatures_traces (d := d) (s := s₂)
    (fun v hv => u.class_spans (hdeclare.class_mem hv))
    fun v hv => u.function_spans (hdeclare.function_mem hv)
  refine hsigned.seq fun bodies s₃ log₃ hrun₃ hlog₃ => ?_
  unfold Leads at hsign
  rw [hrun₃] at hsign
  refine (resolveBodies_traces hsign.body_spans).post fun _ log₄ hlog₄ => ?_
  -- the logs of the passes, one behind the other
  have hall := ((hlog₁.append hlog₂).append hlog₃).append hlog₄
  simp only [List.append_assoc, List.nil_append, List.append_nil] at hall
  refine ⟨?_, known.classes.values, ?_, fun v => hdeclare.class_mem, hdeclare.classes_distinct⟩
  · rw [hall.types, ← List.append_assoc]
    refine u.types_subset (fun c hc => hdeclare.value_of_class hc)
      (fun f hf => hdeclare.value_of_function hf) fun owner m hm => ?_
    obtain ⟨l, hl, -⟩ := hsign.all owner m hm
    exact ⟨l, hl⟩
  · rw [hall.announced, List.append_assoc]

/-- **Resolution goes a path**: what is resolved is where the path ends, and a fault is at a span of
the unit, or internal. The answer has a name of its own, so that nothing evaluates it. -/
theorem CompilationUnit.resolve_traces {x : Except Diagnostic (Registry × Program)}
    (h : u.resolve d = x) :
    Yields x (fun y => ∃ s log, s.registry = y.1 ∧ s.program = y.2 ∧ Path d .initial log s ∧
      u.Logged log) (Diagnostic.IsAt u.spans) := by
  unfold CompilationUnit.resolve at h
  generalize h₀ : Resolver.initial = s₀ at h ⊢
  have htraces := resolveUnit_traces d u h₀.symm
  unfold Traces at htraces
  cases hrun : resolveUnit d u s₀ with
  | error f s =>
    rw [hrun] at htraces h
    subst h
    exact Yields.error htraces.2
  | ok a s =>
    rw [hrun] at htraces h
    subst h
    obtain ⟨log, hpath, hlogged⟩ := htraces
    exact Yields.ok ⟨s, log, rfl, rfl, hpath, hlogged⟩

/-- What is resolved comes from a path that has announced all that is declared. -/
theorem CompilationUnit.path_of_resolve {r : Registry} {p : Program} (h : u.resolve d = .ok (r, p)) :
    ∃ s log, s.registry = r ∧ s.program = p ∧ Path d .initial log s ∧ u.Logged log :=
  resolve_traces h

end ClassLang
