import ClassLang.Proofs.MirrorSignature

/-!
# Resolving a class mirrors its elaboration

The second pass adds the fields of a class and then its methods, one after the other. What has been
added is what has been elaborated: the fields in their order (`Resolver.FieldsShown`), and the methods
by name (`Resolver.MethodsShown`). `resolveClass_mirrors` says this of a whole class; its methods come
out in the order of their names.
-/

namespace ClassLang

open Resolver Resolve

/-- **A type that is written** is what it denotes. -/
theorem TypeName.denoted?_of_elaborate {d : Dialect} {u : CompilationUnit} {t : TypeName} {T : Ty}
    (h : t.elaborate (u.interface d) = .ok T) : t.denoted? d u = some T := by
  induction t generalizing T with
  | named n span =>
    unfold TypeName.elaborate at h
    cases hT : (u.interface d).type? n with
    | none => rw [hT] at h; cases h
    | some T' => rw [hT] at h; cases h; exact hT
  | pointer t span ih | array t span ih =>
    obtain ⟨T', hT, ⟨⟩⟩ := exists_of_bind_eq_ok h
    rw [denoted?, ih hT]
    rfl

namespace Resolver

variable {s s₁ s' : Resolver} {d : Dialect} {u : CompilationUnit} {c : ClassId} {i i₁ : ClassInfo}
  {decl : ClassDecl} {owner : String} {fs : List (FieldDecl × Nat)} {ys : List NamedVariable}

/-! ## Fields -/

/-- What a class has of fields: they read `ys` in their order, and by name they are those declared in
`fs`. -/
structure FieldsShown (s : Resolver) (d : Dialect) (u : CompilationUnit) (owner : String)
    (i : ClassInfo) (fs : List (FieldDecl × Nat)) (ys : List NamedVariable) : Prop where
  order : i.fieldOrder.map s.namedVar? = ys.map some
  byName : ∀ n : String, (i.fields[n]?).bind s.namedVar? =
    (fs.find? fun f => f.1.name = n).bind (FieldDecl.named? d u owner)

theorem FieldsShown.mono (h : s.FieldsShown d u owner i fs ys) (hi : s.program.classAt? c = some i)
    (hg : s.Grows s') (hs : s.Sound) (hs' : s'.Sound) : s'.FieldsShown d u owner i fs ys where
  order := hg.map_namedVar? hs hs' h.order
  byName n := by
    rw [← h.byName n]
    cases hv : i.fields[n]? with
    | none => rfl
    | some v =>
      obtain ⟨x, -, hx, -⟩ := (hs.classes c i hi).field n v hv
      obtain ⟨y, hy⟩ := hs.namedVar?_isSome hx
      rw [Option.bind_some, Option.bind_some, hy, hg.namedVar? hs hs' hy]

/-- One field more. -/
theorem FieldsShown.add {f : FieldDecl} {index : Nat} {v : VariableId} {y : NamedVariable}
    (h : s.FieldsShown d u owner i fs ys) (hnew : f.name ∉ fs.map fun q => q.1.name)
    (hv : s.namedVar? v = some y) (hy : FieldDecl.named? d u owner (f, index) = some y) :
    s.FieldsShown d u owner (i.addField f.name v) (fs ++ [(f, index)]) (ys ++ [y]) where
  order := by
    show (i.fieldOrder ++ [v]).map s.namedVar? = _
    rw [List.map_append, List.map_append, h.order, List.map_singleton, hv]
    rfl
  byName n := by
    have hnone : fs.find? (fun q => q.1.name = (f, index).1.name) = none :=
      find?_name_eq_none.2 hnew
    rw [find?_concat hnone]
    show ((i.fields.insert f.name v)[n]?).bind _ = _
    rw [getElem?_insert_eq]
    by_cases hn : f.name = n
    · rw [if_pos hn, if_pos hn, Option.bind_some, Option.bind_some, hv, hy]
    · rw [if_neg hn, if_neg hn]
      exact h.byName n

/-- A field fails as its elaboration does. -/
theorem resolveField_fails (h₀ : s.Grounded u) (hi : s.program.classAt? c = some i)
    {fs : List FieldDecl} (h : Filled s s₁ d u c i fs []) (f : FieldDecl) (index : Nat)
    {fault : Diagnostic} (hf : f.elaborate (u.interface d) decl.name fs = .error fault) :
    Leads (resolveField d decl c i.scope f index) s₁ (fun _ _ => False) fun f' => f' = fault := by
  obtain ⟨i₁, hi₁, -, -, hscope, hc, -⟩ := h.holds
  obtain ⟨sc, hsc, -⟩ := (h.sound.classes c i₁ hi₁).scope
  rw [hscope] at hsc
  have hnew := hc.field_eq_none (n := f.name) h.sound hi₁
  unfold resolveField
  refine getClass_seq hi₁ ?_
  unfold FieldDecl.elaborate at hf
  by_cases hmem : f.name ∈ fs.map FieldDecl.name
  · rw [if_pos hmem] at hf
    cases hf
    rw [if_pos (ScopeTree.contains_iff.2 fun hnone => hnew.1 hnone hmem)]
    exact (refuse_leads (Q := fun _ _ => False) rfl).seq_imp (fun _ h => h.symm) fun _ _ => nofun
  · rw [if_neg hmem] at hf
    rw [if_neg fun hcontains => ScopeTree.contains_iff.1 hcontains (hnew.2 hmem)]
    -- the type is what fails
    refine (f.type.resolve_mirrors h.sound (h.grounded hi h₀).types hsc).leads.seq_imp ?_ ?_
    · intro f' hf'
      rw [hf'] at hf
      cases hf; rfl
    · rintro ty s₂ ⟨T, hT, -⟩
      rw [hT] at hf
      cases hf

/-- **A field is resolved as it is elaborated.** -/
theorem resolveField_mirrors (h₀ : s.Grounded u) (hi : s.program.classAt? c = some i)
    (hname : decl.name = i.name) (h : Filled s s₁ d u c i (fs.map Prod.fst) [])
    (hi₁ : s₁.program.classAt? c = some i₁) (hshow : s₁.FieldsShown d u decl.name i₁ fs ys)
    (f : FieldDecl) :
    Mirrors (resolveField d decl c i.scope f fs.length) s₁
      (fun _ s' y => Filled s s' d u c i ((fs ++ [(f, fs.length)]).map Prod.fst) [] ∧
        ∃ v, s'.program.classAt? c = some (i₁.addField f.name v) ∧
          s'.FieldsShown d u decl.name (i₁.addField f.name v) (fs ++ [(f, fs.length)]) (ys ++ [y]))
      (f.elaborate (u.interface d) decl.name (fs.map Prod.fst)) := by
  -- where elaboration fails, resolution fails in the same way
  refine Mirrors.of_cases ?_ fun fault hfault => resolveField_fails h₀ hi h f fs.length hfault
  intro y hy
  unfold FieldDecl.elaborate at hy
  by_cases hmem : f.name ∈ (fs.map Prod.fst).map FieldDecl.name
  · rw [if_pos hmem] at hy
    cases hy
  rw [if_neg hmem] at hy
  cases hT : f.type.elaborate (u.interface d) with
  | error fault => rw [hT] at hy; cases hy
  | ok T =>
    rw [hT] at hy
    cases hy
    have ht := TypeName.denoted?_of_elaborate hT
    refine (resolveField_leads h₀ hi h decl f fs.length).imp ?_ fun _ hr => hr.2 ⟨by rw [ht]; rfl, hmem⟩
    rintro _ s' ⟨hF, v, hadd⟩
    obtain ⟨ty, T', hv, hT', ht'⟩ := hadd.entered
    rw [ht] at ht'
    cases ht'
    rw [List.map_append, List.length_map]
    refine ⟨hF, v, hadd.info i₁ hi₁, ?_⟩
    obtain ⟨i', hi', hn', -⟩ := hF.holds
    -- the field is the next one of its class
    have hrole : s'.role? (.field c fs.length) = some (.field decl.name fs.length) := by
      rw [role?, className?, hi', Option.map_some, Option.map_some, hn', hname]
    rw [List.map_map] at hmem
    refine (hshow.mono hi₁ hadd.grows h.sound hF.sound).add hmem
      (namedVar?_eq_some_iff.2 ⟨_, hv, rfl, hrole, hT', rfl⟩) ?_
    rw [FieldDecl.named?, ht]
    rfl

/-- **The fields of a class are resolved as they are elaborated.** -/
theorem resolveFields_mirrors (h₀ : s.Grounded u) (hi : s.program.classAt? c = some i)
    (hb : s.ClassBlank i) (hname : decl.name = i.name) :
    Mirrors (resolveFields d decl c) s (fun _ s' ys => Filled s s' d u c i decl.fields [] ∧
      ∃ i', s'.program.classAt? c = some i' ∧ i'.span = i.span ∧ (∀ n : String, i'.methods[n]? = none) ∧
        s'.FieldsShown d u decl.name i' decl.fields.zipIdx ys)
      (inTurn (FieldDecl.elaborate (u.interface d) decl.name) [] decl.fields) := by
  unfold resolveFields
  refine ask_ok_seq (Program.getClass_eq hi) ?_
  have run := Mirrors.forM (l := decl.fields.zipIdx) (q := Prod.fst) (s := s)
    (f := fun q => resolveField d decl c i.scope q.1 q.2)
    (g := FieldDecl.elaborate (u.interface d) decl.name)
    (fun pre ys s' => Filled s s' d u c i (pre.map Prod.fst) [] ∧
      ∃ i', s'.program.classAt? c = some i' ∧ i'.span = i.span ∧ (∀ n : String, i'.methods[n]? = none) ∧
        s'.FieldsShown d u decl.name i' pre ys)
    ⟨hb.filled h₀.sound hi, i, hi, rfl, hb.methods, by rw [hb.order]; rfl,
      fun n => by rw [hb.fields]; rfl⟩ ?_
  · rw [List.zipIdx_map_fst] at run
    exact run
  · rintro pre ⟨f, index⟩ post ys s₁ hl ⟨hF, i₁, hi₁, hspan, hmethods, hshow⟩
    cases zipIdx_split hl
    refine (resolveField_mirrors h₀ hi hname hF hi₁ hshow f).imp ?_
    rintro _ s' y ⟨hF', v, hi', hshow'⟩
    exact ⟨hF', _, hi', hspan, hmethods, hshow'⟩

/-! ## Methods -/

/-- **A method of a class is declared as it is elaborated**, after the methods `ms`. -/
theorem declareMethod_mirrors (h₀ : s.Grounded u) (hi : s.program.classAt? c = some i)
    (hd : u.classNamed? i.name = some decl) {fs : List FieldDecl} {ms : List MethodDecl}
    (h : Filled s s₁ d u c i fs ms) (m : MethodDecl) :
    Mirrors (declareMethod d c m) s₁ (fun l s' N => ∃ g j, s'.Presents m l g j N)
      (m.elaborateMember (u.interface d) decl.name ms) := by
  obtain ⟨i₁, hi₁, hname, -, -, hc, hmethods⟩ := h.holds
  obtain ⟨sc, hsc, -⟩ := (h.sound.classes c i₁ hi₁).scope
  obtain ⟨e, he, -⟩ := (h.sound.classes c i₁ hi₁).entry
  have hnew := hc.method_eq_none (n := m.name) h.sound hsc
  have hpushed : (s₁.pushMethod (m.announce (some c))).program.scopeAt? i₁.scope = some sc := hsc
  unfold declareMethod MethodDecl.elaborateMember
  refine ask_ok_seq (Program.getClass_eq hi₁) ?_
  by_cases htaken : m.name ∈ ms.map MethodDecl.name
  · rw [if_pos htaken]
    by_cases hcontains : i₁.methods.contains m.name = true
    · rw [if_pos hcontains]
      exact Mirrors.fails_seq (refuse_leads rfl)
    · rw [if_neg hcontains]
      show Mirrors (updateScopes _ >>= fun _ => _) (s₁.pushMethod (m.announce (some c))) _ _
      exact Mirrors.fails_seq (updateScopes_leads
        (ScopeTree.declare_taken_leads hpushed fun hnone => hnew.1 hnone htaken))
  · rw [if_neg htaken]
    have hcontains : ¬ i₁.methods.contains m.name = true := fun hc => by
      obtain ⟨l, hl⟩ := Option.ne_none_iff_exists'.1 (ScopeTree.contains_iff.1 hc)
      exact htaken (hmethods m.name l hl)
    have hfree := hnew.2 htaken
    rw [if_neg hcontains]
    show Mirrors (updateScopes _ >>= fun _ => _) (s₁.pushMethod (m.announce (some c))) _ _
    refine Mirrors.leads_seq (Q := fun _ s' => s' = (s₁.pushMethod (m.announce (some c))).setScope
      i₁.scope (sc.addMethod m.name s₁.nextMethod)) (updateScopes_leads
        ((ScopeTree.declareMethod_leads hpushed _).imp ?_ fun _ hr => hr.2 hfree)) ?_
    · rintro _ _ ⟨rfl, -⟩; rfl
    rintro _ _ rfl
    have ha := announceMethod_announced h.sound hi₁ hsc he hfree
    refine Mirrors.leads_seq (Q := fun _ s' => s' = ((s₁.pushMethod
      (m.announce (some c))).setScope i₁.scope (sc.addMethod m.name s₁.nextMethod)).setClass c
        (i₁.addMethod m.name s₁.nextMethod)) (updateClass_leads hi₁ rfl) ?_
    rintro _ _ rfl
    refine Mirrors.leads_seq (Q := fun _ s' => s' = s₁.announceMethod c i₁ sc e m)
      (addMember_leads he rfl) ?_
    rintro _ _ rfl
    -- all who have to know the method do; its signature comes last
    have hground := (h.grounded hi h₀).frame ha.frame ha.sound nofun
      fun heq => h.sound.scope_ne_global hi₁ (Option.some.inj heq)
    have howns : (s₁.announceMethod c i₁ sc e m).Owns u (some c) (some decl) :=
      ⟨_, ha.classInfo, by rw [← hd, ← hname]; rfl⟩
    rw [← bind_pure (m.elaborateSignature _ _)]
    exact (resolveSignature_mirrors hground ha.method howns).seq fun _ _ _ hN => Mirrors.pure hN

/-- A method is readable as its declaration says, in the class of the given name or as a function. -/
def Readable (s : Resolver) (d : Dialect) (u : CompilationUnit) (owner : Option String)
    (b : MethodId × MethodDecl) : Prop :=
  ∃ g j N, b.2.elaborateSignature (u.interface d) owner = .ok N ∧ s.Presents b.2 b.1 g j N

theorem Readable.frame {owner : Option String} {b : MethodId × MethodDecl} {o : Option ClassId}
    {l : Option MethodId} {k : Option ScopeId} (h : s.Readable d u owner b)
    (hf : Frame s s' o l k) (hs : s.Sound) (hs' : s'.Sound) (hl : l ≠ some b.1)
    (hk : ∀ j sc, k = some j → s.program.scopeAt? j = some sc → sc.kind ≠ .block) :
    s'.Readable d u owner b := by
  obtain ⟨g, j, N, hN, hp⟩ := h
  refine ⟨g, j, N, hN, hp.mono hf.toGrows hs hs' (hf.sameMethods _ g hp.method hl) fun sc hsc => ?_⟩
  refine hf.sameScopes j sc hsc fun heq => hk j sc heq hsc ?_
  obtain ⟨sc', -, hsc', hblock, -⟩ := (hs.methods _ g hp.method).scope j hp.scope
  rw [hsc] at hsc'
  cases hsc'
  exact hblock

/-- What a class has of methods: by name they are the `answers`, for the class and for its scope. -/
structure MethodsShown (s : Resolver) (d : Dialect) (u : CompilationUnit) (owner : String)
    (i : ClassInfo) (answers : List (String × MethodId × MethodDecl)) : Prop where
  byName : ∀ n : String, i.methods[n]? = (answers.lookup n).map Prod.fst
  scope : ∀ sc, s.program.scopeAt? i.scope = some sc → ∀ n : String, sc.methods[n]? = i.methods[n]?
  names : ∀ a ∈ answers, a.1 = a.2.2.name
  readable : ∀ a ∈ answers, s.Readable d u (some owner) a.2

/-- One method more. -/
theorem MethodsShown.add {answers : List (String × MethodId × MethodDecl)} {m : MethodDecl}
    {l : MethodId} {o : Option ClassId} {k : Option ScopeId}
    (h : s.MethodsShown d u owner i answers) (hf : Frame s s' o none k) (hs : s.Sound)
    (hs' : s'.Sound) (hk : ∀ j sc, k = some j → s.program.scopeAt? j = some sc → sc.kind ≠ .block)
    (hi : s.program.classAt? c = some i) (hadd : MethodAdded s s' c m l)
    (hnew : m.name ∉ answers.map Prod.fst) (hm : s'.Readable d u (some owner) (l, m)) :
    s'.MethodsShown d u owner (i.addMethod m.name l) (answers ++ [(m.name, l, m)]) where
  byName n := by
    show (i.methods.insert m.name l)[n]? = _
    rw [getElem?_insert_eq, lookup_concat (lookup_eq_none_iff_not_mem.2 hnew), List.lookup_cons]
    by_cases hn : m.name = n
    · rw [if_pos hn, beq_iff_eq.2 hn.symm]; rfl
    · rw [if_neg hn, beq_eq_false_iff_ne.2 fun h => hn h.symm]
      exact h.byName n
  scope sc hsc n := by
    obtain ⟨sc₀, hsc₀, -⟩ := (hs.classes c i hi).scope
    have hsc' : s'.program.scopeAt? i.scope = some (sc₀.addMethod m.name l) :=
      hadd.scope i sc₀ hi hsc₀
    cases Option.some.inj (hsc.symm.trans hsc')
    show (sc₀.methods.insert m.name l)[n]? = (i.methods.insert m.name l)[n]?
    rw [getElem?_insert_eq, getElem?_insert_eq, h.scope sc₀ hsc₀ n]
  names a ha := by
    rcases List.mem_append.1 ha with ha | ha
    · exact h.names a ha
    · cases List.mem_singleton.1 ha; rfl
  readable a ha := by
    rcases List.mem_append.1 ha with ha | ha
    · exact (h.readable a ha).frame hf hs hs' nofun hk
    · cases List.mem_singleton.1 ha; exact hm

/-! ## Classes -/

/-- **A class that can be read back without numbers**, with its methods `bodies` in the order of
their names. -/
structure ClassShown (s : Resolver) (d : Dialect) (u : CompilationUnit) (c : ClassId)
    (decl : ClassDecl) (bodies : List (MethodId × MethodDecl)) (i : ClassInfo) : Prop where
  info : s.program.classAt? c = some i
  view : ∃ N, decl.elaborate (u.interface d) = .ok N ∧ s.class? c = some N
  fields : ∀ n : String, (i.fields[n]?).bind s.namedVar? = decl.namedField? d u n
  scope : ∀ sc, s.program.scopeAt? i.scope = some sc → ∀ n : String, sc.methods[n]? = i.methods[n]?
  numbers : i.methods.values = bodies.map Prod.fst
  decls : bodies.map Prod.snd = byName MethodDecl.name decl.methods
  readable : ∀ b ∈ bodies, s.Readable d u (some decl.name) b

/-- The methods of a class in the order of their names. -/
theorem MethodsShown.ordered {answers : List (String × MethodId × MethodDecl)}
    (h : s.MethodsShown d u owner i answers) (hnames : (answers.map Prod.fst).Nodup) :
    i.methods.values = (Std.TreeMap.ofList answers).values.map Prod.fst ∧
      (Std.TreeMap.ofList answers).values.map Prod.snd =
        ClassLang.byName MethodDecl.name (answers.map fun a => a.2.2) := by
  constructor
  · refine values_eq_of_lookup fun n => ?_
    rw [h.byName n, getElem?_ofList_eq_lookup hnames]
  · rw [← values_ofList_map hnames, ClassLang.byName, List.map_map]
    congr 2
    exact List.map_congr_left fun a ha => by
      show (a.1, a.2.2) = (a.2.2.name, a.2.2)
      rw [h.names a ha]

/-- **A class is resolved as it is elaborated.** -/
theorem resolveClass_mirrors (h₀ : s.Grounded u) (hi : s.program.classAt? c = some i)
    (hb : s.ClassBlank i) (hd : u.classNamed? i.name = some decl) (hspan : i.span = decl.span) :
    Mirrors (resolveClass d c decl) s (fun bodies s' _ => ∃ i', s'.ClassShown d u c decl bodies i')
      (decl.elaborate (u.interface d)) := by
  have hname : decl.name = i.name := (classNamed?_mem hd).2
  refine (?_ : Mirrors (resolveClass d c decl) s (fun bodies s' N => ∃ i',
    s'.program.classAt? c = some i' ∧ s'.class? c = some N ∧
      (∀ n : String, (i'.fields[n]?).bind s'.namedVar? = decl.namedField? d u n) ∧
      (∀ sc, s'.program.scopeAt? i'.scope = some sc → ∀ n : String, sc.methods[n]? = i'.methods[n]?) ∧
      i'.methods.values = bodies.map Prod.fst ∧
      bodies.map Prod.snd = byName MethodDecl.name decl.methods ∧
      ∀ b ∈ bodies, s'.Readable d u (some decl.name) b) _).known.imp ?_
  · unfold resolveClass ClassDecl.elaborate
    refine (resolveFields_mirrors h₀ hi hb hname).seq ?_
    rintro _ s₁ ys ⟨hF₁, i₁, hi₁, hspan₁, hmethods₁, hfields₁⟩
    obtain ⟨i₁', hi₁', -, -, hscope₁, hholds₁, -⟩ := hF₁.holds
    rw [hi₁] at hi₁'
    cases hi₁'
    have hscopes₁ : ∀ sc, s₁.program.scopeAt? i₁.scope = some sc →
        ∀ n : String, sc.methods[n]? = i₁.methods[n]? := fun sc hsc n => by
      rw [hmethods₁ n]
      exact (hholds₁.method_eq_none hF₁.sound hsc).2 nofun
    -- the answers so far: a name, a number and a declaration for each method
    have run := Mirrors.mapM (l := decl.methods) (q := id) (s := s₁)
      (f := fun m => do return (m.name, (← declareMethod d c m), m))
      (g := MethodDecl.elaborateMember (u.interface d) decl.name)
      (fun pre answers _ s' => Filled s s' d u c i decl.fields pre ∧
        answers.map (fun a => a.2.2) = pre ∧ ∃ i', s'.program.classAt? c = some i' ∧
          i'.span = i.span ∧ s'.FieldsShown d u decl.name i' decl.fields.zipIdx ys ∧
          s'.MethodsShown d u decl.name i' answers)
      ⟨hF₁, rfl, i₁, hi₁, hspan₁, hfields₁, hmethods₁, hscopes₁, nofun, nofun⟩ ?_
    · rw [List.map_id] at run
      refine run.seq ?_
      rintro answers s' _ ⟨hF, hwritten, i', hi', hspan', hfields, hshown⟩
      have hnames : (answers.map Prod.fst).Nodup := by
        have := hF.methodNames
        rw [← hwritten, List.map_map] at this
        rwa [List.map_congr_left hshown.names]
      obtain ⟨hnumbers, hdecls⟩ := hshown.ordered hnames
      rw [hwritten] at hdecls
      refine Mirrors.pure ⟨i', hi', ?_, hfields.byName, hshown.scope, hnumbers, hdecls, ?_⟩
      · obtain ⟨i'', hi'', hn, -⟩ := hF.holds
        rw [hi'] at hi''
        cases hi''
        exact class?_eq_some_iff.2 ⟨i', hi', hn.trans hname.symm, hspan'.trans hspan, hfields.order⟩
      · intro b hb
        obtain ⟨n, hn⟩ := mem_values.1 hb
        exact hshown.readable _ ((getElem?_ofList_iff hnames).1 hn)
    · rintro pre m post answers Ns s₂ hmethods ⟨hF, hwritten, i₂, hi₂, hspan₂, hfields, hshown⟩
      rw [List.map_id, id]
      have step := ((declareMethod_mirrors h₀ hi hd hF m).and
        (declareMethod_leads h₀ hi hd hF m)).known
      rw [← bind_pure (m.elaborateMember _ _ _)]
      refine step.seq ?_
      rintro l s₃ N ⟨hN, ⟨hF₃, -, hf, hadd, -⟩, g, j, hp⟩
      have hnew : m.name ∉ answers.map Prod.fst := by
        have hnodup := hF₃.methodNames
        rw [List.map_append, List.nodup_append] at hnodup
        rw [List.map_congr_left hshown.names]
        intro hmem
        rw [show answers.map (fun a => a.2.2.name) = (answers.map fun a => a.2.2).map MethodDecl.name
          from (List.map_map ..).symm, hwritten] at hmem
        exact hnodup.2.2 _ hmem _ (List.mem_singleton.2 rfl) rfl
      have hsig : m.elaborateSignature (u.interface d) (some decl.name) = .ok N := by
        unfold MethodDecl.elaborateMember at hN
        split at hN
        · cases hN
        · exact hN
      have hkind : ∀ j sc, some i.scope = some j → s₂.program.scopeAt? j = some sc →
          sc.kind ≠ .block := by
        rintro _ sc ⟨⟩ hsc
        obtain ⟨sc', hsc', hk⟩ := (hF.sound.classes c i₂ hi₂).scope
        obtain ⟨i₂', hi₂', -, -, hscope₂, -⟩ := hF.holds
        rw [hi₂] at hi₂'
        cases hi₂'
        rw [hscope₂, hsc] at hsc'
        cases hsc'
        rw [hk]
        nofun
      refine Mirrors.pure ⟨hF₃, by rw [List.map_append, hwritten]; rfl, _, hadd.info i₂ hi₂, hspan₂,
        ?_, hshown.add hf hF.sound hF₃.sound hkind hi₂ hadd hnew ⟨g, j, N, hsig, hp⟩⟩
      have := hfields.mono hi₂ hf.toGrows hF.sound hF₃.sound
      exact ⟨this.order, this.byName⟩
  · rintro bodies s' N ⟨hN, i', hi', hview, hfields, hscope, hnumbers, hdecls, hread⟩
    exact ⟨i', hi', ⟨N, hN, hview⟩, hfields, hscope, hnumbers, hdecls, hread⟩

end Resolver

end ClassLang
