import ClassLang.Proofs.Signatures

/-!
# Resolving the members of a class

The second pass goes through the fields of a class and then through its methods. One step adds one
field (`resolveField_leads`) or one method (`declareMethod_leads`), so that what is known of the class
agrees with the part of its text that has been passed; `resolveClass_leads` says the same of the whole
class. A step fails only if the declaration is not in order.
-/

namespace ClassLang

open Resolver Resolve

/-! ## Tables by name -/

section Tables

variable {β : Type} {t : Std.TreeMap String β} {l : List (String × β)}

theorem values_eq_map_snd : t.values = t.toList.map Prod.snd := by
  show t.inner.inner.values = _
  rw [Std.DTreeMap.Internal.Impl.values_eq_map_snd]
  show _ = (Std.DTreeMap.Internal.Impl.Const.toList t.inner.inner).map Prod.snd
  rw [Std.DTreeMap.Internal.Impl.Const.toList_eq_toListModel_map]
  simp

theorem mem_values {v : β} : v ∈ t.values ↔ ∃ n : String, t[n]? = some v := by
  rw [values_eq_map_snd]
  constructor
  · intro hv
    obtain ⟨⟨n, w⟩, hmem, rfl⟩ := List.mem_map.1 hv
    exact ⟨n, Std.TreeMap.mem_toList_iff_getElem?_eq_some.1 hmem⟩
  · rintro ⟨n, hn⟩
    exact List.mem_map.2 ⟨(n, v), Std.TreeMap.mem_toList_iff_getElem?_eq_some.2 hn, rfl⟩

/-- What holds of what a table has under different names holds of all pairs of its values. -/
theorem values_pairwise {R : β → β → Prop}
    (h : ∀ (n n' : String) v v', t[n]? = some v → t[n']? = some v' → n ≠ n' → R v v') :
    t.values.Pairwise R := by
  rw [values_eq_map_snd, List.pairwise_map]
  refine Std.TreeMap.distinct_keys_toList.imp_of_mem fun {a b} ha hb hne => ?_
  refine h a.1 b.1 a.2 b.2 (Std.TreeMap.mem_toList_iff_getElem?_eq_some.1 ha)
    (Std.TreeMap.mem_toList_iff_getElem?_eq_some.1 hb) fun heq => hne ?_
  exact Std.LawfulEqCmp.compare_eq_iff_eq.2 heq

theorem getElem?_ofList_iff (hl : (l.map Prod.fst).Nodup) {n : String} {v : β} :
    (Std.TreeMap.ofList l)[n]? = some v ↔ (n, v) ∈ l := by
  have hdistinct : l.Pairwise fun a b => ¬ compare a.1 b.1 = .eq := by
    refine (List.pairwise_map.1 hl).imp fun hne heq => hne ?_
    exact Std.LawfulEqCmp.compare_eq_iff_eq.1 heq
  have hmem : ∀ w, (n, w) ∈ l → (Std.TreeMap.ofList l)[n]? = some w := fun w hw =>
    Std.TreeMap.getElem?_ofList_of_mem (Std.LawfulEqCmp.compare_eq_iff_eq.2 rfl) hdistinct hw
  refine ⟨fun h => ?_, hmem v⟩
  by_cases hn : n ∈ l.map Prod.fst
  · obtain ⟨⟨n', w⟩, hw, rfl⟩ := List.mem_map.1 hn
    rw [hmem w hw] at h
    cases h
    exact hw
  · rw [Std.TreeMap.getElem?_ofList_of_contains_eq_false (by simpa using hn)] at h
    cases h

theorem getElem?_ofList_eq_lookup (hl : (l.map Prod.fst).Nodup) {n : String} :
    (Std.TreeMap.ofList l)[n]? = l.lookup n := by
  cases hn : l.lookup n with
  | none =>
    refine Option.eq_none_iff_forall_ne_some.2 fun v hv => ?_
    have hmem := (getElem?_ofList_iff hl).1 hv
    have hne := List.lookup_eq_none_iff.1 hn _ hmem
    simp at hne
  | some v =>
    obtain ⟨l₁, l₂, rfl, -⟩ := List.lookup_eq_some_iff.1 hn
    exact (getElem?_ofList_iff hl).2 (by simp)

/-- The values of a table are determined by what its names find. -/
theorem values_eq_of_lookup {γ : Type} {t' : Std.TreeMap String γ} {f : β → γ}
    (h : ∀ n : String, t'[n]? = (t[n]?).map f) : t'.values = t.values.map f := by
  have heq : t'.Equiv (t.map fun _ => f) := Std.TreeMap.Equiv.of_forall_constGet?_eq fun n => by
    rw [h n, Std.TreeMap.getElem?_map]
  rw [values_eq_map_snd, values_eq_map_snd, heq.toList_eq, Std.TreeMap.toList_map, List.map_map,
    List.map_map]
  rfl

theorem values_ofList_map {γ : Type} (hl : (l.map Prod.fst).Nodup) (f : β → γ) :
    (Std.TreeMap.ofList (l.map fun q => (q.1, f q.2))).values =
      (Std.TreeMap.ofList l).values.map f := by
  have hl' : ((l.map fun q => (q.1, f q.2)).map Prod.fst).Nodup := by
    rw [List.map_map]; exact hl
  refine values_eq_of_lookup fun n => Option.ext fun c => ?_
  rw [getElem?_ofList_iff hl', Option.map_eq_some_iff]
  constructor
  · intro hmem
    obtain ⟨⟨n', b⟩, hb, heq⟩ := List.mem_map.1 hmem
    cases heq
    exact ⟨b, (getElem?_ofList_iff hl).2 hb, rfl⟩
  · rintro ⟨b, hb, rfl⟩
    exact List.mem_map_of_mem (f := fun q : String × β => (q.1, f q.2))
      ((getElem?_ofList_iff hl).1 hb)

end Tables

/-! ## Classes, scopes and methods that grow -/

/-- The class with a field more. -/
def ClassInfo.addField (i : ClassInfo) (n : String) (v : VariableId) : ClassInfo :=
  { i with fields := i.fields.insert n v, fieldOrder := i.fieldOrder ++ [v] }

/-- The class with a method more. -/
def ClassInfo.addMethod (i : ClassInfo) (n : String) (m : MethodId) : ClassInfo :=
  { i with methods := i.methods.insert n m }

/-- The scope with a method more. -/
def Scope.addMethod (sc : Scope) (n : String) (m : MethodId) : Scope :=
  { sc with methods := sc.methods.insert n m }

theorem MethodDecl.kind_ne_operator (m : MethodDecl) (symbol : String) (ty : TypeId) :
    m.kind ≠ .operator symbol ty := by
  unfold MethodDecl.kind
  cases m.body <;> simp

theorem MethodDecl.isOperator_announce {m : MethodDecl} {o : Option ClassId} :
    (m.announce o).isOperator = false := by
  unfold MethodDecl.announce MethodDecl.kind Method.isOperator
  cases m.body <;> rfl

namespace Resolver

variable {s s₁ s' : Resolver} {d : Dialect} {u : CompilationUnit} {c : ClassId} {i : ClassInfo}
  {fs : List FieldDecl} {ms : List MethodDecl} {n : String} {sc : Scope} {m : MethodDecl}

/-! ## What is known by name -/

theorem ClassHolds.field_eq_none (h : s.ClassHolds d u i fs ms) (hs : s.Sound)
    (hi : s.program.classAt? c = some i) :
    i.fields[n]? = none ↔ n ∉ fs.map FieldDecl.name := by
  rw [← find?_name_eq_none]
  refine none_iff_of_bind_eq (h.fields n) (fun v hv => ?_)
    fun f hf => h.fieldTypes f (List.mem_of_find?_eq_some hf)
  obtain ⟨x, -, hx, -⟩ := (hs.classes c i hi).field n v hv
  obtain ⟨T, hT, -⟩ := hs.tyOf?_isSome hx
  rw [hT]
  rfl

theorem ClassHolds.method_eq_none (h : s.ClassHolds d u i fs ms) (hs : s.Sound)
    (hsc : s.program.scopeAt? i.scope = some sc) :
    sc.methods[n]? = none ↔ n ∉ ms.map MethodDecl.name :=
  (h.find_method_eq_none hs hsc).trans find?_name_eq_none

/-- **Since `s`, the class `c` has got the fields `fs` and the methods `ms`**, and all else is as it
was. -/
structure Filled (s s' : Resolver) (d : Dialect) (u : CompilationUnit) (c : ClassId) (i : ClassInfo)
    (fs : List FieldDecl) (ms : List MethodDecl) : Prop where
  frame : Frame s s' (some c) none (some i.scope)
  sound : s'.Sound
  holds : ∃ i', s'.program.classAt? c = some i' ∧ i'.name = i.name ∧ i'.ty = i.ty ∧
    i'.scope = i.scope ∧ s'.ClassHolds d u i' fs ms ∧
    ∀ (n : String) m, i'.methods[n]? = some m → n ∈ ms.map MethodDecl.name
  fieldNames : (fs.map FieldDecl.name).Nodup
  methodNames : (ms.map MethodDecl.name).Nodup

theorem ClassBlank.filled (h : s.ClassBlank i) (hs : s.Sound)
    (hi : s.program.classAt? c = some i) : Filled s s d u c i [] [] where
  frame := .refl s _ _ _
  sound := hs
  holds := by
    refine ⟨i, hi, rfl, rfl, rfl, h.holds d u, fun n m hm => ?_⟩
    rw [h.methods] at hm
    cases hm
  fieldNames := List.nodup_nil
  methodNames := List.nodup_nil

theorem Filled.grounded (h : Filled s s' d u c i fs ms) (hi : s.program.classAt? c = some i)
    (h₀ : s.Grounded u) : s'.Grounded u :=
  h₀.frame h.frame h.sound nofun fun heq => h₀.sound.scope_ne_global hi (Option.some.inj heq)

/-! ## Fields -/

/-- What is known of a class agrees with its text after a field has been added to both. -/
theorem ClassHolds.addField (h : s.ClassHolds d u i fs ms) (hs : s.Sound) (hs' : s'.Sound)
    (hi : s.program.classAt? c = some i) {l : Option ClassId} {k : Option ScopeId}
    (hf : Frame s s' l none k) (hsc : s.program.scopeAt? i.scope = some sc) {f : FieldDecl}
    {v : VariableId} {T : Ty} {i' : ClassInfo}
    (hsc' : s'.program.scopeAt? i.scope = some { sc with vars := sc.vars.insert f.name v })
    (he : ∀ e, s'.registry.entry? i.ty = some e → s.registry.entry? i.ty = some e)
    (hfree : i.fields[f.name]? = none) (hv : s'.tyOf? v = some T)
    (hT : f.type.denoted? d u = some T) (hfields : i'.fields = i.fields.insert f.name v)
    (hscope : i'.scope = i.scope) (hty : i'.ty = i.ty) : s'.ClassHolds d u i' (fs ++ [f]) ms := by
  -- the name is new in the class
  have hnone : fs.find? (fun a => a.name = f.name) = none :=
    find?_name_eq_none.2 ((h.field_eq_none hs hi).1 hfree)
  refine ⟨fun n => ?_, fun sc₁ hsc₁ n => ?_, fun sc₁ hsc₁ n => ?_, fun sc₁ e hsc₁ he₁ n => ?_, ?_,
    h.signatures⟩
  · rw [hfields, getElem?_insert_eq, find?_concat hnone]
    split
    · rw [Option.bind_some, Option.bind_some, hv, hT]
    · rw [← h.fields n]
      exact hf.toGrows.bind_field hs hs' (hs.classes c i hi) n
  · rw [hscope, hsc'] at hsc₁
    cases hsc₁
    rw [hfields, getElem?_insert_eq, getElem?_insert_eq, h.scopeVars sc hsc n]
  · rw [hscope, hsc'] at hsc₁
    cases hsc₁
    rw [← h.methods sc hsc n]
    refine hs.bind_method hsc n fun _ _ _ hsig => ?_
    exact hf.signatureOf? hs hs' nofun hsig
  · rw [hscope, hsc'] at hsc₁
    cases hsc₁
    exact h.members sc e hsc (he e (hty ▸ he₁)) n
  · refine List.forall_mem_append.2 ⟨h.fieldTypes, List.forall_mem_singleton.2 ?_⟩
    rw [hT]; rfl

/-- Since `s`, the class `c` has got the field `v`, which is declared by `f` at `index`. -/
structure FieldAdded (s s' : Resolver) (d : Dialect) (u : CompilationUnit) (c : ClassId)
    (f : FieldDecl) (index : Nat) (v : VariableId) : Prop where
  grows : s.Grows s'
  entered : ∃ ty T, s'.program.varAt? v = some ⟨f.name, ty, .field c index, none, f.span⟩ ∧
    s'.registry.meaning? ty = some T ∧ f.type.denoted? d u = some T
  info : ∀ i, s.program.classAt? c = some i →
    s'.program.classAt? c = some (i.addField f.name v)

/-- **A field is resolved** if its type is known and its name is new. -/
theorem resolveField_leads (h₀ : s.Grounded u) (hi : s.program.classAt? c = some i)
    (h : Filled s s₁ d u c i fs []) (decl : ClassDecl) (f : FieldDecl) (index : Nat) :
    Leads (resolveField d decl c i.scope f index) s₁
      (fun _ s' => Filled s s' d u c i (fs ++ [f]) [] ∧ ∃ v, FieldAdded s₁ s' d u c f index v)
      (Refused ((f.type.denoted? d u).isSome ∧ f.name ∉ fs.map FieldDecl.name)) := by
  obtain ⟨i₁, hi₁, hname, hty, hscope, hc, hmethods⟩ := h.holds
  obtain ⟨sc, hsc, hkind⟩ := (h.sound.classes c i₁ hi₁).scope
  rw [hscope] at hsc
  unfold resolveField
  refine getClass_seq hi₁ ?_
  have hnew := hc.field_eq_none (n := f.name) h.sound hi₁
  by_cases hcontains : i₁.fields.contains f.name = true
  · rw [if_pos hcontains]
    exact ⟨rfl, fun hok => ScopeTree.contains_iff.1 hcontains (hnew.2 hok.2)⟩
  rw [if_neg hcontains]
  rw [ScopeTree.contains_iff, Decidable.not_not] at hcontains
  refine (f.type.resolve_leads h.sound (h.grounded hi h₀).types hsc).seq_imp
    (fun _ hr => hr.imp And.left) ?_
  rintro ty s₂ ⟨hf₂, hs₂, T, hT, ht⟩
  have hi₂ := hf₂.keepsClass hi₁
  have hsc₂ := hf₂.keepsScope hsc
  have hok : VarOk s₂ ⟨f.name, ty, .field c index, none, f.span⟩ :=
    ⟨Registry.has_of_meaning? hs₂.registry hT, by rintro _ _ ⟨⟩; exact ⟨i₁, hi₂⟩⟩
  have hbinds : sc.kind.Binds (.field c index) := by rw [hkind]; exact ⟨index, rfl⟩
  -- the scope of the class binds the fields of the class and nothing else
  have hfree : sc.vars[f.name]? = none := by
    rw [hc.scopeVars sc (hscope ▸ hsc)]; exact hcontains
  refine (bindVariable_leads hs₂ hsc₂ hok hbinds).seq_imp (fun _ hr => absurd hfree hr.2) ?_
  rintro v s₃ ⟨hf₃, hs₃, -, -, hv, hsc₃, hreg⟩
  have hi₃ := hf₃.keepsClass hi₂
  -- now the class knows the field as well
  have hold := hs₃.classes c i₁ hi₃
  have hok₃ : ClassOk s₃ c (i₁.addField f.name v) :=
    { hold with
      field := by
        intro n w hw
        rw [ClassInfo.addField, getElem?_insert_eq] at hw
        split at hw
        · cases hw; exact ⟨_, index, hv, rfl⟩
        · exact hold.field n w hw
      order := List.forall_mem_append.2 ⟨hold.order, List.forall_mem_singleton.2 ⟨_, hv⟩⟩ }
  have hs₄ : (s₃.setClass c (i₁.addField f.name v)).Sound := hs₃.setClass hi₃ rfl rfl rfl hok₃
  have hf₄ : Frame s₃ (s₃.setClass c (i₁.addField f.name v)) (some c) none none :=
    Frame.setClass hi₃ rfl rfl rfl
  have hf : Frame s₁ (s₃.setClass c (i₁.addField f.name v)) (some c) none (some i.scope) :=
    ((hf₂.weaken (.inl rfl) (.inl rfl) (.inl rfl)).trans
      (hf₃.weaken (.inl rfl) (.inl rfl) (.inr rfl))).trans
      (hf₄.weaken (.inr rfl) (.inl rfl) (.inl rfl))
  have hi₄ := (classAt?_setClass hi₃ (i₁.addField f.name v) c).trans (if_pos rfl)
  have hadded : FieldAdded s₁ (s₃.setClass c (i₁.addField f.name v)) d u c f index v :=
    { grows := hf.toGrows
      entered := ⟨ty, T, hv, hreg ▸ hT, ht⟩
      info := fun k hk => by rw [hi₁] at hk; cases hk; exact hi₄ }
  refine updateClass_leads hi₃ ⟨⟨h.frame.trans hf, hs₄, ⟨_, hi₄, hname, hty, hscope, ?_, hmethods⟩,
    nodup_concat h.fieldNames (hnew.1 hcontains), h.methodNames⟩, v, hadded⟩
  refine hc.addField h.sound hs₄ hi₁ hf (hscope ▸ hsc) (hscope ▸ hsc₃) ?_ hcontains ?_ ht rfl rfl rfl
  · intro e he
    obtain ⟨e₁, he₁, -⟩ := (h.sound.classes c i₁ hi₁).entry
    have he₂ := hf₂.keepsType he₁
    rw [← hreg] at he₂
    rw [show e = e₁ from Option.some.inj (he.symm.trans he₂)]
    exact he₁
  · exact tyOf?_eq_some_iff.2 ⟨_, hv, hreg ▸ hT⟩

/-- **The fields of a class are resolved** if they are declared in order. -/
theorem resolveFields_leads (h₀ : s.Grounded u) (hi : s.program.classAt? c = some i)
    (hb : s.ClassBlank i) (decl : ClassDecl) :
    Leads (resolveFields d decl c) s (fun _ s' => Filled s s' d u c i decl.fields [])
      (Refused ((∀ f ∈ decl.fields, (f.type.denoted? d u).isSome) ∧
        (decl.fields.map FieldDecl.name).Nodup)) := by
  unfold resolveFields
  refine getClass_seq hi ?_
  have run := Leads.forM (l := decl.fields.zipIdx) (s := s)
    (f := fun q => resolveField d decl c i.scope q.1 q.2)
    (E := Refused ((∀ f ∈ decl.fields, (f.type.denoted? d u).isSome) ∧
        (decl.fields.map FieldDecl.name).Nodup))
    (fun pre s' => Filled s s' d u c i (pre.map Prod.fst) []) (hb.filled h₀.sound hi) ?_
  · refine run.post (fun _ s' h => ?_)
    rwa [List.zipIdx_map_fst] at h
  · rintro pre ⟨f, index⟩ post s₁ hl hI
    have hfields : decl.fields = pre.map Prod.fst ++ f :: post.map Prod.fst := by
      have := congrArg (List.map Prod.fst) hl
      simpa [List.zipIdx_map_fst] using this
    refine (resolveField_leads h₀ hi hI decl f index).imp ?_ fun _ hf => hf.imp ?_
    · rintro _ s' ⟨h, -⟩
      rw [List.map_append]
      exact h
    · rintro ⟨htypes, hnodup⟩
      refine ⟨htypes f (by rw [hfields]; simp), fun hmem => ?_⟩
      rw [hfields, List.map_append, List.map_cons, List.nodup_append] at hnodup
      exact hnodup.2.2 _ hmem _ List.mem_cons_self rfl

/-! ## Methods -/

/-- The state after a method of a class has been announced: the method is there, and the scope of the
class, the class and its type know it. -/
def announceMethod (s : Resolver) (c : ClassId) (i : ClassInfo) (sc : Scope) (e : TypeEntry)
    (m : MethodDecl) : Resolver :=
  let s₁ := s.pushMethod (m.announce (some c))
  let s₂ := s₁.setScope i.scope (sc.addMethod m.name s.nextMethod)
  let s₃ := s₂.setClass c (i.addMethod m.name s.nextMethod)
  s₃.withRegistry (s.registry.withMember i.ty e m.name s.nextMethod)

/-- What is found after a method `l` of a class has been announced. -/
structure MethodAnnounced (s s' : Resolver) (c : ClassId) (i : ClassInfo) (sc : Scope)
    (e : TypeEntry) (m : MethodDecl) (l : MethodId) : Prop where
  frame : Frame s s' (some c) none (some i.scope)
  sound : s'.Sound
  fresh : s.program.methodAt? l = none
  method : s'.program.methodAt? l = some (m.announce (some c))
  classInfo : s'.program.classAt? c = some (i.addMethod m.name l)
  scope : s'.program.scopeAt? i.scope = some (sc.addMethod m.name l)
  entry : s'.registry.entry? i.ty = some { e with members := e.members ++ [(m.name, l)] }

/-- Announcing a method enters it in its class, its scope and its type. -/
theorem announceMethod_announced (hs : s.Sound) (hi : s.program.classAt? c = some i)
    (hsc : s.program.scopeAt? i.scope = some sc) {e : TypeEntry}
    (he : s.registry.entry? i.ty = some e) (hfree : sc.methods[m.name]? = none) :
    MethodAnnounced s (s.announceMethod c i sc e m) c i sc e m s.nextMethod := by
  -- the method
  have hok : MethodOk s (m.announce (some c)) :=
    { owner := by rintro _ ⟨⟩; exact ⟨i, hi⟩
      result := hs.registry.has_native .void
      argument := nofun
      receiver := nofun
      scope := nofun
      operand := fun symbol ty hk => absurd hk (m.kind_ne_operator symbol ty) }
  have hs₁ := hs.pushMethod hok rfl
  have hf₁ : Frame s (s.pushMethod (m.announce (some c))) none none none :=
    Frame.pushMethod s rfl
  have hm₁ : (s.pushMethod (m.announce (some c))).program.methodAt? s.nextMethod =
      some (m.announce (some c)) := (methodAt?_pushMethod _ _).trans (if_pos rfl)
  -- its name in the scope of the class
  have hsc₁ : (s.pushMethod (m.announce (some c))).program.scopeAt? i.scope = some sc := hsc
  have hgr : sc.Grows (sc.addMethod m.name s.nextMethod) :=
    ⟨rfl, rfl, fun _ _ h => h, fun _ _ h => getElem?_insert_of_some hfree h, fun _ _ h => h⟩
  have hscok := hs₁.scopes _ _ hsc₁
  have hs₂ := hs₁.setScope hsc₁ hgr { hscok with
    method := by
      intro n l hl
      rw [Scope.addMethod, getElem?_insert_eq] at hl
      split at hl
      · cases hl; exact ⟨_, hm₁, i, hi, rfl⟩
      · exact hscok.method n l hl }
  have hf₂ := Frame.setScope hsc₁ hgr
  -- its name in the class
  have hi₂ : ((s.pushMethod (m.announce (some c))).setScope i.scope
      (sc.addMethod m.name s.nextMethod)).program.classAt? c = some i := hi
  have hclass := hs₂.classes c i hi₂
  have hs₃ := hs₂.setClass hi₂ (i := i.addMethod m.name s.nextMethod) rfl rfl rfl { hclass with
    method := by
      intro n l hl
      rw [ClassInfo.addMethod, getElem?_insert_eq] at hl
      split at hl
      · cases hl; exact ⟨_, hm₁, rfl⟩
      · exact hclass.method n l hl }
  have hf₃ := Frame.setClass hi₂ (i := i.addMethod m.name s.nextMethod) rfl rfl rfl
  -- its name among the members of the type
  have he₃ : Registry.entry? (((s.pushMethod (m.announce (some c))).setScope i.scope
      (sc.addMethod m.name s.nextMethod)).setClass c
        (i.addMethod m.name s.nextMethod)).registry i.ty = some e := he
  obtain ⟨e', he', hkind⟩ := (hs.classes c i hi).entry
  rw [he] at he'
  cases he'
  have hs₄ := hs₃.withMember he₃ hm₁ (show (m.announce (some c)).name = m.name from rfl)
  have hf₄ := Frame.withMember he₃ hkind m.name s.nextMethod
  refine ⟨?_, hs₄, methodAt?_nextMethod s, hm₁, (classAt?_setClass hi₂ _ c).trans (if_pos rfl),
    (scopeAt?_setScope hsc₁ _ _).trans (if_pos rfl),
    (Registry.entry?_withMember he₃ _ _ _).trans (if_pos rfl)⟩
  exact (((hf₁.weaken (.inl rfl) (.inl rfl) (.inl rfl)).trans
    (hf₂.weaken (.inl rfl) (.inl rfl) (.inr rfl))).trans
    (hf₃.weaken (.inr rfl) (.inl rfl) (.inl rfl))).trans
    (hf₄.weaken (.inr rfl) (.inl rfl) (.inl rfl))

/-- What is known of a class agrees with its text after a method has been added to both. -/
theorem ClassHolds.addMethod (h : s.ClassHolds d u i fs ms) (hs : s.Sound) (hs' : s'.Sound)
    (hi : s.program.classAt? c = some i) {o : Option ClassId} {k : Option ScopeId}
    (hf : Frame s s' o none k) (hsc : s.program.scopeAt? i.scope = some sc) {e : TypeEntry}
    (he : s.registry.entry? i.ty = some e) {l : MethodId} {sig : Signature}
    (hsc' : s'.program.scopeAt? i.scope = some (sc.addMethod m.name l))
    (he' : s'.registry.entry? i.ty = some { e with members := e.members ++ [(m.name, l)] })
    (hfree : sc.methods[m.name]? = none) (hsig : s'.signatureOf? l = some sig)
    (hm : m.signature? d u = some sig) :
    s'.ClassHolds d u (i.addMethod m.name l) fs (ms ++ [m]) := by
  -- the name is new in the class
  have hnone : ms.find? (fun a => a.name = m.name) = none :=
    find?_name_eq_none.2 ((h.method_eq_none hs hsc).1 hfree)
  have hscope : ∀ sc₁, s'.program.scopeAt? (i.addMethod m.name l).scope = some sc₁ →
      sc₁ = sc.addMethod m.name l := by
    intro sc₁ hsc₁
    exact Option.some.inj (hsc₁.symm.trans hsc')
  refine ⟨fun n => ?_, fun sc₁ hsc₁ n => ?_, fun sc₁ hsc₁ n => ?_, fun sc₁ e₁ hsc₁ he₁ n => ?_,
    h.fieldTypes, ?_⟩
  · rw [← h.fields n]
    exact hf.toGrows.bind_field hs hs' (hs.classes c i hi) n
  · rw [hscope sc₁ hsc₁]
    exact h.scopeVars sc hsc n
  · rw [hscope sc₁ hsc₁, Scope.addMethod, getElem?_insert_eq, find?_concat hnone]
    split
    · rw [Option.bind_some, Option.bind_some, hsig, hm]
    · rw [← h.methods sc hsc n]
      refine hs.bind_method hsc n fun _ _ _ hsig => ?_
      exact hf.signatureOf? hs hs' nofun hsig
  · rw [hscope sc₁ hsc₁, show e₁ = _ from Option.some.inj (he₁.symm.trans he')]
    have hcand := h.members sc e hsc he
    unfold TypeEntry.candidates at hcand ⊢
    -- under its own name the method is now the only candidate
    rw [List.filterMap_append, hcand n, Scope.addMethod, getElem?_insert_eq]
    by_cases hn : m.name = n
    · subst hn
      simp [hfree]
    · simp [hn]
  · refine List.forall_mem_append.2 ⟨h.signatures, List.forall_mem_singleton.2 ?_⟩
    rw [hm]; rfl

/-- Since `s`, the class `c` and its scope have got the method `l`, which is declared by `m`. -/
structure MethodAdded (s s' : Resolver) (c : ClassId) (m : MethodDecl) (l : MethodId) : Prop where
  info : ∀ i, s.program.classAt? c = some i →
    s'.program.classAt? c = some (i.addMethod m.name l)
  scope : ∀ i sc, s.program.classAt? c = some i → s.program.scopeAt? i.scope = some sc →
    s'.program.scopeAt? i.scope = some (sc.addMethod m.name l)

/-- **A method of a class is declared and its signature resolved** if its name is new and it is
declared in order. -/
theorem declareMethod_leads (h₀ : s.Grounded u) (hi : s.program.classAt? c = some i)
    {decl : ClassDecl} (hd : u.classNamed? i.name = some decl) (h : Filled s s₁ d u c i fs ms)
    (m : MethodDecl) :
    Leads (declareMethod d c m) s₁
      (fun l s' => Filled s s' d u c i fs (ms ++ [m]) ∧ m.Declared d u true ∧
        Frame s₁ s' (some c) none (some i.scope) ∧ MethodAdded s₁ s' c m l ∧
        ∃ g j, s₁.program.scopeAt? j = none ∧ s'.Ready d u (some decl) l m g j)
      (Refused (m.name ∉ ms.map MethodDecl.name ∧ m.Declared d u true)) := by
  obtain ⟨i₁, hi₁, hname, hty, hscope, hc, hmethods⟩ := h.holds
  obtain ⟨sc, hsc, -⟩ := (h.sound.classes c i₁ hi₁).scope
  obtain ⟨e, he, -⟩ := (h.sound.classes c i₁ hi₁).entry
  have hnew := hc.method_eq_none (n := m.name) h.sound hsc
  unfold declareMethod
  refine getClass_seq hi₁ ?_
  by_cases hcontains : i₁.methods.contains m.name = true
  · rw [if_pos hcontains]
    refine ⟨rfl, fun hok => ?_⟩
    rw [ScopeTree.contains_iff] at hcontains
    obtain ⟨l, hl⟩ := Option.ne_none_iff_exists'.1 hcontains
    exact hok.1 (hmethods m.name l hl)
  rw [if_neg hcontains]
  show Leads (updateScopes _ >>= fun _ => _) (s₁.pushMethod (m.announce (some c))) _ _
  refine Leads.seq_imp (Q := fun _ s' => sc.methods[m.name]? = none ∧ s' =
      (s₁.pushMethod (m.announce (some c))).setScope i₁.scope (sc.addMethod m.name s₁.nextMethod))
    (E := Refused (sc.methods[m.name]? = none)) ?_ (fun _ hr => hr.imp fun hok => hnew.2 hok.1) ?_
  · refine updateScopes_leads ((ScopeTree.declareMethod_leads hsc _).post ?_)
    rintro _ _ ⟨rfl, hfree⟩
    exact ⟨hfree, rfl⟩
  rintro _ _ ⟨hfree, rfl⟩
  have ha := announceMethod_announced h.sound hi₁ hsc he hfree
  refine Leads.sure_seq (Q := fun _ s' => s' = ((s₁.pushMethod (m.announce (some c))).setScope
      i₁.scope (sc.addMethod m.name s₁.nextMethod)).setClass c (i₁.addMethod m.name s₁.nextMethod))
    (updateClass_leads hi₁ rfl) ?_
  rintro _ _ rfl
  refine Leads.sure_seq (Q := fun _ s' => s' = s₁.announceMethod c i₁ sc e m)
    (addMember_leads he rfl) ?_
  rintro _ _ rfl
  -- all who have to know the method do; its signature comes last
  have hground := (h.grounded hi h₀).frame ha.frame ha.sound
    (fun m' _ hm => absurd hm.symm (Option.some_ne_none m'))
    fun heq => h.sound.scope_ne_global hi₁ (Option.some.inj heq)
  have howns : (s₁.announceMethod c i₁ sc e m).Owns u (some c) (some decl) :=
    ⟨_, ha.classInfo, by rw [← hd, ← hname]; rfl⟩
  refine (resolveSignature_leads hground ha.method howns).seq_imp (fun _ hr => hr.imp And.right) ?_
  rintro _ s' ⟨hf, hs', hdeclared, g, j, hj, hready⟩
  have hframe : Frame s₁ s' (some c) none (some i.scope) := by
    rw [← hscope]
    refine ha.frame.comp (hf.weaken (.inl rfl) (.inr rfl) (.inl rfl)) ?_ fun _ _ _ h => h
    intro l' g' hg' heq
    cases heq
    rw [ha.fresh] at hg'
    cases hg'
  have hadded : MethodAdded s₁ s' c m s₁.nextMethod := by
    constructor
    · intro k hk
      rw [hi₁] at hk
      cases hk
      exact hf.keepsClass ha.classInfo
    · intro k sc' hk hsc'
      rw [hi₁] at hk
      cases hk
      rw [hsc] at hsc'
      cases hsc'
      exact hf.keepsScope ha.scope
  obtain ⟨-, sig, -, hsig, hsig', -⟩ := hready.signature
  refine Leads.pure ⟨⟨h.frame.trans hframe, hs', ?_, h.fieldNames,
    nodup_concat h.methodNames (hnew.1 hfree)⟩, hdeclared, hframe, hadded, g, j, ?_, hready⟩
  · refine ⟨_, hf.keepsClass ha.classInfo, hname, hty, hscope, ?_, ?_⟩
    · exact hc.addMethod h.sound hs' hi₁ hframe hsc he (hf.keepsScope ha.scope)
        (hf.keepsType ha.entry) hfree hsig' hsig
    · intro n l hl
      rw [ClassInfo.addMethod, getElem?_insert_eq] at hl
      rw [List.map_append]
      split at hl
      · rename_i hn; simp [hn]
      · exact List.mem_append_left _ (hmethods n l hl)
  · exact ha.frame.toGrows.scopeAt?_eq_none hj

/-! ## Classes -/

/-- **The methods of a class with their bodies to come**: since `s`, all of them have become ready. -/
structure ClassBodies (s s' : Resolver) (d : Dialect) (u : CompilationUnit) (decl : ClassDecl)
    (bodies : List (MethodId × MethodDecl)) : Prop where
  written : ∀ b ∈ bodies, b.2 ∈ decl.methods
  all : ∀ m ∈ decl.methods, ∃ l, (l, m) ∈ bodies
  ready : ∀ b ∈ bodies, ∃ g j, s.program.scopeAt? j = none ∧
    s'.Ready d u (some decl) b.1 b.2 g j
  distinct : (bodies.map Prod.fst).Nodup

/-- A number has one method, with one name and one owner. -/
theorem Ready.unique {owner owner' : Option ClassDecl} {l : MethodId} {m' : MethodDecl}
    {g g' : Method} {j j' : ScopeId} (h : s.Ready d u owner l m g j)
    (h' : s.Ready d u owner' l m' g' j') : m.name = m'.name ∧ owner = owner' := by
  have hg : g = g' := Option.some.inj (h.method.symm.trans h'.method)
  subst hg
  exact ⟨h.name.symm.trans h'.name, h.owned.unique h'.owned⟩

/-- **A class is resolved** if its fields and methods are declared in order. -/
theorem resolveClass_leads (h₀ : s.Grounded u) (hi : s.program.classAt? c = some i)
    (hb : s.ClassBlank i) {decl : ClassDecl} (hd : u.classNamed? i.name = some decl) :
    Leads (resolveClass d c decl) s
      (fun bodies s' => Filled s s' d u c i decl.fields decl.methods ∧
        (∀ m ∈ decl.methods, m.Declared d u true) ∧ ClassBodies s s' d u decl bodies)
      (Refused (decl.Declared d u)) := by
  unfold resolveClass
  refine (resolveFields_leads h₀ hi hb decl).seq_imp
    (fun _ hr => hr.imp fun hok => ⟨hok.fields, hok.fieldNames⟩) fun _ s₁ h₁ => ?_
  -- the answers so far: a name, a number and a declaration for each method
  have run := Leads.mapM (l := decl.methods) (s := s₁) (E := Refused (decl.Declared d u))
    (f := fun m => do return (m.name, (← declareMethod d c m), m))
    (fun pre answers s' => Filled s s' d u c i decl.fields pre ∧
      (∀ m ∈ pre, m.Declared d u true) ∧ answers.map (fun a => a.2.2) = pre ∧
      ∀ a ∈ answers, a.1 = a.2.2.name ∧
        ∃ g j, s.program.scopeAt? j = none ∧ s'.Ready d u (some decl) a.2.1 a.2.2 g j)
    ⟨h₁, nofun, rfl, nofun⟩ ?_
  · refine run.seq ?_
    rintro answers s' ⟨hF, hdeclared, hwritten, hans⟩
    have hnames : (answers.map Prod.fst).Nodup := by
      have := hF.methodNames
      rw [← hwritten, List.map_map] at this
      rwa [List.map_congr_left fun a ha => (hans a ha).1]
    have hmem : ∀ b, b ∈ (Std.TreeMap.ofList answers).values ↔ ∃ n, (n, b) ∈ answers := by
      intro b
      rw [mem_values]
      exact exists_congr fun n => getElem?_ofList_iff hnames
    refine Leads.pure ⟨hF, hdeclared, ?_, ?_, ?_, ?_⟩
    · intro b hb
      obtain ⟨n, hn⟩ := (hmem b).1 hb
      exact hwritten ▸ List.mem_map_of_mem (f := fun a => a.2.2) hn
    · intro m hm
      rw [← hwritten] at hm
      obtain ⟨a, ha, rfl⟩ := List.mem_map.1 hm
      exact ⟨a.2.1, (hmem _).2 ⟨a.1, ha⟩⟩
    · intro b hb
      obtain ⟨n, hn⟩ := (hmem b).1 hb
      exact (hans _ hn).2
    · -- methods of different names have different numbers
      refine List.pairwise_map.2 (values_pairwise fun n n' v v' hv hv' hne heq => hne ?_)
      obtain ⟨hn, g, j, -, hr⟩ := hans _ ((getElem?_ofList_iff hnames).1 hv)
      obtain ⟨hn', g', j', -, hr'⟩ := hans _ ((getElem?_ofList_iff hnames).1 hv')
      have heq' : v.1 = v'.1 := heq
      rw [← heq'] at hr'
      exact hn.trans ((hr.unique hr').1.trans hn'.symm)
  · rintro pre m post answers s₂ hmethods ⟨hF, hdeclared, hwritten, hans⟩
    refine (declareMethod_leads h₀ hi hd hF m).seq_imp (fun _ hr => hr.imp fun hok => ⟨?_, ?_⟩) ?_
    · have hnodup := hok.methodNames
      rw [hmethods, List.map_append, List.map_cons, List.nodup_append] at hnodup
      exact fun hmem => hnodup.2.2 _ hmem _ List.mem_cons_self rfl
    · exact hok.methods m (by rw [hmethods]; simp)
    rintro l s₃ ⟨hF', hm, hf, -, g, j, hj, hready⟩
    refine Leads.pure ⟨hF', List.forall_mem_append.2 ⟨hdeclared, List.forall_mem_singleton.2 hm⟩,
      by rw [List.map_append, hwritten]; rfl, ?_⟩
    · intro a ha
      rcases List.mem_append.1 ha with ha | ha
      · -- the scopes of the earlier methods are not that of the class
        obtain ⟨hn, g', j', hj', hr'⟩ := hans a ha
        refine ⟨hn, g', j', hj', hr'.frame hf hF.sound hF'.sound nofun fun heq => ?_⟩
        obtain ⟨sc, hsc, -⟩ := (h₀.sound.classes c i hi).scope
        rw [Option.some.inj heq, hj'] at hsc
        cases hsc
      · cases List.mem_singleton.1 ha
        exact ⟨rfl, g, j, hF.frame.toGrows.scopeAt?_eq_none hj, hready⟩

end Resolver

end ClassLang
