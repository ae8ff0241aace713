import ClassLang.Proofs.Operators

/-!
# What the steps of resolution lead to

For each step that changes the state, from a sound state: what stays as it was, that the state is
sound again, and what can be found afterwards. A step that fails shows that the program breaks a
rule.

* `intern_leads`, `pushScope_leads`, `bindVariable_leads`: types, blocks and variables.
* `TypeName.resolve_leads`: a written type is resolved if and only if it denotes a type.
-/

namespace ClassLang

variable {s s' : Resolver}

/-! ## Names of a scope -/

namespace ScopeTree

variable {t : ScopeTree} {j : ScopeId} {sc : Scope} {n : String} {span : Span}

theorem get_eq (hj : t.scopes[j.index]? = some sc) : t.get j = .ok sc := by
  unfold get
  rw [hj]

/-- What is said of a scope that does not exist. -/
theorem get_missing (hj : t.scopes[j.index]? = none) :
    t.get j = .error (.internal ("scope " ++ j.index.repr ++ " does not exist") .nowhere) := by
  unfold get
  rw [hj]

theorem ask_of_ok (h : t.get j = .ok sc) : ask j t = .ok sc t := by
  unfold ask
  rw [get_bind_apply, h]
  rfl

theorem ask_of_error {d : Diagnostic} (h : t.get j = .error d) : ask j t = .error d t := by
  unfold ask
  rw [get_bind_apply, h]
  rfl

theorem contains_iff {α : Type} {names : Std.TreeMap String α} :
    names.contains n = true ↔ ¬ names[n]? = none := by
  rw [Std.TreeMap.contains_eq_isSome_getElem?, Option.isSome_iff_ne_none]

section Declare

variable {α : Type} {names : Scope.Names α} {a : α}

/-- **What a declaration makes of a tree**: it is refused without a change if the scope binds the
name, and otherwise the scope binds it. -/
theorem declare_eq (hj : t.scopes[j.index]? = some sc) : declare names j n a span t =
    if (names.table sc).contains n then .error ⟨names.taken n, span⟩ t
    else .ok () (t.set j (names.replace sc ((names.table sc).insert n a))) := by
  unfold declare
  rw [bind_of_ok (ask_of_ok (get_eq hj))]
  split
  · rfl
  · rfl

/-- A declaration in a scope that does not exist changes nothing either. -/
theorem declare_missing (hj : t.scopes[j.index]? = none) : declare names j n a span t =
    .error (.internal ("scope " ++ j.index.repr ++ " does not exist") .nowhere) t :=
  bind_of_error (ask_of_error (get_missing hj))

/-- **A declaration either binds a free name or leaves the tree as it is**, with a fault that is
internal or lies at the declaration. -/
theorem declare_cases (names : Scope.Names α) (j : ScopeId) (n : String) (a : α) (span : Span)
    (t : ScopeTree) :
    (∃ sc, t.scopes[j.index]? = some sc ∧ (names.table sc)[n]? = none ∧
      declare names j n a span t =
        .ok () (t.set j (names.replace sc ((names.table sc).insert n a)))) ∨
    ∃ f, declare names j n a span t = .error f t ∧ (f.cause.isInternal = true ∨ f.span = span) := by
  cases hj : t.scopes[j.index]? with
  | none => exact .inr ⟨_, declare_missing hj, .inl rfl⟩
  | some sc =>
    by_cases hn : (names.table sc).contains n = true
    · exact .inr ⟨_, (declare_eq hj).trans (if_pos hn), .inr rfl⟩
    · refine .inl ⟨sc, rfl, Decidable.not_not.1 fun h => hn (contains_iff.2 h), ?_⟩
      exact (declare_eq hj).trans (if_neg hn)

theorem declare_leads (hj : t.scopes[j.index]? = some sc)
    (htaken : (names.taken n).isInternal = false) :
    Leads (declare names j n a span) t
      (fun _ t' => t' = t.set j (names.replace sc ((names.table sc).insert n a)) ∧
        (names.table sc)[n]? = none)
      (Refused ((names.table sc)[n]? = none)) := by
  unfold Leads
  rw [declare_eq hj]
  by_cases hn : (names.table sc).contains n = true
  · rw [if_pos hn]
    exact ⟨htaken, contains_iff.1 hn⟩
  · rw [if_neg hn]
    exact ⟨rfl, Decidable.not_not.1 fun h => hn (contains_iff.2 h)⟩

/-- A name that is bound is refused with the complaint of its sort. -/
theorem declare_taken_leads (hj : t.scopes[j.index]? = some sc)
    (hn : (names.table sc)[n]? ≠ none) :
    Leads (declare names j n a span) t (fun _ _ => False) fun f => f = ⟨names.taken n, span⟩ := by
  unfold Leads
  rw [declare_eq hj, if_pos (contains_iff.2 hn)]

end Declare

theorem declareVariable_leads (hj : t.scopes[j.index]? = some sc) (v : VariableId) :
    Leads (declareVariable j n v span) t
      (fun _ t' => t' = t.set j { sc with vars := sc.vars.insert n v } ∧ sc.vars[n]? = none)
      (Refused (sc.vars[n]? = none)) := declare_leads hj rfl

theorem declareMethod_leads (hj : t.scopes[j.index]? = some sc) (m : MethodId) :
    Leads (declareMethod j n m span) t
      (fun _ t' => t' = t.set j { sc with methods := sc.methods.insert n m } ∧
        sc.methods[n]? = none)
      (Refused (sc.methods[n]? = none)) := declare_leads hj rfl

theorem declareType_leads (hj : t.scopes[j.index]? = some sc) (ty : TypeId) :
    Leads (declareType j n ty span) t
      (fun _ t' => t' = t.set j { sc with types := sc.types.insert n ty } ∧ sc.types[n]? = none)
      (Refused (sc.types[n]? = none)) := declare_leads hj rfl

end ScopeTree

theorem getElem?_insert_eq {α : Type} {names : Std.TreeMap String α} {n n' : String} {a : α} :
    (names.insert n a)[n']? = if n = n' then some a else names[n']? := by
  rw [Std.TreeMap.getElem?_insert]
  simp only [Std.LawfulEqCmp.compare_eq_iff_eq]

/-- What a table holds stays when a name is added that it does not hold. -/
theorem getElem?_insert_of_some {α : Type} {names : Std.TreeMap String α} {n n' : String} {a b : α}
    (hn : names[n]? = none) (h : names[n']? = some b) : (names.insert n a)[n']? = some b := by
  rw [getElem?_insert_eq, if_neg]
  · exact h
  · rintro rfl; rw [hn] at h; cases h

namespace Resolver

variable {j : ScopeId} {sc : Scope} {names : Bindings} {n : String}

/-- A name is free in a scope if and only if it is free in the block that the scope matches. -/
theorem Matches.vars_eq_none (h : s.Matches sc names) (hs : s.Sound)
    (hsc : s.program.scopeAt? j = some sc) : sc.vars[n]? = none ↔ names.lookup n = none := by
  rw [← h n]
  cases hv : sc.vars[n]? with
  | none => simp
  | some v =>
    obtain ⟨y, hy, -⟩ := (hs.scopes j sc hsc).var n v hv
    obtain ⟨T, -, hb⟩ := hs.bindingOf?_isSome hy
    simp [hb]

/-- A scope with a further variable matches a block with a further name. -/
theorem Matches.insert (h : s.Matches sc names) (hg : s.Grows s') (hs : s.Sound) (hs' : s'.Sound)
    (hsc : s.program.scopeAt? j = some sc) {v : VariableId} {y : Variable} {T : Ty}
    (hy : s'.program.varAt? v = some y) (hT : s'.registry.meaning? y.ty = some T) :
    s'.Matches { sc with vars := sc.vars.insert n v }
      ((n, ⟨T, y.kind = .receiver⟩) :: names) := by
  intro n'
  obtain ⟨T', hT', hb⟩ := hs'.bindingOf?_isSome hy
  rw [hT] at hT'
  cases hT'
  rw [getElem?_insert_eq, List.lookup_cons]
  by_cases hn : n = n'
  · subst hn
    simp only [if_true, Option.bind_some, hb, beq_self_eq_true]
  · have hn' : (n' == n) = false := by simpa using fun h => hn h.symm
    simp only [hn, if_false, hn']
    exact h.mono hg hs hs' hsc n'

end Resolver

namespace Resolve

section Scopes

variable {change : EStateM Diagnostic ScopeTree Unit} {t : ScopeTree}

theorem updateScopes_of_ok (h : change s.program.scopes = .ok () t) :
    updateScopes change s = .ok () { s with program := { s.program with scopes := t } } := by
  unfold updateScopes
  rw [get_bind_apply, h]
  rfl

theorem updateScopes_of_error {d : Diagnostic} (h : change s.program.scopes = .error d t) :
    updateScopes change s = .error d { s with program := { s.program with scopes := t } } := by
  unfold updateScopes
  rw [get_bind_apply, h]
  rfl

theorem updateScopes_leads {E : Diagnostic → Prop} (h : Leads change s.program.scopes
      (fun _ t => Q () { s with program := { s.program with scopes := t } }) E) :
    Leads (updateScopes change) s Q E := by
  unfold Leads at h ⊢
  cases hc : change s.program.scopes with
  | ok _ t => rw [hc] at h; rw [updateScopes_of_ok hc]; exact h
  | error d t => rw [hc] at h; rw [updateScopes_of_error hc]; exact h

end Scopes

variable {β : Type} {R : β → Resolver → Prop} {E : Diagnostic → Prop} {m : MethodId}
  {Q : Unit → Resolver → Prop}

theorem getClass_seq {c : ClassId} {i : ClassInfo} {k : ClassInfo → Resolve β}
    (hi : s.program.classAt? c = some i) (h : Leads (k i) s R E) :
    Leads (getClass c >>= k) s R E := by
  refine ask_sure (Q := fun a => a = i) ?_ ?_
  · rw [Program.getClass_eq hi]; exact Yields.ok rfl
  · rintro _ rfl; exact h

theorem getMethod_seq {g : Method} {k : Method → Resolve β} (hg : s.program.methodAt? m = some g)
    (h : Leads (k g) s R E) : Leads (getMethod m >>= k) s R E := by
  refine ask_sure (Q := fun a => a = g) ?_ ?_
  · rw [Program.getMethod_eq hg]; exact Yields.ok rfl
  · rintro _ rfl; exact h

theorem updateClass_leads {c : ClassId} {i : ClassInfo} {f : ClassInfo → ClassInfo}
    (hi : s.program.classAt? c = some i) (h : Q () (s.setClass c (f i))) :
    Leads (updateProgram fun p => p.updateClass c f) s Q E := by
  refine updateProgram_leads ?_
  unfold Program.updateClass
  exact Yields.bind_ok (Program.getClass_eq hi) h

theorem updateMethod_leads {g : Method} {f : Method → Method} (hg : s.program.methodAt? m = some g)
    (h : Q () (s.setMethod m (f g))) : Leads (updateProgram fun p => p.updateMethod m f) s Q E := by
  refine updateProgram_leads ?_
  unfold Program.updateMethod
  exact Yields.bind_ok (Program.getMethod_eq hg) h

theorem addMember_leads {id : TypeId} {e : TypeEntry} {n : String}
    (he : s.registry.entry? id = some e)
    (h : Q () (s.withRegistry (s.registry.withMember id e n m))) :
    Leads (addMember id n m) s Q E := by
  unfold addMember
  refine ask_sure (Q := fun r => r = s.registry.withMember id e n m) ?_ ?_
  · rw [Registry.addMember_eq he]; exact Yields.ok rfl
  · rintro _ rfl; exact Leads.modify h

open Resolver

/-- Entering a pointer or array type. -/
theorem intern_leads (hs : s.Sound) {k : TypeKind} {t : TypeId} {T : Ty} (hk : k.part? = some t)
    (hT : s.registry.meaning? t = some T) : Leads (intern k) s (fun id s' =>
      Frame s s' none none none ∧ s'.Sound ∧ s'.registry.kind? id = some k ∧
        s'.registry.meaning? t = some T) E := by
  have hs' := hs.intern hk (Registry.has_of_meaning? hs.registry hT)
  have hf := Frame.intern s (k := k) (by rw [hk]; rfl)
  exact ⟨hf, hs', Registry.kind?_intern hs.registry.indexed k,
    hf.toGrows.meaning? hs.registry hs'.registry hT⟩

/-- A new block inside a scope. -/
theorem pushScope_leads (hs : s.Sound) {p : ScopeId} {sp : Scope}
    (hp : s.program.scopeAt? p = some sp) :
    Leads (pushScope .block p) s (fun j s' => Frame s s' none none none ∧ s'.Sound ∧
      s.program.scopeAt? j = none ∧ p.index < j.index ∧
      s'.program.scopeAt? j = some (.empty .block (some p))) E := by
  have hlt := scope_lt_next hp
  have hne : s.nextScope ≠ ScopeTree.globalId := by
    intro h; rw [h] at hlt; exact absurd hlt (Nat.not_lt_zero _)
  have hok : ScopeOk s s.nextScope (.empty .block (some p)) :=
    { root := by simp [Scope.empty, hne]
      parent := by rintro _ ⟨⟩; exact hlt
      inside := by simp [Scope.empty, hne]
      ofClass := nofun
      var := by simp [Scope.empty]
      method := by simp [Scope.empty]
      type := by simp [Scope.empty] }
  refine ⟨Frame.pushScope s _, hs.pushScope hok, scopeAt?_nextScope s, hlt, ?_⟩
  exact (scopeAt?_pushScope _ _).trans (if_pos rfl)

/-- **Binding a variable** in a scope fails only if the name is bound there. -/
theorem bindVariable_leads (hs : s.Sound) {j : ScopeId} {sc : Scope} {n : String} {ty : TypeId}
    {kind : VariableKind} {span : Span} (hj : s.program.scopeAt? j = some sc)
    (hok : VarOk s ⟨n, ty, kind, none, span⟩) (hb : sc.kind.Binds kind) :
    Leads (bindVariable j n ty kind span) s (fun v s' => Frame s s' none none (some j) ∧ s'.Sound ∧
      sc.vars[n]? = none ∧ s.program.varAt? v = none ∧
      s'.program.varAt? v = some ⟨n, ty, kind, none, span⟩ ∧
      s'.program.scopeAt? j = some { sc with vars := sc.vars.insert n v } ∧
      s'.registry = s.registry)
      (Refused (sc.vars[n]? = none)) := by
  -- first the variable is added, then it is bound
  have hs₁ := hs.pushVar hok
  have hf₁ := Frame.pushVar s ⟨n, ty, kind, none, span⟩
  have hj₁ : (s.pushVar ⟨n, ty, kind, none, span⟩).program.scopeAt? j = some sc := hj
  have hv : (s.pushVar ⟨n, ty, kind, none, span⟩).program.varAt? s.nextVar =
      some ⟨n, ty, kind, none, span⟩ := (varAt?_pushVar _ _).trans (if_pos rfl)
  unfold bindVariable
  show Leads (updateScopes _ >>= fun _ => pure s.nextVar) (s.pushVar _) _ _
  refine Leads.seq (Q := fun _ s' => s' =
      (s.pushVar ⟨n, ty, kind, none, span⟩).setScope j
        { sc with vars := sc.vars.insert n s.nextVar } ∧ sc.vars[n]? = none)
    (E := Refused (sc.vars[n]? = none)) ?_ ?_
  · refine updateScopes_leads ((ScopeTree.declareVariable_leads hj₁ s.nextVar).post ?_)
    rintro _ _ ⟨rfl, hn⟩
    exact ⟨rfl, hn⟩
  · rintro _ _ ⟨rfl, hn⟩
    have hgr : sc.Grows { sc with vars := sc.vars.insert n s.nextVar } :=
      ⟨rfl, rfl, fun _ _ h => getElem?_insert_of_some hn h, fun _ _ h => h, fun _ _ h => h⟩
    have hsok := hs₁.scopes j sc hj₁
    refine Leads.pure ⟨(hf₁.weaken (.inl rfl) (.inl rfl) (.inl rfl)).trans (Frame.setScope hj₁ hgr),
      hs₁.setScope hj₁ hgr { hsok with var := ?_ }, hn, varAt?_nextVar s, hv,
      (scopeAt?_setScope hj₁ _ j).trans (if_pos rfl), rfl⟩
    intro n' v' hv'
    rw [getElem?_insert_eq] at hv'
    split at hv'
    · cases hv'
      exact ⟨_, hv, hb⟩
    · exact hsok.var n' v' hv'

end Resolve

open Resolver Resolve

/-- **A written type is resolved if and only if it denotes a type**, and then to that type. -/
theorem TypeName.resolve_leads {u : CompilationUnit} {d : Dialect} {j : ScopeId} :
    ∀ (t : TypeName) {s : Resolver} {sc : Scope}, s.Sound → s.KnowsClasses u →
      s.program.scopeAt? j = some sc →
      Leads (t.resolve d j) s (fun id s' => Frame s s' none none none ∧ s'.Sound ∧
        ∃ T, s'.registry.meaning? id = some T ∧ t.denoted? d u = some T)
        (Refused (t.denoted? d u).isSome) := by
  intro t
  induction t with
  | named n span =>
    intro s sc hs hu hj
    have hfind := hu.findType? hs hj d n span
    refine ask_leads ?_
    unfold typeNamed
    cases hty : s.scopes.findType? d.catalog j n with
    | none =>
      rw [hty, Option.bind_none] at hfind
      exact ⟨rfl, by rw [← hfind]; nofun⟩
    | some ty =>
      obtain ⟨T, hT⟩ := hs.meaning?_isSome (hs.has_of_findType? hj hty)
      rw [hty, Option.bind_some, hT] at hfind
      exact ⟨.refl s none none none, hs, T, hT, hfind.symm⟩
  | pointer t _ ih =>
    intro s sc hs hu hj
    refine (ih hs hu hj).seq_imp (fun f h => h.imp fun h => by simpa [denoted?] using h) ?_
    rintro ty s₁ ⟨hf₁, hs₁, T, hT, ht⟩
    refine (intern_leads hs₁ rfl hT).post ?_
    rintro id s₂ ⟨hf₂, hs₂, hk, hT₂⟩
    refine ⟨hf₁.trans hf₂, hs₂, .pointer T, Registry.meaning?_pointer hs₂.registry hk hT₂, ?_⟩
    rw [denoted?, ht]; rfl
  | array t _ ih =>
    intro s sc hs hu hj
    refine (ih hs hu hj).seq_imp (fun f h => h.imp fun h => by simpa [denoted?] using h) ?_
    rintro ty s₁ ⟨hf₁, hs₁, T, hT, ht⟩
    refine (intern_leads hs₁ rfl hT).post ?_
    rintro id s₂ ⟨hf₂, hs₂, hk, hT₂⟩
    refine ⟨hf₁.trans hf₂, hs₂, .array T, Registry.meaning?_array hs₂.registry hk hT₂, ?_⟩
    rw [denoted?, ht]; rfl

end ClassLang
