import ClassLang.Proofs.Resolution

/-!
# More conversions

A table of conversions that permits more resolves every program that a smaller one resolves, and to
the same types, the same program and the same trees. What could stand in the way is an operator: it
is selected if it is the only one that takes the right operand after a conversion, so a further
conversion might make the choice ambiguous. It never does, because no type has two members under one
symbol that take one argument (`Resolver.Unambiguous`).

* `Persists I m m'`: what `m` answers, `m'` answers too, in every state with `I`.
* `choose_of_le`: the choice of an operator.
* `Expr.resolve_persists`, `Stmt.resolve_persists`: expressions and statements.
* `resolve_of_le`: whole units.
-/

namespace ClassLang

open Resolver Resolve

/-- A table is below another one if that permits all that it permits. -/
instance : LE Conversions where
  le t t' := (∀ a b, t.widens a b = true → t'.widens a b = true) ∧
    (t.literals = true → t'.literals = true)

/-! ## Answers that persist -/

section Persists

variable {ε σ α β : Type} {I : σ → Prop} {m m' : EStateM ε σ α} {k k' : α → EStateM ε σ β}

/-- **What `m` answers in a state with `I`, `m'` answers too**, and both leave the same state, which
has `I` again. -/
def Persists (I : σ → Prop) (m m' : EStateM ε σ α) : Prop :=
  ∀ s a s', I s → m s = .ok a s' → m' s = .ok a s' ∧ I s'

namespace Persists

theorem pure (a : α) : Persists I (Pure.pure a : EStateM ε σ α) (Pure.pure a) := by
  intro s b s' hI h
  refine ⟨h, ?_⟩
  cases h
  exact hI

/-- A run that fails has no answer to keep. -/
theorem throw (f : ε) : Persists I (MonadExcept.throw f : EStateM ε σ α) m' := by
  intro s a s' _ h
  cases h

theorem seq (h : Persists I m m') (hk : ∀ a, Persists I (k a) (k' a)) :
    Persists I (m >>= k) (m' >>= k') := by
  intro s b s'' hI hrun
  simp only [bind, EStateM.bind] at hrun ⊢
  cases hm : m s with
  | error f s' => rw [hm] at hrun; cases hrun
  | ok a s' =>
    rw [hm] at hrun
    obtain ⟨hm', hI'⟩ := h s a s' hI hm
    rw [hm']
    exact hk a s' b s'' hI' hrun

theorem map (g : α → β) (h : Persists I m m') : Persists I (g <$> m) (g <$> m') := by
  intro s b s'' hI hrun
  simp only [Functor.map, EStateM.map] at hrun ⊢
  cases hm : m s with
  | error f s' => rw [hm] at hrun; cases hrun
  | ok a s' =>
    rw [hm] at hrun
    cases hrun
    obtain ⟨hm', hI'⟩ := h s a s'' hI hm
    rw [hm']
    exact ⟨rfl, hI'⟩

/-- A step that keeps `I` persists as it is. -/
theorem of_leads (h : ∀ s, I s → Gives m s (fun _ s' => I s')) : Persists I m m := by
  intro s a s' hI hrun
  exact ⟨hrun, (h s hI).of_ok hrun⟩

/-- What persists after a first step that leads to `I`. -/
theorem after {s s' : σ} {b : β} {E : ε → Prop} (hm : Leads m s (fun _ => I) E)
    (hk : ∀ a, Persists I (k a) (k' a)) (h : (m >>= k) s = .ok b s') :
    (m >>= k') s = .ok b s' := by
  unfold Leads at hm
  simp only [bind, EStateM.bind] at h ⊢
  cases hrun : m s with
  | error f s₁ => rw [hrun] at h; cases h
  | ok a s₁ =>
    rw [hrun] at h hm
    exact (hk a s₁ b s' hm h).1

theorem forM {γ : Type} {f f' : γ → EStateM ε σ PUnit} (h : ∀ a, Persists I (f a) (f' a))
    (l : List γ) : Persists I (l.forM f) (l.forM f') := by
  induction l with
  | nil => exact pure _
  | cons a l ih => exact (h a).seq fun _ => ih

end Persists

variable {J : Resolver → Prop}

/-- A question to the state persists if its answers do. -/
theorem Resolve.ask_persists {f f' : Resolver → Except Diagnostic α}
    (h : ∀ s a, J s → f s = .ok a → f' s = .ok a) : Persists J (ask f) (ask f') := by
  intro s a s' hJ hrun
  cases hf : f s with
  | error d => rw [ask_of_error hf] at hrun; cases hrun
  | ok b =>
    rw [ask_of_ok hf] at hrun
    cases hrun
    exact ⟨ask_of_ok (h s a hJ hf), hJ⟩

theorem Resolve.ask_persists_self (f : Resolver → Except Diagnostic α) :
    Persists J (ask f) (ask f) := ask_persists fun _ _ _ h => h

end Persists

/-! ## Conversions and operators -/

/-- How many arguments a method takes. -/
def Program.arity? (p : Program) (m : MethodId) : Option Nat :=
  (p.methodAt? m).map fun g => g.arguments.length

theorem Program.arity?_of_parameterTypes {p : Program} {m : MethodId} {tys : List TypeId}
    (h : p.parameterTypes m = .ok tys) : p.arity? m = some tys.length := by
  obtain ⟨g, hg, hargs⟩ := exists_of_bind_eq_ok h
  have hlen : ∀ (vs : List VariableId) (tys : List TypeId),
      (vs.mapM fun v => do return (← p.getVariable v).ty : Except Diagnostic (List TypeId)) =
        .ok tys → vs.length = tys.length := by
    intro vs
    induction vs with
    | nil => intro tys h; cases h; rfl
    | cons v vs ih =>
      intro tys h
      rw [List.mapM_cons] at h
      obtain ⟨ty, -, h⟩ := exists_of_bind_eq_ok h
      obtain ⟨rest, hrest, h⟩ := exists_of_bind_eq_ok h
      cases h
      rw [List.length_cons, List.length_cons, ih rest hrest]
  unfold getMethod at hg
  unfold arity? methodAt?
  cases hm : p.methods[m.index]? with
  | none => rw [hm] at hg; cases hg
  | some g' =>
    rw [hm] at hg
    cases hg
    rw [Option.map_some, hlen _ _ hargs]

namespace Resolver

variable {s s' : Resolver} {c : Catalog} {t t' : Conversions}

/-- **No operator is ambiguous**: among the members that a type has under the symbol of an operator,
at most one takes one argument. -/
def Unambiguous (s : Resolver) : Prop :=
  ∀ id e (op : BinaryOp), s.registry.entry? id = some e →
    ((e.candidates op.symbol).filter fun m => s.program.arity? m = some 1).length ≤ 1

theorem Unambiguous.mono (h : s.Unambiguous)
    (types : ∀ id e, s'.registry.entry? id = some e →
      s.registry.entry? id = some e ∨ e.members = [])
    (methods : ∀ m, s'.program.arity? m = s.program.arity? m) : s'.Unambiguous := by
  intro id e op he
  rcases types id e he with he | hnone
  · simp only [methods]
    exact h id e op he
  · unfold TypeEntry.candidates
    rw [hnone]
    exact Nat.zero_le 1

end Resolver

section Tables

variable {c : Catalog} {t t' : Conversions} (hle : t ≤ t')

include hle

/-- What converts still does under more conversions. -/
theorem Registry.converts_of_le {r : Registry} {e : TypedExpr} {target : TypeId}
    (h : r.converts t e target = true) : r.converts t' e target = true := by
  have hwidens : r.widens t e.ty target = true → r.widens t' e.ty target = true := by
    unfold Registry.widens
    cases r.nativeOf? e.ty <;> cases r.nativeOf? target
    case some.some a b => exact hle.1 a b
    all_goals exact fun h => h
  have hliteral : ∀ value, r.literalConverts t value target = true →
      r.literalConverts t' value target = true := by
    intro value
    unfold Registry.literalConverts Conversions.permitsLiteral
    cases r.nativeOf? target with
    | none => exact fun h => h
    | some k =>
      simp only [Bool.and_eq_true]
      exact fun h => ⟨⟨hle.2 h.1.1, h.1.2⟩, h.2⟩
  unfold Registry.converts at h ⊢
  rw [Bool.or_eq_true] at h ⊢
  refine h.imp (fun h => ?_) hwidens
  cases e
  case int => exact hliteral _ h
  all_goals exact h

namespace Resolver

variable {s : Resolver}

theorem coerce_of_le {e e' : TypedExpr} {target : TypeId}
    (h : s.coerce ⟨c, t⟩ e target = .ok e') : s.coerce ⟨c, t'⟩ e target = .ok e' := by
  unfold coerce at h ⊢
  split at h
  · rename_i heq
    rw [if_pos heq]
    exact h
  · rename_i hne
    rw [if_neg hne]
    split at h
    · rename_i hc
      rw [if_pos (Registry.converts_of_le hle hc)]
      exact h
    · cases h

omit hle in
/-- Where no candidate takes one argument, none is selected. -/
theorem choose_eq_none {d : Dialect} {right : TypedExpr} {ms : List MethodId} {choice : Choice}
    (hms : ∀ m ∈ ms, s.program.arity? m ≠ some 1) (h : s.choose d right ms [] = .ok choice) :
    choice = .none := by
  induction ms with
  | nil => cases h; rfl
  | cons m ms ih =>
    have ih := ih fun m' hm' => hms m' (List.mem_cons_of_mem m hm')
    unfold choose at h
    obtain ⟨tys, htys, h⟩ := exists_of_bind_eq_ok h
    have harity := Program.arity?_of_parameterTypes htys
    split at h
    · exact absurd harity (hms m List.mem_cons_self)
    · exact ih h

/-- **The operator that is selected** stays selected, if no more than one takes one argument. -/
theorem choose_of_le {right : TypedExpr} {ms : List MethodId} {found : List (MethodId × TypeId)}
    {choice : Choice}
    (hms : (ms.filter fun m => s.program.arity? m = some 1).length + found.length ≤ 1)
    (h : s.choose ⟨c, t⟩ right ms found = .ok choice) (hsome : choice ≠ .none) :
    s.choose ⟨c, t'⟩ right ms found = .ok choice := by
  induction ms generalizing found with
  | nil =>
    cases found with
    | nil => exact h
    | cons q found =>
      cases found with
      | nil => exact h
      | cons q' found => exact h
  | cons m ms ih =>
    have hrun := h
    unfold choose at hrun
    obtain ⟨tys, htys, -⟩ := exists_of_bind_eq_ok hrun
    have harity := Program.arity?_of_parameterTypes htys
    by_cases hlen : tys.length = 1
    · -- this is the one that takes one argument, so nothing was found before and nothing will be
      rw [List.filter_cons_of_pos (by simp [harity, hlen]), List.length_cons] at hms
      obtain rfl : found = [] := List.eq_nil_of_length_eq_zero (by omega)
      have hrest : (ms.filter fun m => s.program.arity? m = some 1) = [] :=
        List.eq_nil_of_length_eq_zero (by omega)
      obtain ⟨p, rfl⟩ := List.length_eq_one_iff.1 hlen
      rw [choose_cons_unary htys] at h ⊢
      split at h
      · rename_i hp
        rw [if_pos hp]
        exact h
      · rename_i hp
        rw [if_neg hp]
        split at h
        · rename_i hc
          rw [if_pos (Registry.converts_of_le hle hc)]
          exact ih (by rw [hrest]; exact Nat.le_refl 1) h
        · have hnone := choose_eq_none (fun m' hm' h₁ => ?_) h
          · exact absurd hnone hsome
          · have hmem : m' ∈ ms.filter fun m => s.program.arity? m = some 1 :=
              List.mem_filter.2 ⟨hm', by simp [h₁]⟩
            rw [hrest] at hmem
            cases hmem
    · rw [choose_cons_other htys hlen] at h ⊢
      rw [List.filter_cons_of_neg (by simp [harity, hlen])] at hms
      exact ih hms h

/-- The operator that is found stays the same under more conversions. -/
theorem binary_of_le (hs : s.Unambiguous) {op : BinaryOp} {left right e : TypedExpr} {span : Span}
    (h : s.binary ⟨c, t⟩ op left right span = .ok e) :
    s.binary ⟨c, t'⟩ op left right span = .ok e := by
  unfold binary at h ⊢
  obtain ⟨ms, hms, h⟩ := exists_of_bind_eq_ok h
  obtain ⟨choice, hchoice, h⟩ := exists_of_bind_eq_ok h
  rw [hms]
  -- only one member takes a right operand
  have hone : (ms.filter fun m => s.program.arity? m = some 1).length ≤ 1 := by
    unfold candidates at hms
    obtain ⟨entry, hentry, heq⟩ := exists_of_bind_eq_ok hms
    cases heq
    unfold Registry.entry at hentry
    cases he : s.registry.entry? left.ty with
    | none => rw [he] at hentry; cases hentry
    | some entry' =>
      rw [he] at hentry
      cases hentry
      exact hs left.ty entry op he
  cases choice with
  | none => cases h
  | exact m =>
    have hchoice' : s.choose ⟨c, t'⟩ right ms [] = _ :=
      choose_of_le hle hone hchoice fun heq => Choice.noConfusion heq
    show (s.choose ⟨c, t'⟩ right ms [] >>= _) = _
    rw [hchoice']
    exact h
  | converted m parameter =>
    have hchoice' : s.choose ⟨c, t'⟩ right ms [] = _ :=
      choose_of_le hle hone hchoice fun heq => Choice.noConfusion heq
    show (s.choose ⟨c, t'⟩ right ms [] >>= _) = _
    rw [hchoice']
    obtain ⟨right', hright, h⟩ := exists_of_bind_eq_ok h
    show (s.coerce ⟨c, t'⟩ right parameter >>= _) = _
    rw [coerce_of_le hle hright]
    exact h

end Resolver

end Tables

/-! ## Steps that change the state -/

namespace Resolve

theorem intern_keeps_unambiguous (kind : TypeKind) :
    Persists Resolver.Unambiguous (intern kind) (intern kind) := by
  refine Persists.of_leads fun s hs => ?_
  refine hs.mono (fun id e he => ?_) fun _ => rfl
  exact (Registry.entry?_of_intern he).imp (fun he => he) fun h => by rw [h.2]

theorem pushScope_keeps_unambiguous (kind : ScopeKind) (parent : ScopeId) :
    Persists Resolver.Unambiguous (pushScope kind parent) (pushScope kind parent) :=
  Persists.of_leads fun _ hs => hs.mono (fun _ _ he => .inl he) fun _ => rfl

theorem bindVariable_keeps_unambiguous (j : ScopeId) (n : String) (ty : TypeId)
    (kind : VariableKind) (span : Span) :
    Persists Resolver.Unambiguous (bindVariable j n ty kind span)
      (bindVariable j n ty kind span) := by
  unfold bindVariable
  refine Persists.seq (Persists.of_leads fun s hs => ?_) fun v => ?_
  · exact hs.mono (fun _ _ he => .inl he) fun _ => rfl
  · refine Persists.seq (Persists.of_leads fun s hs => ?_) fun _ => Persists.pure v
    exact updateScopes_leads (Leads.of_forall fun _ _ => hs.mono (fun _ _ he => .inl he) fun _ => rfl)

end Resolve

/-! ## Expressions -/

section Bodies

variable {c : Catalog} {t t' : Conversions} {j : ScopeId}

/-- A written type is resolved by the catalog alone. -/
theorem TypeName.resolve_catalog (t t' : Conversions) (type : TypeName) :
    type.resolve ⟨c, t⟩ j = type.resolve ⟨c, t'⟩ j := by
  induction type with
  | named n span => rfl
  | pointer target span ih | array element span ih => rw [TypeName.resolve, TypeName.resolve, ih]

theorem TypeName.resolve_persists (type : TypeName) :
    Persists Resolver.Unambiguous (type.resolve ⟨c, t⟩ j) (type.resolve ⟨c, t'⟩ j) := by
  rw [type.resolve_catalog t t']
  induction type with
  | named n span => exact ask_persists_self _
  | pointer target span ih | array element span ih =>
    exact ih.seq fun ty => intern_keeps_unambiguous _

variable (hle : t ≤ t')

include hle

theorem Resolve.coerce_persists (e : TypedExpr) (target : TypeId) :
    Persists Resolver.Unambiguous (ask fun s => s.coerce ⟨c, t⟩ e target)
      (ask fun s => s.coerce ⟨c, t'⟩ e target) :=
  ask_persists fun _ _ _ h => coerce_of_le hle h

mutual

/-- **What an expression is resolved to** under fewer conversions, it is resolved to under more. -/
theorem Expr.resolve_persists (e : Expr) :
    Persists Resolver.Unambiguous (e.resolve ⟨c, t⟩ j) (e.resolve ⟨c, t'⟩ j) := by
  match e with
  | .number n sp =>
    rw [Expr.resolve, Expr.resolve]
    split
    · exact Persists.pure _
    · exact Persists.throw _
  | .boolean b sp =>
    rw [Expr.resolve, Expr.resolve]
    exact Persists.pure _
  | .symbol n sp =>
    rw [Expr.resolve, Expr.resolve]
    exact ask_persists_self _
  | .this sp =>
    rw [Expr.resolve, Expr.resolve]
    exact ask_persists_self _
  | .call n args sp =>
    rw [Expr.resolve, Expr.resolve]
    refine (ask_persists_self _).seq fun q => (ask_persists_self _).seq fun sig => ?_
    exact (Expr.resolveArgs_persists args sig.1).seq fun ts => Persists.pure _
  | .send e n args sp =>
    rw [Expr.resolve, Expr.resolve]
    refine (Expr.resolve_persists e).seq fun target => ?_
    refine (ask_persists_self _).seq fun m => (ask_persists_self _).seq fun sig => ?_
    exact (Expr.resolveArgs_persists args sig.1).seq fun ts => Persists.pure _
  | .member e n sp =>
    rw [Expr.resolve, Expr.resolve]
    exact (Expr.resolve_persists e).seq fun target => ask_persists_self _
  | .binary op a b sp =>
    rw [Expr.resolve, Expr.resolve]
    refine (Expr.resolve_persists a).seq fun left => (Expr.resolve_persists b).seq fun right => ?_
    -- no operator is ambiguous, so more conversions leave the choice as it is
    exact ask_persists fun _ _ hs h => binary_of_le hle hs h
  | .unary op e sp =>
    by_cases hn : op.Folds e
    · match op, e, hn with
      | .negate, .number n sp', _ =>
        rw [Expr.resolve, Expr.resolve]
        split
        · exact Persists.pure _
        · exact Persists.throw _
    · rw [Expr.resolve_unary hn, Expr.resolve_unary hn]
      exact (Expr.resolve_persists e).seq fun operand => ask_persists_self _
  | .addressOf e sp =>
    rw [Expr.resolve, Expr.resolve]
    refine (Expr.resolve_persists e).seq fun operand => ?_
    split
    · exact (intern_keeps_unambiguous _).seq fun ty => Persists.pure _
    · exact ask_persists_self _
  | .arrayNew type e sp =>
    rw [Expr.resolve, Expr.resolve]
    refine type.resolve_persists.seq fun element => (Expr.resolve_persists e).seq fun size => ?_
    refine (coerce_persists hle size _).seq fun size' => ?_
    exact (intern_keeps_unambiguous _).seq fun ty => Persists.pure _
  | .cast e type sp =>
    rw [Expr.resolve, Expr.resolve]
    refine (Expr.resolve_persists e).seq fun value => ?_
    exact type.resolve_persists.seq fun ty => Persists.pure _
  | .index a i sp =>
    rw [Expr.resolve, Expr.resolve]
    refine (Expr.resolve_persists a).seq fun array => (ask_persists_self _).seq fun element => ?_
    refine (Expr.resolve_persists i).seq fun position => ?_
    exact (coerce_persists hle position _).seq fun position' => Persists.pure _

/-- What arguments are resolved to. -/
theorem Expr.resolveArgs_persists (es : List Expr) (parameters : List TypeId) :
    Persists Resolver.Unambiguous (Expr.resolveArgs ⟨c, t⟩ j es parameters)
      (Expr.resolveArgs ⟨c, t'⟩ j es parameters) := by
  match es, parameters with
  | [], _ =>
    rw [Expr.resolveArgs, Expr.resolveArgs]
    · exact Persists.pure _
    · nofun
    · nofun
  | _ :: _, [] =>
    rw [Expr.resolveArgs, Expr.resolveArgs]
    · exact Persists.pure _
    · nofun
    · nofun
  | e :: es, P :: parameters =>
    rw [Expr.resolveArgs, Expr.resolveArgs]
    refine (Expr.resolve_persists e).seq fun arg => (coerce_persists hle arg P).seq fun arg' => ?_
    exact (Expr.resolveArgs_persists es parameters).seq fun rest => Persists.pure _

end

omit hle

/-! ## Statements -/

theorem Expr.resolveCondition_persists (hle : t ≤ t') (e : Expr) :
    Persists Resolver.Unambiguous (e.resolveCondition ⟨c, t⟩ j) (e.resolveCondition ⟨c, t'⟩ j) :=
  (e.resolve_persists hle).seq fun _ => ask_persists_self _

theorem Expr.resolveOptional_persists (hle : t ≤ t') (o : Option Expr) :
    Persists Resolver.Unambiguous (Expr.resolveOptional ⟨c, t⟩ j o)
      (Expr.resolveOptional ⟨c, t'⟩ j o) := by
  cases o with
  | none => exact Persists.pure _
  | some e => exact (e.resolve_persists hle).map some

mutual

/-- **What a statement is resolved to** under fewer conversions, it is resolved to under more. -/
theorem Stmt.resolve_persists (hle : t ≤ t') (j : ScopeId) (st : Stmt) :
    Persists Resolver.Unambiguous (st.resolve ⟨c, t⟩ j) (st.resolve ⟨c, t'⟩ j) := by
  cases st with rw [Stmt.resolve, Stmt.resolve]
  | expression e sp =>
    exact (e.resolve_persists hle).seq fun call => (ask_persists_self _).map some
  | assignment target value sp =>
    refine (target.resolve_persists hle).seq fun place => ?_
    exact (value.resolve_persists hle).seq fun e => (ask_persists_self _).map some
  | ret value sp =>
    refine (ask_persists_self _).seq fun method => ?_
    exact (Expr.resolveOptional_persists hle value).seq fun e => (ask_persists_self _).map some
  | varDecl n type value sp =>
    refine type.resolve_persists.seq fun ty => ?_
    refine (Expr.resolveOptional_persists hle value).seq fun e => ?_
    refine (bindVariable_keeps_unambiguous j n ty .localVar sp).seq fun id => ?_
    cases e with
    | none => exact Persists.pure _
    | some e => exact (ask_persists_self _).map some
  | ifElse cond yes no sp =>
    refine (cond.resolveCondition_persists hle).seq fun e => ?_
    refine (Block.resolveNested_persists hle j yes).seq fun b => ?_
    exact (Block.resolveNested_persists hle j no).seq fun b' => Persists.pure _
  | ifThen cond yes sp =>
    refine (cond.resolveCondition_persists hle).seq fun e => ?_
    refine (Block.resolveNested_persists hle j yes).seq fun b => ?_
    exact (pushScope_keeps_unambiguous .block j).seq fun l => Persists.pure _
  | whileDo cond body sp =>
    refine (cond.resolveCondition_persists hle).seq fun e => ?_
    exact (Block.resolveNested_persists hle j body).seq fun b => Persists.pure _
  | nested block =>
    exact (Block.resolveNested_persists hle j block).seq fun b => Persists.pure _

/-- What statements are resolved to. -/
theorem Stmt.resolveAll_persists (hle : t ≤ t') (j : ScopeId) (body : List Stmt) :
    Persists Resolver.Unambiguous (Stmt.resolveAll ⟨c, t⟩ j body)
      (Stmt.resolveAll ⟨c, t'⟩ j body) := by
  match body with
  | [] =>
    rw [Stmt.resolveAll, Stmt.resolveAll]
    exact Persists.pure _
  | st :: rest =>
    rw [Stmt.resolveAll, Stmt.resolveAll]
    refine (Stmt.resolve_persists hle j st).seq fun first => ?_
    exact (Stmt.resolveAll_persists hle j rest).seq fun ts => Persists.pure _

/-- What a block inside another one is resolved to. -/
theorem Block.resolveNested_persists (hle : t ≤ t') (p : ScopeId) (b : Block) :
    Persists Resolver.Unambiguous (b.resolveNested ⟨c, t⟩ p) (b.resolveNested ⟨c, t'⟩ p) := by
  match b with
  | .mk body sp =>
    rw [Block.resolveNested, Block.resolveNested]
    refine (pushScope_keeps_unambiguous .block p).seq fun l => ?_
    exact (Stmt.resolveAll_persists hle l body).seq fun ts => Persists.pure _

end

theorem Block.resolve_persists (hle : t ≤ t') (j : ScopeId) (b : Block) :
    Persists Resolver.Unambiguous (b.resolve ⟨c, t⟩ j) (b.resolve ⟨c, t'⟩ j) := by
  obtain ⟨body, sp⟩ := b
  rw [Block.resolve, Block.resolve]
  exact (Stmt.resolveAll_persists hle j body).seq fun ts => Persists.pure _

/-! ## Units -/

/-- **A body that resolves** does so, to the same, under more conversions. -/
theorem Resolve.resolveBody_persists (hle : t ≤ t') (m : MethodId) (decl : MethodDecl) :
    Persists Resolver.Unambiguous (resolveBody ⟨c, t⟩ m decl) (resolveBody ⟨c, t'⟩ m decl) := by
  unfold resolveBody
  cases decl.body with
  | none => exact Persists.pure _
  | some body =>
    refine (ask_persists_self _).seq fun g => ?_
    cases g.scope with
    | none => exact Persists.throw _
    | some j =>
      refine Persists.seq (Persists.of_leads fun s hs => ?_) fun _ => ?_
      · exact hs.mono (fun _ _ he => .inl he) fun _ => rfl
      · refine (body.resolve_persists hle j).seq fun block => Persists.of_leads fun s hs => ?_
        -- a body does not change how many arguments a method takes
        cases hm : s.program.methodAt? m with
        | none =>
          refine updateProgram_leads ?_
          unfold Program.updateMethod Program.getMethod
          unfold Program.methodAt? at hm
          rw [hm]
          exact Yields.error trivial
        | some g =>
          refine updateMethod_leads hm (hs.mono (fun _ _ he => .inl he) fun m' => ?_)
          unfold Program.arity?
          rw [methodAt?_setMethod hm]
          split
          · rename_i heq
            rw [heq, hm]
            rfl
          · rfl

theorem Resolve.resolveBodies_persists (hle : t ≤ t')
    (bodies : List (MethodId × MethodDecl)) :
    Persists Resolver.Unambiguous (resolveBodies ⟨c, t⟩ bodies) (resolveBodies ⟨c, t'⟩ bodies) := by
  unfold resolveBodies
  refine (Persists.forM (fun b => resolveBody_persists hle b.1 b.2) bodies).seq fun _ => ?_
  exact Persists.of_leads fun s hs => hs.mono (fun _ _ he => .inl he) fun _ => rfl

/-- Signatures are resolved by the catalog alone. -/
theorem Resolve.resolveSignature_catalog (t t' : Conversions) (m : MethodId) (decl : MethodDecl) :
    resolveSignature ⟨c, t⟩ m decl = resolveSignature ⟨c, t'⟩ m decl := by
  have result : ∀ j, resolveResult ⟨c, t⟩ j decl.result = resolveResult ⟨c, t'⟩ j decl.result := by
    intro j
    cases decl.result with
    | none => rfl
    | some type => exact type.resolve_catalog t t'
  unfold resolveSignature resolveArgument
  simp only [result, TypeName.resolve_catalog t t']

theorem Resolve.resolveSignatures_catalog (t t' : Conversions) (known : Declarations) :
    resolveSignatures ⟨c, t⟩ known = resolveSignatures ⟨c, t'⟩ known := by
  unfold resolveSignatures resolveClass resolveFields resolveField declareMethod
  simp only [resolveSignature_catalog t t', TypeName.resolve_catalog t t']

end Bodies

/-- The methods that take one argument are those whose signature does. -/
theorem Resolver.length_filter_arity {s : Resolver} {ms : List MethodId} {sigs : List Signature}
    (h : ms.map s.signatureOf? = sigs.map some) :
    (ms.filter fun m => s.program.arity? m = some 1).length =
      (sigs.filterMap Signature.taker?).length := by
  induction forall₂_of_map_eq h with
  | nil => rfl
  | @cons m sig _ _ hm _ ih =>
    have ih := ih (List.cons.inj h).2
    obtain ⟨g, hg, hps, -⟩ := signatureOf?_eq_some_iff.1 hm
    have hlen : g.arguments.length = sig.parameters.length := by
      simpa using congrArg List.length hps
    have harity : s.program.arity? m = some sig.parameters.length := by
      rw [Program.arity?, hg, Option.map_some, hlen]
    rw [List.filter_cons, List.filterMap_cons, harity]
    obtain ⟨ps, r⟩ := sig
    rcases ps with _ | ⟨P, _ | ⟨P', ps⟩⟩
    · exact ih
    · simpa [Signature.taker?] using ih
    · simpa [Signature.taker?] using ih

/-- Before the bodies are resolved, no operator is ambiguous. -/
theorem Resolver.Signed.unambiguous {s : Resolver} {d : Dialect} {u : CompilationUnit}
    {bodies : List (MethodId × MethodDecl)} (h : s.Signed d u bodies) : s.Unambiguous := by
  intro id e op he
  obtain ⟨T, hT⟩ := h.sound.meaning?_isSome (Registry.has_iff_entry.2 ⟨e, he⟩)
  rw [length_filter_arity (h.represents.candidates h.sound hT he op.symbol), Ty.takers_candidates]
  cases T.binary? d u op with
  | none => exact Nat.zero_le 1
  | some q => exact Nat.le_refl 1

/-- A run that succeeds under fewer conversions succeeds under more, and leaves the same state. -/
theorem Resolve.resolveUnit_of_le {c : Catalog} {t t' : Conversions} (hle : t ≤ t')
    {u : CompilationUnit} {s₀ s : Resolver} {a : Unit} (h₀ : s₀ = .initial)
    (h : resolveUnit ⟨c, t⟩ u s₀ = .ok a s) : resolveUnit ⟨c, t'⟩ u s₀ = .ok a s := by
  have hsigned : Gives (readSignatures ⟨c, t'⟩ u) s₀ (fun _ s => s.Unambiguous) :=
    (readSignatures_signs _ u h₀).gives (fun _ _ h₃ => h₃.unambiguous)
  -- up to the bodies the two runs are one
  have hsame : readSignatures ⟨c, t⟩ u = readSignatures ⟨c, t'⟩ u := by
    have hdeclare : declare ⟨c, t⟩ u = declare ⟨c, t'⟩ u := rfl
    unfold readSignatures
    simp only [hdeclare, resolveSignatures_catalog t t']
  rw [resolveUnit_eq] at h ⊢
  rw [hsame] at h
  exact Persists.after hsigned (fun bodies => resolveBodies_persists hle bodies) h

/-- **More conversions break no program and change none.** -/
theorem CompilationUnit.resolve_of_le {c : Catalog} {t t' : Conversions} (hle : t ≤ t')
    {u : CompilationUnit} {r : Registry} {p : Program} (h : u.resolve ⟨c, t⟩ = .ok (r, p)) :
    u.resolve ⟨c, t'⟩ = .ok (r, p) := by
  obtain ⟨s₀, h₀⟩ : ∃ s, s = Resolver.initial := ⟨_, rfl⟩
  unfold resolve at h ⊢
  rw [← h₀] at h ⊢
  cases hrun : resolveUnit ⟨c, t⟩ u s₀ with
  | error f s => rw [hrun] at h; cases h
  | ok a s =>
    rw [hrun] at h
    rw [resolveUnit_of_le hle h₀ hrun]
    exact h

/-- A sum whose right operand is converted:
```
add(a: Int16, b: Int8): Int16 do return a + b; end
main() do add(add(1 as Int16, 2 as Int8), 3 as Int8); end
``` -/
def Sum.unit : CompilationUnit :=
  let sp := Span.nowhere
  let int8 := TypeName.named "Int8" sp
  let int16 := TypeName.named "Int16" sp
  let sum : Expr := .call "add" [.cast (.number 1 sp) int16 sp, .cast (.number 2 sp) int8 sp] sp
  ⟨[.ofFunction ⟨"add", [⟨"a", int16, sp⟩, ⟨"b", int8, sp⟩], some int16,
      some (.mk [.ret (some (.binary .add (.symbol "a" sp) (.symbol "b" sp) sp)) sp] sp), sp⟩,
    .ofFunction ⟨"main", [], none, some (.mk [.expression
      (.call "add" [sum, .cast (.number 3 sp) int8 sp] sp) sp] sp), sp⟩], sp⟩

/-- The one conversion that the sum needs. -/
def Sum.conversions : Conversions := Conversions.exact.allow .int8 .int16

set_option maxRecDepth 100000 in
theorem Sum.resolve_isOk : (Sum.unit.resolve ⟨.standard, Sum.conversions⟩).isOk = true := by
  decide +kernel

theorem Sum.resolves_the_same : Sum.conversions ≤ Conversions.standard ∧
    Sum.conversions ≠ Conversions.standard ∧
    ∃ r p, Sum.unit.resolve ⟨.standard, Sum.conversions⟩ = .ok (r, p) ∧
      Sum.unit.resolve .standard = .ok (r, p) := by
  have hle : Sum.conversions ≤ Conversions.standard := by
    refine ⟨fun a b => ?_, nofun⟩
    cases a <;> cases b <;> decide
  obtain ⟨⟨r, p⟩, h⟩ := exists_ok Sum.resolve_isOk
  exact ⟨hle, fun heq => absurd (congrArg Conversions.literals heq) (by decide), r, p, h,
    CompilationUnit.resolve_of_le hle h⟩

end ClassLang
