import ClassLang.Proofs.Operators

/-!
# Which operator is selected

An operator between two operands is looked for among the members of the left operand's type. One
pass over them stops at the first that takes the right operand as it is, and gathers those that take
it after a conversion. What it selects can be said without the pass, and depends on the order of
the members only if several take the operand as it is.

* `choose_of_exact`, `choose_of_converted`, `choose_of_none`: the three outcomes of the pass.
* `Resolver.AgreesExceptMembers`: states that differ in the members of types only.
* `Resolver.binary_selects`: **the operator that is selected**, for any operands, members and
  conversions, and **the order of the members does not matter**.
-/

namespace ClassLang

open Resolve

/-- The element of a list that has exactly one. -/
def only? {α : Type} : List α → Option α
  | [a] => some a
  | _ => none

namespace Program

/-- The method is there, and so are its parameters. -/
def Declared (p : Program) (m : MethodId) : Prop :=
  ∃ g tys, p.methodAt? m = some g ∧ p.typesOf? g.arguments = some tys

/-- The type of the parameter of a method that has exactly one. -/
def operandOf? (p : Program) (m : MethodId) : Option TypeId := do
  only? (← p.typesOf? (← p.methodAt? m).arguments)

end Program

namespace Resolver

variable {s s' : Resolver} {d : Dialect} {right : TypedExpr} {ms ms' : List MethodId} {m : MethodId}

/-- Whether a method takes an operand as it is. -/
def takesAsIs (s : Resolver) (right : TypedExpr) (m : MethodId) : Bool :=
  s.program.operandOf? m = some right.ty

/-- Whether a method takes an operand after a conversion. -/
def takesConverted (s : Resolver) (d : Dialect) (right : TypedExpr) (m : MethodId) : Bool :=
  (s.program.operandOf? m).any fun ty => s.registry.converts d.conversions right ty

/-- States that differ in the members of types only, and in the method they are in. -/
structure AgreesExceptMembers (s s' : Resolver) : Prop where
  program : s'.program = s.program
  kinds : ∀ ty, s'.registry.kind? ty = s.registry.kind? ty
  classNames : s'.registry.classNames = s.registry.classNames

/-! ## The three outcomes of the pass -/

theorem operandOf?_eq {g : Method} {tys : List TypeId} (hg : s.program.methodAt? m = some g)
    (htys : s.program.typesOf? g.arguments = some tys) :
    s.program.operandOf? m = only? tys := by
  simp only [Program.operandOf?, hg, htys, Option.bind_eq_bind, Option.bind_some]

/-- The members with one parameter, one after the other. -/
theorem takers_cons (hm : s.program.Declared m) :
    s.takers (m :: ms) =
      ((s.program.operandOf? m).map fun ty => (m, ty)).toList ++ s.takers ms := by
  obtain ⟨g, tys, hg, htys⟩ := hm
  unfold takers
  rw [List.filterMap_cons, parameterTypes_eq hg htys, operandOf?_eq hg htys]
  cases tys with
  | nil => rfl
  | cons ty tys => cases tys <;> rfl

theorem operandOf?_of_mem_takers {ty : TypeId} (hms : ∀ m ∈ ms, s.program.Declared m)
    (h : (m, ty) ∈ s.takers ms) : s.program.operandOf? m = some ty := by
  obtain ⟨hm, hty⟩ := mem_takers h
  obtain ⟨g, tys, hg, htys⟩ := hms m hm
  rw [parameterTypes_eq hg htys] at hty
  cases hty
  exact operandOf?_eq hg htys

/-- The first member that takes the operand as it is, among those with one parameter. -/
theorem find?_takers (hms : ∀ m ∈ ms, s.program.Declared m) :
    ((s.takers ms).find? fun t => t.2 = right.ty) =
      (ms.find? (s.takesAsIs right)).map fun m => (m, right.ty) := by
  induction ms with
  | nil => rfl
  | cons m ms ih =>
    have ih := ih fun m' hm' => hms m' (List.mem_cons_of_mem m hm')
    rw [takers_cons (hms m List.mem_cons_self), List.find?_cons, takesAsIs]
    cases s.program.operandOf? m with
    | none => simpa using ih
    | some ty => by_cases hty : ty = right.ty <;> simp [hty, ih]

/-- The members that take the operand after a conversion, among those with one parameter. -/
theorem filter_takers (hms : ∀ m ∈ ms, s.program.Declared m) :
    ((s.takers ms).filter fun t => s.registry.converts d.conversions right t.2).map Prod.fst =
      ms.filter (s.takesConverted d right) := by
  induction ms with
  | nil => rfl
  | cons m ms ih =>
    have ih := ih fun m' hm' => hms m' (List.mem_cons_of_mem m hm')
    rw [takers_cons (hms m List.mem_cons_self), List.filter_append, List.map_append, ih,
      List.filter_cons, takesConverted]
    cases s.program.operandOf? m with
    | none => simp
    | some ty =>
      by_cases hty : s.registry.converts d.conversions right ty = true <;> simp [hty]

theorem parameterTypes_of_declared (hms : ∀ m ∈ ms, s.program.Declared m) :
    ∀ m ∈ ms, ∃ tys, s.program.parameterTypes m = .ok tys := by
  intro m hm
  obtain ⟨g, tys, hg, htys⟩ := hms m hm
  exact ⟨tys, parameterTypes_eq hg htys⟩

/-- The pass stops at a member that takes the operand as it is, wherever it stands. -/
theorem choose_of_exact (hms : ∀ m ∈ ms, s.program.Declared m)
    (hfirst : ms.find? (s.takesAsIs right) = some m) :
    s.choose d right ms [] = .ok (.exact m) := by
  rw [choose_eq d right (parameterTypes_of_declared hms), find?_takers hms, hfirst]
  rfl

/-- Without such a member, the pass gives the only one that takes the operand converted. -/
theorem choose_of_converted (hms : ∀ m ∈ ms, s.program.Declared m)
    (hfirst : ms.find? (s.takesAsIs right) = none)
    (honly : ms.filter (s.takesConverted d right) = [m]) :
    ∃ ty, s.program.operandOf? m = some ty ∧ s.choose d right ms [] = .ok (.converted m ty) := by
  rw [← filter_takers hms] at honly
  obtain ⟨⟨m', ty⟩, htaker, rfl⟩ := List.map_eq_singleton_iff.1 honly
  have hmem : (m', ty) ∈ s.takers ms :=
    (List.mem_filter.1 (htaker ▸ List.mem_singleton_self (m', ty))).1
  refine ⟨ty, operandOf?_of_mem_takers hms hmem, ?_⟩
  rw [choose_eq d right (parameterTypes_of_declared hms), find?_takers hms, hfirst,
    List.nil_append, htaker]
  rfl

/-- Without any, or with several that take the operand converted, it gives none. -/
theorem choose_of_none (hms : ∀ m ∈ ms, s.program.Declared m)
    (hfirst : ms.find? (s.takesAsIs right) = none)
    (hmany : (ms.filter (s.takesConverted d right)).length ≠ 1) :
    s.choose d right ms [] = .ok .none := by
  rw [← filter_takers hms, List.length_map] at hmany
  rw [choose_eq d right (parameterTypes_of_declared hms), find?_takers hms, hfirst,
    List.nil_append]
  generalize (s.takers ms).filter (fun t => s.registry.converts d.conversions right t.2) = found
    at hmany ⊢
  cases found with
  | nil => rfl
  | cons t found =>
    cases found with
    | nil => exact absurd rfl hmany
    | cons t' found => rfl

/-! ## The operator between two operands -/

section Binary

variable {op : BinaryOp} {left : TypedExpr} {span : Span} {g : Method}

theorem binary_of_exact (hms : s.candidates left.ty op.symbol = .ok ms)
    (hchoose : s.choose d right ms [] = .ok (.exact m)) (hg : s.program.methodAt? m = some g) :
    s.binary d op left right span = .ok (.binary m left right g.result span) := by
  unfold binary
  simp only [hms, hchoose, Program.getMethod_eq hg, bind, Except.bind, pure, Except.pure]

theorem binary_of_converted {ty : TypeId} {right' : TypedExpr}
    (hms : s.candidates left.ty op.symbol = .ok ms)
    (hchoose : s.choose d right ms [] = .ok (.converted m ty))
    (hright : s.coerce d right ty = .ok right') (hg : s.program.methodAt? m = some g) :
    s.binary d op left right span = .ok (.binary m left right' g.result span) := by
  unfold binary
  simp only [hms, hchoose, hright, Program.getMethod_eq hg, bind, Except.bind, pure, Except.pure]

theorem binary_of_none (hms : s.candidates left.ty op.symbol = .ok ms)
    (hchoose : s.choose d right ms [] = .ok .none) :
    s.binary d op left right span = .error ⟨.operatorNotFound op.symbol (s.typeName left.ty)
      (some (s.typeName right.ty)), span⟩ := by
  unfold binary
  simp only [hms, hchoose, bind, Except.bind, throw, throwThe, MonadExceptOf.throw]

/-- The first member that takes the right operand as it is, is applied to it. -/
theorem binary_exact (hms : s.candidates left.ty op.symbol = .ok ms)
    (hdeclared : ∀ m ∈ ms, s.program.Declared m)
    (hfirst : ms.find? (s.takesAsIs right) = some m) : ∃ g, s.program.methodAt? m = some g ∧
      s.binary d op left right span = .ok (.binary m left right g.result span) := by
  obtain ⟨g, tys, hg, -⟩ := hdeclared m (List.mem_of_find?_eq_some hfirst)
  exact ⟨g, hg, binary_of_exact hms (choose_of_exact hdeclared hfirst) hg⟩

/-- Otherwise, the only member that takes it after a conversion is applied to the cast. -/
theorem binary_converted (hms : s.candidates left.ty op.symbol = .ok ms)
    (hdeclared : ∀ m ∈ ms, s.program.Declared m)
    (hfirst : ms.find? (s.takesAsIs right) = none)
    (honly : ms.filter (s.takesConverted d right) = [m]) :
    ∃ ty g, s.program.operandOf? m = some ty ∧ s.program.methodAt? m = some g ∧
      s.binary d op left right span =
        .ok (.binary m left (.cast right true ty right.span) g.result span) := by
  have hm : m ∈ ms ∧ s.takesConverted d right m = true := by
    rw [← List.mem_filter, honly]
    exact List.mem_singleton_self m
  obtain ⟨g, tys, hg, -⟩ := hdeclared m hm.1
  obtain ⟨ty, hty, hchoose⟩ := choose_of_converted hdeclared hfirst honly
  have hconverts : s.registry.converts d.conversions right ty = true := by
    have htakes := hm.2
    unfold takesConverted at htakes
    rwa [hty] at htakes
  have hne : right.ty ≠ ty := by
    intro h
    have hexact : s.takesAsIs right m = true := by
      rw [takesAsIs, hty, h, decide_eq_true_eq]
    exact List.find?_eq_none.1 hfirst m hm.1 hexact
  have hcoerce : s.coerce d right ty = .ok (.cast right true ty right.span) := by
    rw [coerce, if_neg hne, if_pos hconverts]
  exact ⟨ty, g, hty, hg, binary_of_converted hms hchoose hcoerce hg⟩

/-- Otherwise, there is no such operator. -/
theorem binary_not_found (hms : s.candidates left.ty op.symbol = .ok ms)
    (hdeclared : ∀ m ∈ ms, s.program.Declared m)
    (hfirst : ms.find? (s.takesAsIs right) = none)
    (hmany : (ms.filter (s.takesConverted d right)).length ≠ 1) :
    s.binary d op left right span = .error ⟨.operatorNotFound op.symbol (s.typeName left.ty)
      (some (s.typeName right.ty)), span⟩ :=
  binary_of_none hms (choose_of_none hdeclared hfirst hmany)

end Binary

end Resolver

/-! ## The order of the members -/

namespace Registry

variable {r r' : Registry}

theorem size_eq_of_kinds (h : ∀ ty, r'.kind? ty = r.kind? ty) : r'.types.size = r.types.size := by
  have hbound (q : Registry) (i : Nat) : q.kind? ⟨i⟩ = none ↔ q.types.size ≤ i := by
    rw [kind?, entry?, Option.map_eq_none_iff, Array.getElem?_eq_none_iff]
  have hle : r.types.size ≤ r'.types.size :=
    (hbound r _).1 ((h _).symm.trans ((hbound r' _).2 (Nat.le_refl _)))
  have hge : r'.types.size ≤ r.types.size :=
    (hbound r' _).1 ((h _).trans ((hbound r _).2 (Nat.le_refl _)))
  exact Nat.le_antisymm hge hle

theorem shapeWithin_eq_of_kinds (h : ∀ ty, r'.kind? ty = r.kind? ty) (depth : Nat) (id : TypeId) :
    r'.shapeWithin depth id = r.shapeWithin depth id := by
  induction depth generalizing id with
  | zero => rfl
  | succ depth ih => simp only [shapeWithin, h, ih]

theorem converts_eq_of_kinds (h : ∀ ty, r'.kind? ty = r.kind? ty) (t : Conversions)
    (e : TypedExpr) (target : TypeId) : r'.converts t e target = r.converts t e target := by
  simp only [converts, literalConverts, widens, nativeOf?, h]

end Registry

theorem find?_eq_of_perm {α : Type} {p : α → Bool} {l l' : List α} (hperm : l'.Perm l)
    (hone : (l.filter p).length ≤ 1) : l'.find? p = l.find? p := by
  have hfilter : (l'.filter p).Perm (l.filter p) := hperm.filter p
  rw [← List.head?_filter, ← List.head?_filter]
  generalize l.filter p = k at hfilter hone
  cases k with
  | nil => rw [hfilter.eq_nil]
  | cons a k =>
    cases k with
    | nil => rw [hfilter.eq_singleton]
    | cons b k =>
      simp only [List.length_cons] at hone
      omega

namespace Resolver

variable {s s' : Resolver} {d : Dialect} {right : TypedExpr} {ms ms' : List MethodId} {m : MethodId}

namespace AgreesExceptMembers

theorem takesAsIs (h : s.AgreesExceptMembers s') (right : TypedExpr) :
    s'.takesAsIs right = s.takesAsIs right := by
  funext m
  rw [Resolver.takesAsIs, Resolver.takesAsIs, h.program]

theorem takesConverted (h : s.AgreesExceptMembers s') (d : Dialect) (right : TypedExpr) :
    s'.takesConverted d right = s.takesConverted d right := by
  funext m
  simp only [Resolver.takesConverted, h.program, Registry.converts_eq_of_kinds h.kinds]

theorem typeName (h : s.AgreesExceptMembers s') (ty : TypeId) : s'.typeName ty = s.typeName ty := by
  have hshape : s'.registry.shape ty = s.registry.shape ty := by
    rw [Registry.shape, Registry.shape, Registry.size_eq_of_kinds h.kinds,
      Registry.shapeWithin_eq_of_kinds h.kinds]
  have hnames : s'.registry.className? = s.registry.className? := by
    funext id
    rw [Registry.className?, Registry.className?, h.classNames]
  rw [Resolver.typeName, Resolver.typeName, Registry.typeName, Registry.typeName, hshape, hnames]

end AgreesExceptMembers

/-- **The order of the members does not matter**, unless several take the operand as it is. -/
theorem binary_perm {op : BinaryOp} {left : TypedExpr} {span : Span}
    (hms : s.candidates left.ty op.symbol = .ok ms) (hdeclared : ∀ m ∈ ms, s.program.Declared m)
    (hone : (ms.filter (s.takesAsIs right)).length ≤ 1) (hagree : s.AgreesExceptMembers s')
    (hms' : s'.candidates left.ty op.symbol = .ok ms') (hperm : ms'.Perm ms) :
    s'.binary d op left right span = s.binary d op left right span := by
  have hdeclared' : ∀ m ∈ ms', s'.program.Declared m := by
    intro m hm
    rw [hagree.program]
    exact hdeclared m (hperm.subset hm)
  -- at most one member takes the operand as it is, so order does not matter
  have hfirst' : ms'.find? (s'.takesAsIs right) = ms.find? (s.takesAsIs right) := by
    rw [hagree.takesAsIs, find?_eq_of_perm hperm hone]
  have hfilter : (ms'.filter (s'.takesConverted d right)).Perm
      (ms.filter (s.takesConverted d right)) := by
    rw [hagree.takesConverted]
    exact hperm.filter _
  cases hfirst : ms.find? (s.takesAsIs right) with
  | some m =>
    obtain ⟨g, hg, heq⟩ := binary_exact hms hdeclared hfirst
    obtain ⟨g', hg', heq'⟩ := binary_exact hms' hdeclared' (hfirst'.trans hfirst)
    rw [hagree.program, hg] at hg'
    cases hg'
    rw [heq, heq']
  | none =>
    -- and whether exactly one takes it converted does not depend on order
    by_cases hmany : (ms.filter (s.takesConverted d right)).length = 1
    · obtain ⟨m, honly⟩ := List.length_eq_one_iff.1 hmany
      rw [honly] at hfilter
      obtain ⟨ty, g, hty, hg, heq⟩ := binary_converted hms hdeclared hfirst honly
      obtain ⟨ty', g', hty', hg', heq'⟩ :=
        binary_converted hms' hdeclared' (hfirst'.trans hfirst) hfilter.eq_singleton
      rw [hagree.program, hg] at hg'
      rw [hagree.program, hty] at hty'
      cases hg'
      cases hty'
      rw [heq, heq']
    · have hmany' : (ms'.filter (s'.takesConverted d right)).length ≠ 1 := by
        rwa [hfilter.length_eq]
      rw [binary_not_found hms hdeclared hfirst hmany,
        binary_not_found hms' hdeclared' (hfirst'.trans hfirst) hmany', hagree.typeName,
        hagree.typeName]

/-- **Which operator is selected.** Among the members of the left operand's type that have the
operator's symbol, it is the first that takes the right operand as it is, wherever it stands; if
there is none, the only one that takes the right operand after a conversion, which is then written
as a cast; and otherwise the operator is not found, which names the symbol and both types. If at
most one member takes the right operand as it is, the order of the members does not matter. The
operator between two expressions is selected so for what they are resolved to. -/
theorem binary_selects {op : BinaryOp} {left : TypedExpr} (d : Dialect) (right : TypedExpr)
    (span : Span) (hms : s.candidates left.ty op.symbol = .ok ms)
    (hdeclared : ∀ m ∈ ms, s.program.Declared m) :
    (∀ m, ms.find? (s.takesAsIs right) = some m → ∃ g, s.program.methodAt? m = some g ∧
      s.binary d op left right span = .ok (.binary m left right g.result span)) ∧
    (∀ m, ms.find? (s.takesAsIs right) = none → ms.filter (s.takesConverted d right) = [m] →
      ∃ ty g, s.program.operandOf? m = some ty ∧ s.program.methodAt? m = some g ∧
        s.binary d op left right span =
          .ok (.binary m left (.cast right true ty right.span) g.result span)) ∧
    (ms.find? (s.takesAsIs right) = none → (ms.filter (s.takesConverted d right)).length ≠ 1 →
      s.binary d op left right span = .error ⟨.operatorNotFound op.symbol (s.typeName left.ty)
        (some (s.typeName right.ty)), span⟩) ∧
    ((ms.filter (s.takesAsIs right)).length ≤ 1 → ∀ s' ms', s.AgreesExceptMembers s' →
      s'.candidates left.ty op.symbol = .ok ms' → ms'.Perm ms →
      s'.binary d op left right span = s.binary d op left right span) ∧
    ∀ (scope : ScopeId) (a b : Expr) (s₀ s₁ : Resolver), a.resolve d scope s₀ = .ok left s₁ →
      b.resolve d scope s₁ = .ok right s →
      (Expr.binary op a b span).resolve d scope s₀ =
        ask (fun s => s.binary d op left right span) s := by
  refine ⟨fun m => binary_exact hms hdeclared, fun m => binary_converted hms hdeclared,
    binary_not_found hms hdeclared, fun hone s' ms' => binary_perm hms hdeclared hone, ?_⟩
  intro scope a b s₀ s₁ ha hb
  rw [Expr.resolve, bind_of_ok ha, bind_of_ok hb]

end Resolver

/-! Integers with three operators of one symbol: one for narrow integers, one for integers, and one
without a parameter. -/

namespace Mixed

/-- The three operators, and what they take. -/
def program : Program :=
  let operator (arguments : List VariableId) (result : Native) : Method :=
    ⟨"+", none, result.id, arguments, none, none, none, .operator "+" Native.integer.id, .nowhere⟩
  { Program.initial with
    vars := #[⟨"rhs", Native.int8.id, .argument 0, none, .nowhere⟩,
      ⟨"rhs", Native.integer.id, .argument 0, none, .nowhere⟩]
    methods := #[operator [⟨0⟩] .int8, operator [⟨1⟩] .integer, operator [] .integer] }

/-- A state in which integers have some members. -/
def state (members : List MethodId) : Resolver :=
  let members (k : Native) := if k = .integer then members.map fun m => ("+", m) else []
  ⟨⟨(Native.all.map fun k => ⟨.native k, members k⟩).toArray, Registry.initial.ids, ∅⟩, program,
    none⟩

/-- A number. -/
def five : TypedExpr := .int 5 Native.integer.id .nowhere

theorem kind?_state (members : List MethodId) (ty : TypeId) :
    (state members).registry.kind? ty = Native.all[ty.index]?.map .native := by
  simp only [state, Registry.kind?, Registry.entry?, List.getElem?_toArray, List.getElem?_map,
    Option.map_map, Function.comp_def]

theorem state_agrees (members members' : List MethodId) :
    (state members).AgreesExceptMembers (state members') := by
  refine ⟨rfl, fun ty => ?_, rfl⟩
  rw [kind?_state, kind?_state]

/-- The operator for integers is selected before and after the members change places. -/
theorem operator_selected :
    (state [⟨0⟩, ⟨1⟩, ⟨2⟩]).binary .standard .add five five .nowhere =
      .ok (.binary ⟨1⟩ five five Native.integer.id .nowhere) ∧
    (state [⟨1⟩, ⟨2⟩, ⟨0⟩]).binary .standard .add five five .nowhere =
      .ok (.binary ⟨1⟩ five five Native.integer.id .nowhere) := by
  have hms : (state [⟨0⟩, ⟨1⟩, ⟨2⟩]).candidates five.ty BinaryOp.add.symbol =
      .ok [⟨0⟩, ⟨1⟩, ⟨2⟩] := rfl
  have hdeclared : ∀ m ∈ [⟨0⟩, ⟨1⟩, ⟨2⟩], (state [⟨0⟩, ⟨1⟩, ⟨2⟩]).program.Declared m := by
    simp only [List.forall_mem_cons]
    exact ⟨⟨_, _, rfl, rfl⟩, ⟨_, _, rfl, rfl⟩, ⟨_, _, rfl, rfl⟩, List.forall_mem_nil _⟩
  obtain ⟨hexact, -, -, hperm, -⟩ := Resolver.binary_selects .standard five .nowhere hms hdeclared
  obtain ⟨g, hg, heq⟩ := hexact ⟨1⟩ (by decide +kernel)
  cases hg
  have hms' : (state [⟨1⟩, ⟨2⟩, ⟨0⟩]).candidates five.ty BinaryOp.add.symbol =
      .ok [⟨1⟩, ⟨2⟩, ⟨0⟩] := rfl
  have hsame := hperm (by decide +kernel) _ _ (state_agrees _ _) hms' (by decide)
  exact ⟨heq, hsame.trans heq⟩

end Mixed

end ClassLang
