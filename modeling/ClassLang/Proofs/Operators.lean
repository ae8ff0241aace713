import ClassLang.Proofs.Lookup

/-!
# Members and operators of a type

The members that a type has under a name, written out (`Ty.candidates`), and which of them an
operator selects.

* `Represents.candidates`: the members that a state lists are these.
* `choose_eq`: among some methods, an operator between two operands selects the first that takes the
  right one as it is, or else the only one that takes it after a conversion.
* `Sound.map_takers`, `firstBare_eq`: the choice in terms of the signatures.
-/

namespace ClassLang

/-! ## Members written out -/

/-- The operators of a native type that are written in the given way. -/
def Native.operatorsNamed (k : Native) (name : String) : List Signature :=
  (k.operators.filter fun op => op.symbol = name).map fun op => op.signature k

/-- What a method takes if it takes one argument, and what it gives. -/
def Signature.taker? (g : Signature) : Option (Ty × Ty) :=
  match g.parameters with
  | [p] => some (p, g.result)
  | _ => none

/-- The first operator of a name is the one of the rules. -/
theorem Native.head?_operatorsNamed (k : Native) (name : String) :
    (k.operatorsNamed name).head? = k.method? name := by
  have hsym : ∀ op ∈ k.operators, op.symbol ∈ "not" :: BinaryOp.all.map BinaryOp.symbol := by
    cases k <;> decide
  by_cases hn : name ∈ "not" :: BinaryOp.all.map BinaryOp.symbol
  · -- each symbol on each native type
    simp only [BinaryOp.all, List.map_cons, List.map_nil, BinaryOp.symbol, List.mem_cons,
      List.not_mem_nil, or_false] at hn
    rcases hn with rfl | rfl | rfl | rfl | rfl | rfl | rfl | rfl | rfl | rfl | rfl | rfl | rfl | rfl <;>
      cases k <;> rfl
  · have h₁ : k.operatorsNamed name = [] := by
      simp only [Native.operatorsNamed, List.map_eq_nil_iff, List.filter_eq_nil_iff,
        decide_eq_true_eq]
      intro op hop h
      exact hn (h ▸ hsym op hop)
    have h₂ : (BinaryOp.all.find? fun op => op.symbol = name) = none := by
      simp only [List.find?_eq_none, decide_eq_true_eq]
      intro op hop h
      exact hn (h ▸ List.mem_cons_of_mem _ (List.mem_map_of_mem hop))
    have h₃ : name ≠ UnaryOp.not.symbol := fun h => hn (h ▸ List.mem_cons_self)
    rw [h₁, Native.method?, h₂, if_neg h₃]; rfl

namespace Ty

variable (d : Dialect) (u : CompilationUnit)

/-- The members that a type has under a name. -/
def candidates (T : Ty) (name : String) : List Signature :=
  match T with
  | native k => k.operatorsNamed name
  | ofClass c => ((ofClass c).method? d u name).toList
  | _ => []

/-- What an operator takes on its right, and what it gives. -/
def binary? (T : Ty) (op : BinaryOp) : Option (Ty × Ty) :=
  match T with
  | native k => (op.result? k).map fun r => (native k, native r)
  | ofClass c => ((ofClass c).method? d u op.symbol).bind Signature.taker?
  | _ => none

/-- What an operator before a value gives. -/
def unary? (T : Ty) (op : UnaryOp) : Option Ty :=
  match T with
  | native k => (op.result? k).map native
  | ofClass c => ((ofClass c).method? d u op.symbol).bind fun g =>
      if g.parameters.isEmpty then some g.result else none
  | _ => none

theorem head?_candidates (T : Ty) (name : String) :
    (T.candidates d u name).head? = T.method? d u name := by
  cases T with
  | native k => exact k.head?_operatorsNamed name
  | ofClass c => simp only [candidates, Option.head?_toList]
  | pointer T => rfl
  | array T => rfl

/-- At most one member takes a right operand. -/
theorem takers_candidates (T : Ty) (op : BinaryOp) :
    (T.candidates d u op.symbol).filterMap Signature.taker? = (T.binary? d u op).toList := by
  cases T with
  | native k => cases k <;> cases op <;> rfl
  | ofClass c =>
    simp only [candidates, binary?]
    cases (ofClass c).method? d u op.symbol with
    | none => rfl
    | some g => cases h : g.taker? <;> simp [h]
  | pointer T => rfl
  | array T => rfl

theorem find?_candidates (T : Ty) (op : UnaryOp) :
    ((T.candidates d u op.symbol).find? fun g => g.parameters.isEmpty).map Signature.result =
      T.unary? d u op := by
  cases T with
  | native k => cases k <;> cases op <;> rfl
  | ofClass c =>
    simp only [candidates, unary?]
    cases (ofClass c).method? d u op.symbol with
    | none => rfl
    | some g => by_cases h : g.parameters = [] <;> simp [h]
  | pointer T => rfl
  | array T => rfl

end Ty

section

variable {x : Context} {Γ : Blocks} {sp : Span} {R : Ty}

/-- The rule for an operator between two operands, whatever the left one is. -/
theorem hasType_binary {op : BinaryOp} {a b : Expr} {f g : Form} {A B P : Ty}
    (ha : HasType x Γ a f A) (hb : HasType x Γ b g B)
    (hop : A.binary? x.dialect x.unit op = some (P, R)) (hfit : Fits x.dialect.conversions g B P) :
    HasType x Γ (.binary op a b sp) .value R := by
  cases A with
  | native k =>
    obtain ⟨r, hr, heq⟩ := Option.map_eq_some_iff.1 hop
    cases heq
    exact .binary ha hb hr hfit
  | ofClass c =>
    obtain ⟨⟨ps, r⟩, hm, ht⟩ := Option.bind_eq_some_iff.1 hop
    unfold Signature.taker? at ht
    split at ht
    · rename_i p hp
      cases ht
      cases hp
      exact .binaryMethod ha hb hm hfit
    · cases ht
  | pointer A => cases hop
  | array A => cases hop

theorem hasType_binary_inv {op : BinaryOp} {a b : Expr} {h : Form}
    (ht : HasType x Γ (.binary op a b sp) h R) : ∃ f g A B P, HasType x Γ a f A ∧
      HasType x Γ b g B ∧ A.binary? x.dialect x.unit op = some (P, R) ∧
      Fits x.dialect.conversions g B P := by
  cases ht with
  | binary ha hb hr hfit =>
    exact ⟨_, _, _, _, _, ha, hb, by rw [Ty.binary?, hr]; rfl, hfit⟩
  | binaryMethod ha hb hm hfit =>
    exact ⟨_, _, _, _, _, ha, hb, by rw [Ty.binary?, hm]; rfl, hfit⟩

/-- The rule for an operator before an operand, whatever that is. -/
theorem hasType_unary {op : UnaryOp} {e : Expr} {f : Form} {A : Ty} (hn : ¬ op.Folds e)
    (he : HasType x Γ e f A) (hop : A.unary? x.dialect x.unit op = some R) :
    HasType x Γ (.unary op e sp) .value R := by
  cases A with
  | native k =>
    obtain ⟨r, hr, rfl⟩ := Option.map_eq_some_iff.1 hop
    exact .unary hn he hr
  | ofClass c =>
    obtain ⟨⟨ps, r⟩, hm, ht⟩ := Option.bind_eq_some_iff.1 hop
    split at ht
    · rename_i hp
      cases ht
      cases List.isEmpty_iff.1 hp
      exact .unaryMethod he hm
    · cases ht
  | pointer A => cases hop
  | array A => cases hop

theorem hasType_unary_inv {op : UnaryOp} {e : Expr} {h : Form} (hn : ¬ op.Folds e)
    (ht : HasType x Γ (.unary op e sp) h R) :
    ∃ f A, HasType x Γ e f A ∧ A.unary? x.dialect x.unit op = some R := by
  cases ht with
  | negative _ => exact absurd trivial hn
  | unary _ he hr => exact ⟨_, _, he, by rw [Ty.unary?, hr]; rfl⟩
  | unaryMethod he hm => exact ⟨_, _, he, by rw [Ty.unary?, hm]; rfl⟩

end

/-! ## Members as they are listed -/

theorem TypeEntry.map_candidates {β : Type} (e : TypeEntry) (n : String) (f : MethodId → β) :
    (e.candidates n).map f = (e.members.map fun p => (p.1, f p.2)).filterMap
      fun q => if q.1 = n then some q.2 else none := by
  unfold TypeEntry.candidates
  rw [List.map_filterMap, List.filterMap_map]
  congr 1
  funext p
  by_cases h : p.1 = n <;> simp [h]

namespace Resolver

variable {s : Resolver} {d : Dialect} {u : CompilationUnit} {id : TypeId} {T : Ty} {m : MethodId}
  {ms : List MethodId}

/-- Pointers and arrays have no members. -/
theorem Represents.candidates_of_part (hR : s.Represents d u) {e : TypeEntry}
    (he : s.registry.entry? id = some e) {k : TypeKind} (hk : s.registry.kind? id = some k)
    (hp : k.part?.isSome) {n : String} : e.candidates n = [] := by
  unfold Registry.kind? at hk
  rw [he] at hk
  cases hk
  unfold TypeEntry.candidates
  rw [hR.natives.bare id e he hp]
  rfl

/-- **The members that a state lists are those that are written.** -/
theorem Represents.candidates (hR : s.Represents d u) (hs : s.Sound)
    (hT : s.registry.meaning? id = some T) {e : TypeEntry} (he : s.registry.entry? id = some e)
    (n : String) : (e.candidates n).map s.signatureOf? = (T.candidates d u n).map some := by
  cases T with
  | native k =>
    cases Registry.eq_native_of_meaning? hs.registry hT
    rw [TypeEntry.map_candidates, hR.natives.operators k e he, Ty.candidates,
      Native.operatorsNamed, List.filterMap_map, List.map_map]
    induction k.operators with
    | nil => rfl
    | cons op ops ih => by_cases hop : op.symbol = n <;> simp_all
  | ofClass c =>
    obtain ⟨c', i, -, hi, rfl, rfl⟩ := hs.class_of_meaning? hT
    obtain ⟨decl, hd, hc⟩ := hR.classes c' i hi
    obtain ⟨sc, hsc, -, -⟩ := hs.class_scope hi
    have hmeth : (sc.methods[n]?).bind s.signatureOf? = (Ty.ofClass i.name).method? d u n := by
      rw [hc.methods sc hsc n]
      show _ = (do
        let m ← (← u.classNamed? i.name).methodNamed? n
        m.signature? d u)
      rw [hd]; rfl
    rw [hc.members sc e hsc he n, Ty.candidates, ← hmeth]
    cases hm : sc.methods[n]? with
    | none => rfl
    | some m =>
      obtain ⟨g, hg, -⟩ := hs.owner_of_class hi hsc hm
      obtain ⟨sig, -, hsig, -⟩ := hs.signatureOf?_isSome hg
      simp [hsig]
  | pointer T | array T =>
    obtain ⟨t, hk, -⟩ := Registry.kind?_of_meaning? hs.registry hT
    rw [hR.candidates_of_part he hk rfl]; rfl

/-! ## The choice between members -/

theorem parameterTypes_eq {p : Program} {g : Method} {tys : List TypeId}
    (hg : p.methodAt? m = some g) (htys : p.typesOf? g.arguments = some tys) :
    p.parameterTypes m = .ok tys := by
  have hmap : ∀ vs tys, p.typesOf? vs = some tys →
      (vs.mapM fun v => do return (← p.getVariable v).ty : Except Diagnostic (List TypeId)) =
        .ok tys := by
    intro vs
    induction vs with
    | nil => intro tys h; cases h; rfl
    | cons v vs ih =>
      intro tys h
      unfold Program.typesOf? at h
      simp only [List.mapM_cons, Option.bind_eq_bind, Option.bind_eq_some_iff, Option.pure_def,
        Option.some.injEq, Option.map_eq_some_iff] at h
      obtain ⟨ty, ⟨x, hx, rfl⟩, tys', htys', rfl⟩ := h
      rw [List.mapM_cons, Program.getVariable_eq hx, ih tys' htys']; rfl
  unfold Program.parameterTypes
  rw [Program.getMethod_eq hg]
  exact hmap g.arguments tys htys

theorem Sound.parameterTypes_of_candidate (hs : s.Sound) {id : TypeId} {e : TypeEntry} {n : String}
    (he : s.registry.entry? id = some e) (hm : m ∈ e.candidates n) :
    ∃ tys, s.program.parameterTypes m = .ok tys := by
  obtain ⟨g, hg, -⟩ := hs.lists_of_candidate he hm
  obtain ⟨-, tys, -, htys, -⟩ := hs.signatureOf?_isSome hg
  exact ⟨tys, parameterTypes_eq hg htys⟩

/-- The methods among some that take one argument, with its type. -/
def takers (s : Resolver) (ms : List MethodId) : List (MethodId × TypeId) :=
  ms.filterMap fun m =>
    match s.program.parameterTypes m with
    | .ok [p] => some (m, p)
    | _ => none

/-- A method with one parameter is looked at, -/
theorem choose_cons_unary {right : TypedExpr} {p : TypeId}
    (h : s.program.parameterTypes m = .ok [p]) (ms : List MethodId)
    (found : List (MethodId × TypeId)) : s.choose d right (m :: ms) found =
      if p = right.ty then .ok (.exact m) else
        if s.registry.converts d.conversions right p = true then
          s.choose d right ms (found ++ [(m, p)])
        else s.choose d right ms found := by
  rw [choose, h]
  rfl

/-- and others are passed over. -/
theorem choose_cons_other {right : TypedExpr} {tys : List TypeId}
    (h : s.program.parameterTypes m = .ok tys) (hlen : tys.length ≠ 1) (ms : List MethodId)
    (found : List (MethodId × TypeId)) :
    s.choose d right (m :: ms) found = s.choose d right ms found := by
  rw [choose, h]
  cases tys with
  | nil => rfl
  | cons p tys =>
    cases tys with
    | nil => exact absurd rfl hlen
    | cons q tys => rfl

/-- **Which operator a right operand selects**: the first that takes it as it is, or else the only
one that takes it after a conversion. -/
theorem choose_eq (d : Dialect) (right : TypedExpr)
    (h : ∀ m ∈ ms, ∃ tys, s.program.parameterTypes m = .ok tys) (found : List (MethodId × TypeId)) :
    s.choose d right ms found = .ok (
      match (s.takers ms).find? fun t => t.2 = right.ty with
      | some (m, _) => .exact m
      | none =>
        match found ++ (s.takers ms).filter fun t => s.registry.converts d.conversions right t.2 with
        | [(m, p)] => .converted m p
        | _ => .none) := by
  induction ms generalizing found with
  | nil =>
    simp only [takers, List.filterMap_nil, List.find?_nil, List.filter_nil, List.append_nil]
    match found with
    | [] => rfl
    | [(m, p)] => rfl
    | _ :: _ :: _ => rfl
  | cons m ms ih =>
    obtain ⟨tys, htys⟩ := h m List.mem_cons_self
    have ih := fun found => ih (fun m' hm' => h m' (List.mem_cons_of_mem _ hm')) found
    unfold takers
    rw [List.filterMap_cons, htys]
    -- only a method with one parameter is looked at
    match tys with
    | [] => rw [choose_cons_other htys (by simp)]; exact ih found
    | _ :: _ :: _ => rw [choose_cons_other htys (by simp)]; exact ih found
    | [p] =>
      simp only [List.find?_cons, List.filter_cons]
      rw [choose_cons_unary htys]
      by_cases hp : p = right.ty
      · rw [if_pos hp]
        simp only [hp, decide_true]
      · rw [if_neg hp]
        simp only [hp, decide_false]
        by_cases hc : s.registry.converts d.conversions right p = true
        · rw [if_pos hc, if_pos hc, ih (found ++ [(m, p)]), List.append_assoc]
          rfl
        · rw [if_neg hc, if_neg hc]
          exact ih found

/-- The methods that take one argument, in terms of their signatures. -/
theorem Sound.map_takers (hs : s.Sound) {sigs : List Signature}
    (h : ms.map s.signatureOf? = sigs.map some) :
    (s.takers ms).map
        (fun t => (s.registry.meaning? t.2, (s.signatureOf? t.1).map Signature.result)) =
      (sigs.filterMap Signature.taker?).map fun q => (some q.1, some q.2) := by
  induction forall₂_of_map_eq h with
  | nil => rfl
  | @cons m sig _ _ hm _ ih =>
    have ih := ih (List.cons.inj h).2
    obtain ⟨g, hg, -⟩ := signatureOf?_eq_some_iff.1 hm
    obtain ⟨sig', tys, hsig', htys, hps, -⟩ := hs.signatureOf?_isSome hg
    rw [hm] at hsig'
    cases hsig'
    have hpt := parameterTypes_eq hg htys
    unfold takers at *
    rw [List.filterMap_cons, List.filterMap_cons, hpt]
    -- as many argument types as parameters
    obtain ⟨ps, r⟩ := sig
    match tys, ps, hps with
    | [], [], _ => exact ih
    | [ty], [P], hps =>
      have hty : s.registry.meaning? ty = some P := by simpa using hps
      simp only [Signature.taker?, List.map_cons, hty, hm, Option.map_some, ih]
    | _ :: _ :: _, _ :: _ :: _, _ => exact ih
    | [_], _ :: _ :: _, hps => simp at hps
    | _ :: _ :: _, [_], hps => simp at hps

theorem mem_takers {p : TypeId} (h : (m, p) ∈ s.takers ms) :
    m ∈ ms ∧ s.program.parameterTypes m = .ok [p] := by
  unfold takers at h
  obtain ⟨m', hm', heq⟩ := List.mem_filterMap.1 h
  split at heq
  · rename_i q hq
    cases heq
    exact ⟨hm', hq⟩
  · cases heq

/-- The first of some methods that takes no arguments, in terms of what knows their signatures. -/
theorem firstBare_eq {α : Type} {f : MethodId → Option α} (sig : α → Signature)
    (hf : ∀ m a, f m = some a → s.signatureOf? m = some (sig a)) {as : List α}
    (h : ms.map f = as.map some) :
    ∃ o, s.firstBare ms = .ok o ∧
      o.map f = (as.find? fun a => (sig a).parameters.isEmpty).map some ∧
      ∀ m, o = some m → m ∈ ms := by
  induction forall₂_of_map_eq h with
  | nil => exact ⟨none, rfl, rfl, nofun⟩
  | @cons m a ms _ hm _ ih =>
    obtain ⟨o, ho, hsig, hmem⟩ := ih (List.cons.inj h).2
    obtain ⟨g, hg, hps, -⟩ := signatureOf?_eq_some_iff.1 (hf m a hm)
    have hempty : g.arguments.isEmpty = (sig a).parameters.isEmpty := by
      have hlen := congrArg List.length hps
      rw [List.length_map, List.length_map] at hlen
      cases ha : g.arguments <;> cases hp : (sig a).parameters <;> simp_all
    unfold firstBare
    rw [Program.getMethod_eq hg, List.find?_cons, ← hempty]
    show ∃ o, (if g.arguments.isEmpty = true then .ok (some m) else s.firstBare ms) = .ok o ∧ _
    cases hb : g.arguments.isEmpty with
    | true => exact ⟨some m, rfl, congrArg some hm, by rintro _ ⟨⟩; exact List.mem_cons_self⟩
    | false => exact ⟨o, ho, hsig, fun m' hm' => List.mem_cons_of_mem _ (hmem m' hm')⟩

end Resolver

end ClassLang
