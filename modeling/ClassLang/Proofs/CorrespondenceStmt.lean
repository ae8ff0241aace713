import ClassLang.Proofs.CorrespondenceExpr

/-!
# What a statement is elaborated to is what it becomes

A statement or a block that reads as what its source is elaborated to is what that source becomes.
Which variables are declared is known from the scopes (`Stmt.Lowers`), all else from the reading.

* `Stmt.elaborate_varDecl`, `Env.OwnNames.bind`: a declaration, and what is bound after it.
* `Stmt.Corresponds`, `Stmt.CorrespondAll`, `Block.Corresponds`: what is to be shown of statements and
  blocks, with one lemma for each kind of statement.
* `Stmt.becomesAll_of_named?`: it holds of all bodies.
-/

namespace ClassLang

open Resolver Resolve

/-! ## Parts of a statement -/

section

variable {s : Resolver} {d : Dialect} {u : CompilationUnit} {x : BodyContext} {names names' : Names}
  {Γ : Env} {O : Option NamedStmt} {N : NamedExpr} {S : NamedStmt} {span : Span}

theorem NamedExpr.callStmt_eq_ok (h : N.callStmt span = .ok S) : S = .call N := by
  unfold callStmt at h
  split at h
  · cases h; rfl
  · cases h

theorem NamedExpr.assign_eq_ok {A B : NamedExpr} (h : A.assign B span = .ok S) :
    S = .assignment A B span := by
  unfold assign at h
  split at h
  · cases h
  · split at h
    · cases h
    · cases h; rfl

theorem NamedExpr.condition_eq_ok {N' : NamedExpr} (h : N.condition = .ok N') : N' = N := by
  unfold condition at h
  split at h
  · cases h; rfl
  · cases h

theorem BodyContext.ret_eq_ok {value : Option NamedExpr} (h : x.ret value span = .ok S) :
    S = .ret value span := by
  unfold ret at h
  dsimp only at h
  split at h <;> split at h
  · cases h
  · cases h; rfl
  · cases h
  · cases h; rfl

/-- A declared variable after elaboration: its type, its value and what is left of it. -/
theorem Stmt.elaborate_varDecl {n : String} {type : TypeName} {value : Option Expr}
    (h : (Stmt.varDecl n type value span).elaborate x names Γ = .ok (O, names')) :
    ∃ T value', type.elaborate x.interface = .ok T ∧
      Expr.elaborateOptional x (names :: Γ) value = .ok value' ∧
      O = value'.map (fun N => .assignment (.var ⟨n, .localVar, T, span⟩ T span) N span) ∧
      names' = (n, ⟨n, .localVar, T, span⟩) :: names := by
  rw [Stmt.elaborate] at h
  obtain ⟨T, hT, h⟩ := exists_of_bind_eq_ok h
  obtain ⟨value', hvalue, h⟩ := exists_of_bind_eq_ok h
  dsimp only at h
  split at h
  · obtain ⟨_, ⟨⟩, -⟩ := exists_of_bind_eq_ok h
  refine ⟨T, value', hT, hvalue, ?_⟩
  cases value' with
  | none => cases h; exact ⟨rfl, rfl⟩
  | some N =>
    obtain ⟨S, hS, ⟨⟩⟩ := exists_of_bind_eq_ok h
    rw [NamedExpr.assign_eq_ok hS]
    exact ⟨rfl, rfl⟩

/-- A block binds nothing at its start. -/
theorem Env.OwnNames.enter (hΓ : Γ.OwnNames) : Env.OwnNames ([] :: Γ) := by
  intro l hl q hq
  rcases List.mem_cons.1 hl with rfl | hl
  · cases hq
  · exact hΓ l hl q hq

/-- A declared variable is bound under its own name. -/
theorem Env.OwnNames.bind (hΓ : Env.OwnNames (names :: Γ)) (n : String) (T : Ty) (span : Span) :
    Env.OwnNames (((n, ⟨n, .localVar, T, span⟩) :: names) :: Γ) := by
  intro l hl q hq
  rcases List.mem_cons.1 hl with rfl | hl
  · rcases List.mem_cons.1 hq with rfl | hq
    · exact ⟨rfl, nofun⟩
    · exact hΓ names List.mem_cons_self q hq
  · exact hΓ l (List.mem_cons_of_mem _ hl) q hq

theorem Expr.becomes_of_named? {e : Expr} {t : TypedExpr} (hx : x.interface = u.interface d)
    (hΓ : Γ.OwnNames) (h : e.elaborate x Γ = .ok N) (ht : t.named? s = some N) :
    e.Becomes s.registry s.program d u t :=
  e.becomes_of_reads hx hΓ h (t.reads_of_named? ht)

theorem Expr.becomes_of_condition {e : Expr} {t : TypedExpr} (hx : x.interface = u.interface d)
    (hΓ : Γ.OwnNames) (h : e.elaborateCondition x Γ = .ok N) (ht : t.named? s = some N) :
    e.Becomes s.registry s.program d u t := by
  obtain ⟨N', he, h⟩ := exists_of_bind_eq_ok h
  cases NamedExpr.condition_eq_ok h
  exact becomes_of_named? hx hΓ he ht

theorem Expr.elaborateOptional_some {e : Expr} {o : Option NamedExpr}
    (h : Expr.elaborateOptional x Γ (some e) = .ok o) :
    ∃ N, e.elaborate x Γ = .ok N ∧ o = some N := by
  rw [elaborateOptional] at h
  cases he : e.elaborate x Γ with
  | error f => rw [he] at h; cases h
  | ok N => rw [he] at h; cases h; exact ⟨N, rfl, rfl⟩

theorem Expr.becomesOptional_of_named? {o : Option Expr} {t : Option TypedExpr}
    {N : Option NamedExpr} (hx : x.interface = u.interface d) (hΓ : Γ.OwnNames)
    (h : Expr.elaborateOptional x Γ o = .ok N) (ht : t.map (fun t => t.named? s) = N.map some) :
    Expr.BecomesOptional s.registry s.program d u o t := by
  cases o with
  | none =>
    cases h
    cases t with
    | none => exact .none
    | some t => cases ht
  | some e =>
    obtain ⟨M, he, rfl⟩ := Expr.elaborateOptional_some h
    cases t with
    | none => cases ht
    | some t => exact .some (becomes_of_named? hx hΓ he (Option.some.inj ht))

end

section

variable {s : Resolver} {d : Dialect} {u : CompilationUnit} {x : BodyContext} {M : Members}

theorem TypedStmt.namedAll?_cons_iff {t : TypedStmt} {ts : List TypedStmt} {S : NamedStmt}
    {Ss : List NamedStmt} : TypedStmt.namedAll? s (t :: ts) = some (S :: Ss) ↔
      t.named? s = some S ∧ TypedStmt.namedAll? s ts = some Ss := by
  simp only [namedAll?, Option.bind_eq_bind, Option.bind_eq_some_iff]
  constructor
  · rintro ⟨S', hS, Ss', hSs, ⟨⟩⟩
    exact ⟨hS, hSs⟩
  · rintro ⟨hS, hSs⟩
    exact ⟨S, hS, Ss, hSs, rfl⟩

variable (s d u x M) in
/-- **What reads as the elaborated statement is what the statement becomes**, with the statements
`ts` behind it. -/
def Stmt.Corresponds (st : Stmt) : Prop :=
  ∀ ⦃names names' : Names⦄ ⦃Γ : Env⦄ ⦃locals locals' : Locals⦄ ⦃Δ : List Locals⦄
    ⦃o : Option TypedStmt⦄ ⦃O : Option NamedStmt⦄ ⦃ts : List TypedStmt⦄ ⦃Ss : List NamedStmt⦄
    ⦃ds : List Declaration⦄, Env.OwnNames (names :: Γ) → Stmt.Lowers M locals Δ st o locals' ds →
    (∀ w ∈ ds, ∃ ty, s.program.Enters w ty) → st.elaborate x names Γ = .ok (O, names') →
    TypedStmt.namedAll? s (o.toList ++ ts) = some (O.toList ++ Ss) →
    st.Becomes s.registry s.program d u o ds ∧ Env.OwnNames (names' :: Γ) ∧
      TypedStmt.namedAll? s ts = some Ss

variable (s d u x M) in
/-- The same of statements, one after the other. -/
def Stmt.CorrespondAll (sts : List Stmt) : Prop :=
  ∀ ⦃names : Names⦄ ⦃Γ : Env⦄ ⦃locals : Locals⦄ ⦃Δ : List Locals⦄ ⦃ts : List TypedStmt⦄
    ⦃Ss : List NamedStmt⦄ ⦃ds : List Declaration⦄, Env.OwnNames (names :: Γ) →
    Stmt.LowersAll M locals Δ sts ts ds → (∀ w ∈ ds, ∃ ty, s.program.Enters w ty) →
    Stmt.elaborateAll x names Γ sts = .ok Ss → TypedStmt.namedAll? s ts = some Ss →
    Stmt.BecomesAll s.registry s.program d u sts ts ds

variable (s d u x M) in
/-- The same of a block. -/
def Block.Corresponds (block : Block) : Prop :=
  ∀ ⦃Γ : Env⦄ ⦃Δ : List Locals⦄ ⦃b : TypedBlock⦄ ⦃B : NamedBlock⦄ ⦃ds : List Declaration⦄,
    Γ.OwnNames → Block.Lowers M Δ block b ds → (∀ w ∈ ds, ∃ ty, s.program.Enters w ty) →
    block.elaborateNested x Γ = .ok B → b.named? s = some B →
    block.Becomes s.registry s.program d u b ds

/-! ## Statement by statement -/

namespace Stmt

variable {st : Stmt} {sts body : List Stmt} {c e a b : Expr} {yes no inner : Block}
  {value : Option Expr} {n : String} {type : TypeName} {span : Span}

theorem Corresponds.expression (hx : x.interface = u.interface d) :
    (Stmt.expression e span).Corresponds s d u x M := by
  intro names names' Γ locals locals' Δ o O ts Ss ds hΓ hl hentered h ho
  rw [Stmt.elaborate] at h
  obtain ⟨N, he, h⟩ := exists_of_bind_eq_ok h
  obtain ⟨S, hS, ⟨⟩⟩ := exists_of_bind_eq_ok h
  cases NamedExpr.callStmt_eq_ok hS
  cases hl with
  | expression hl =>
    obtain ⟨ht, hts⟩ := TypedStmt.namedAll?_cons_iff.1 ho
    obtain ⟨N', hN, ⟨⟩⟩ := Option.bind_eq_some_iff.1 ht
    exact ⟨.expression (Expr.becomes_of_named? hx hΓ he hN), hΓ, hts⟩

theorem Corresponds.assignment (hx : x.interface = u.interface d) :
    (Stmt.assignment a b span).Corresponds s d u x M := by
  intro names names' Γ locals locals' Δ o O ts Ss ds hΓ hl hentered h ho
  rw [Stmt.elaborate] at h
  obtain ⟨A, ha, h⟩ := exists_of_bind_eq_ok h
  obtain ⟨B, hb, h⟩ := exists_of_bind_eq_ok h
  obtain ⟨S, hS, ⟨⟩⟩ := exists_of_bind_eq_ok h
  cases NamedExpr.assign_eq_ok hS
  cases hl with
  | assignment _ _ =>
    obtain ⟨ht, hts⟩ := TypedStmt.namedAll?_cons_iff.1 ho
    obtain ⟨A', hA, ht⟩ := Option.bind_eq_some_iff.1 ht
    obtain ⟨B', hB, ⟨⟩⟩ := Option.bind_eq_some_iff.1 ht
    exact ⟨.assignment (Expr.becomes_of_named? hx hΓ ha hA) (Expr.becomes_of_named? hx hΓ hb hB),
      hΓ, hts⟩

theorem Corresponds.ret (hx : x.interface = u.interface d) :
    (Stmt.ret value span).Corresponds s d u x M := by
  intro names names' Γ locals locals' Δ o O ts Ss ds hΓ hl hentered h ho
  rw [Stmt.elaborate] at h
  obtain ⟨value', hvalue, h⟩ := exists_of_bind_eq_ok h
  obtain ⟨S, hS, ⟨⟩⟩ := exists_of_bind_eq_ok h
  cases BodyContext.ret_eq_ok hS
  cases hl with
  | ret _ =>
    obtain ⟨ht, hts⟩ := TypedStmt.namedAll?_cons_iff.1 ho
    obtain ⟨V, hV, ⟨⟩⟩ := Option.bind_eq_some_iff.1 ht
    exact ⟨.ret (Expr.becomesOptional_of_named? hx hΓ hvalue (optionMapM_eq_some_iff.1 hV)), hΓ,
      hts⟩

/-- A declared variable: the place of the assignment, if there is one, is the variable. -/
theorem Corresponds.varDecl (hs : s.Sound) (hx : x.interface = u.interface d) :
    (Stmt.varDecl n type value span).Corresponds s d u x M := by
  intro names names' Γ locals locals' Δ o O ts Ss ds hΓ hl hentered h ho
  obtain ⟨T, value', hT, hvalue, rfl, rfl⟩ := Stmt.elaborate_varDecl h
  cases hl with
  | varDecl ty hl =>
    obtain ⟨ty', henter⟩ := hentered _ List.mem_cons_self
    cases hl with
    | none =>
      -- nothing is left to read: what follows is all there is
      cases hvalue
      exact ⟨.varDecl henter, hΓ.bind n T span, ho⟩
    | some hl =>
      obtain ⟨N, he, rfl⟩ := Expr.elaborateOptional_some hvalue
      obtain ⟨ht, hts⟩ := TypedStmt.namedAll?_cons_iff.1 ho
      obtain ⟨A, hA, ht⟩ := Option.bind_eq_some_iff.1 ht
      obtain ⟨N', hN, ⟨⟩⟩ := Option.bind_eq_some_iff.1 ht
      cases TypedExpr.reads_of_named? _ hA with
      | var hv hty =>
        -- the variable and the node have one type, since both are read as the written one
        obtain ⟨y, hy, -, -, hyT, -⟩ := Resolver.namedVar?_eq_some_iff.1 hv
        cases Option.some.inj (hy.symm.trans henter)
        cases hs.meaning?_injective hyT hty
        exact ⟨.varInit henter ⟨T, TypeName.denoted?_of_elaborate (hx ▸ hT), hty⟩
          (Expr.becomes_of_named? hx hΓ he hN), hΓ.bind n T span, hts⟩

theorem Corresponds.ifElse (hx : x.interface = u.interface d)
    (hyes : yes.Corresponds s d u x M) (hno : no.Corresponds s d u x M) :
    (Stmt.ifElse c yes no span).Corresponds s d u x M := by
  intro names names' Γ locals locals' Δ o O ts Ss ds hΓ hl hentered h ho
  rw [Stmt.elaborate] at h
  obtain ⟨C, hc, h⟩ := exists_of_bind_eq_ok h
  obtain ⟨Y, hy, h⟩ := exists_of_bind_eq_ok h
  obtain ⟨Z, hz, ⟨⟩⟩ := exists_of_bind_eq_ok h
  cases hl with
  | ifElse _ hly hlz =>
    obtain ⟨ht, hts⟩ := TypedStmt.namedAll?_cons_iff.1 ho
    obtain ⟨C', hC, ht⟩ := Option.bind_eq_some_iff.1 ht
    obtain ⟨Y', hY, ht⟩ := Option.bind_eq_some_iff.1 ht
    obtain ⟨Z', hZ, ⟨⟩⟩ := Option.bind_eq_some_iff.1 ht
    exact ⟨.ifElse (Expr.becomes_of_condition hx hΓ hc hC)
      (hyes hΓ hly (fun w hw => hentered w (List.mem_append_left _ hw)) hy hY)
      (hno hΓ hlz (fun w hw => hentered w (List.mem_append_right _ hw)) hz hZ), hΓ, hts⟩

theorem Corresponds.ifThen (hx : x.interface = u.interface d)
    (hyes : yes.Corresponds s d u x M) : (Stmt.ifThen c yes span).Corresponds s d u x M := by
  intro names names' Γ locals locals' Δ o O ts Ss ds hΓ hl hentered h ho
  rw [Stmt.elaborate] at h
  obtain ⟨C, hc, h⟩ := exists_of_bind_eq_ok h
  obtain ⟨Y, hy, ⟨⟩⟩ := exists_of_bind_eq_ok h
  cases hl with
  | ifThen _ hly =>
    obtain ⟨ht, hts⟩ := TypedStmt.namedAll?_cons_iff.1 ho
    obtain ⟨C', hC, ht⟩ := Option.bind_eq_some_iff.1 ht
    obtain ⟨Y', hY, ht⟩ := Option.bind_eq_some_iff.1 ht
    obtain ⟨Z', hZ, ⟨⟩⟩ := Option.bind_eq_some_iff.1 ht
    exact ⟨.ifThen (Expr.becomes_of_condition hx hΓ hc hC) (hyes hΓ hly hentered hy hY), hΓ, hts⟩

theorem Corresponds.whileDo (hx : x.interface = u.interface d)
    (hinner : inner.Corresponds s d u x M) :
    (Stmt.whileDo c inner span).Corresponds s d u x M := by
  intro names names' Γ locals locals' Δ o O ts Ss ds hΓ hl hentered h ho
  rw [Stmt.elaborate] at h
  obtain ⟨C, hc, h⟩ := exists_of_bind_eq_ok h
  obtain ⟨B, hb, ⟨⟩⟩ := exists_of_bind_eq_ok h
  cases hl with
  | whileDo _ hlb =>
    obtain ⟨ht, hts⟩ := TypedStmt.namedAll?_cons_iff.1 ho
    obtain ⟨C', hC, ht⟩ := Option.bind_eq_some_iff.1 ht
    obtain ⟨B', hB, ⟨⟩⟩ := Option.bind_eq_some_iff.1 ht
    exact ⟨.whileDo (Expr.becomes_of_condition hx hΓ hc hC) (hinner hΓ hlb hentered hb hB), hΓ, hts⟩

theorem Corresponds.nested (hinner : inner.Corresponds s d u x M) :
    (Stmt.nested inner).Corresponds s d u x M := by
  intro names names' Γ locals locals' Δ o O ts Ss ds hΓ hl hentered h ho
  rw [Stmt.elaborate] at h
  obtain ⟨B, hb, ⟨⟩⟩ := exists_of_bind_eq_ok h
  cases hl with
  | nested hlb =>
    obtain ⟨ht, hts⟩ := TypedStmt.namedAll?_cons_iff.1 ho
    obtain ⟨B', hB, ⟨⟩⟩ := Option.bind_eq_some_iff.1 ht
    exact ⟨.nested (hinner hΓ hlb hentered hb hB), hΓ, hts⟩

theorem CorrespondAll.nil : CorrespondAll s d u x M [] := by
  intro names Γ locals Δ ts Ss ds hΓ hl hentered h hts
  cases hl
  exact .nil

/-- The variables of the first statement are bound for those behind it. -/
theorem CorrespondAll.cons (hst : st.Corresponds s d u x M) (hsts : CorrespondAll s d u x M sts) :
    CorrespondAll s d u x M (st :: sts) := by
  intro names Γ locals Δ ts Ss ds hΓ hl hentered h hts
  rw [Stmt.elaborateAll] at h
  obtain ⟨⟨O, names'⟩, hO, h⟩ := exists_of_bind_eq_ok h
  obtain ⟨Rs, hRs, ⟨⟩⟩ := exists_of_bind_eq_ok h
  cases hl with
  | cons hl hls =>
    obtain ⟨hfirst, hΓ', hts⟩ :=
      hst hΓ hl (fun w hw => hentered w (List.mem_append_left _ hw)) hO hts
    exact .cons hfirst
      (hsts hΓ' hls (fun w hw => hentered w (List.mem_append_right _ hw)) hRs hts)

theorem CorrespondAll.block (hbody : CorrespondAll s d u x M body) :
    (Block.mk body span).Corresponds s d u x M := by
  intro Γ Δ b B ds hΓ hl hentered h hb
  obtain ⟨Ss, hSs, ⟨⟩⟩ := exists_of_bind_eq_ok h
  cases hl with
  | mk hl =>
    simp only [TypedBlock.named?, Option.bind_eq_bind, Option.bind_eq_some_iff] at hb
    obtain ⟨Ss', hSs', ⟨⟩⟩ := hb
    exact .mk (hbody hΓ.enter hl hentered hSs hSs')

end Stmt

/-! ## All statements -/

mutual

theorem Stmt.corresponds (hs : s.Sound) (hx : x.interface = u.interface d) :
    (st : Stmt) → st.Corresponds s d u x M
  | .expression _ _ => .expression hx
  | .assignment _ _ _ => .assignment hx
  | .ret _ _ => .ret hx
  | .varDecl _ _ _ _ => .varDecl hs hx
  | .ifElse _ yes no _ => .ifElse hx (Block.corresponds hs hx yes) (Block.corresponds hs hx no)
  | .ifThen _ yes _ => .ifThen hx (Block.corresponds hs hx yes)
  | .whileDo _ body _ => .whileDo hx (Block.corresponds hs hx body)
  | .nested block => .nested (Block.corresponds hs hx block)

theorem Stmt.correspondAll (hs : s.Sound) (hx : x.interface = u.interface d) :
    (sts : List Stmt) → Stmt.CorrespondAll s d u x M sts
  | [] => .nil
  | st :: sts => .cons (Stmt.corresponds hs hx st) (Stmt.correspondAll hs hx sts)

theorem Block.corresponds (hs : s.Sound) (hx : x.interface = u.interface d) :
    (block : Block) → block.Corresponds s d u x M
  | .mk body _ => (Stmt.correspondAll hs hx body).block

end

/-- **Statements become what they are elaborated to**, one after the other. -/
theorem Stmt.becomesAll_of_named? (sts : List Stmt) {names : Names} {Γ : Env} {locals : Locals}
    {Δ : List Locals} {ts : List TypedStmt} {Ss : List NamedStmt} {ds : List Declaration}
    (hs : s.Sound) (hx : x.interface = u.interface d) (hΓ : Env.OwnNames (names :: Γ))
    (hl : Stmt.LowersAll M locals Δ sts ts ds)
    (hentered : ∀ w ∈ ds, ∃ ty, s.program.Enters w ty)
    (h : Stmt.elaborateAll x names Γ sts = .ok Ss) (hts : TypedStmt.namedAll? s ts = some Ss) :
    Stmt.BecomesAll s.registry s.program d u sts ts ds :=
  Stmt.correspondAll hs hx sts hΓ hl hentered h hts

end

end ClassLang
