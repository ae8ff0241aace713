import ClassLang.Proofs.Correspondence

/-!
# What an expression is elaborated to is what it becomes

An expression is elaborated to a tree without numbers. If a tree with numbers reads as that one, it
is what the expression becomes, node by node.

* `Expr.becomes_of_name`, `Expr.becomes_of_member`: the nodes that can stand for several things.
* `Expr.Corresponds`: what is to be shown of an expression, with one lemma for each kind of node.
* `Expr.becomes_of_reads`: it holds of all expressions.
-/

namespace ClassLang

/-! ## Names and members -/

variable {s : Resolver} {d : Dialect} {u : CompilationUnit} {x : BodyContext} {Γ : Env} {n : String}
  {span : Span} {N : NamedExpr} {t : TypedExpr}

/-- **A bare name.** -/
theorem Expr.becomes_of_name (hI : x.interface.OwnNames) (hΓ : Γ.OwnNames)
    (h : x.name Γ n span = .ok N) (ht : t.Reads s N) :
    (Expr.symbol n span).Becomes s.registry s.program d u t := by
  unfold BodyContext.name at h
  split at h
  next o v hv =>
    -- a variable of the blocks around, or a field of the class
    have hname : v.name = n ∧ (v.role = .receiver → n = "this") := by
      rcases Option.or_eq_some_iff.1 hv with hv | ⟨-, hv⟩
      · exact hΓ.find? hv
      · obtain ⟨c, -, hv⟩ := Option.bind_eq_some_iff.1 hv
        obtain ⟨hn, o, i, hrole⟩ := hI.field hv
        exact ⟨hn, fun hr => by rw [hr] at hrole; cases hrole⟩
    obtain ⟨rfl, hthis⟩ := hname
    unfold BodyContext.useOf at h
    split at h
    next o i hrole =>
      obtain ⟨R, hR, ⟨⟩⟩ := exists_of_bind_eq_ok h
      cases ht with
      | field ht hw =>
        obtain ⟨own, rfl⟩ := ht.of_receiver hR
        exact .field (Resolver.fieldNamed_of_namedVar? hw ⟨o, i, hrole⟩)
    next hrole =>
      obtain ⟨own, rfl⟩ := ht.of_receiver h
      rw [hthis hrole]
      exact .receiverName
    next hrole =>
      cases h
      cases ht with
      | var hw => exact .variable (Resolver.localNamed_of_namedVar? hw (.inl hrole))
    next i hrole =>
      cases h
      cases ht with
      | var hw => exact .variable (Resolver.localNamed_of_namedVar? hw (.inr ⟨i, hrole⟩))
  next k _ hk =>
    -- a call without arguments, on `this` if it is a method of the class
    obtain ⟨o, ho, h⟩ := exists_of_bind_eq_ok h
    obtain ⟨-, -, h⟩ := exists_of_bind_eq_ok h
    have hname := hI.method? hk
    rcases BodyContext.receiver_of_implicit ho with ⟨rfl, howner⟩ | ⟨R, rfl, howner, hR⟩
    · cases h
      cases ht with
      | call hm hts =>
        cases hts
        exact .bareFunction (hname ▸ Resolver.methodNamed_of_methodName? hm)
          (mt (Resolver.isMember_iff hm).1 howner)
    · cases h
      cases ht with
      | send ht hm hts =>
        cases hts
        obtain ⟨own, rfl⟩ := ht.of_receiver hR
        exact .bareMethod (hname ▸ Resolver.methodNamed_of_methodName? hm)
          ((Resolver.isMember_iff hm).2 howner)
  next => cases h

/-- A member of a target. -/
theorem Expr.becomes_of_member {e : Expr} {target : NamedExpr} (hI : x.interface.OwnNames)
    (he : ∀ t : TypedExpr, t.Reads s target → e.Becomes s.registry s.program d u t)
    (h : target.member x.interface n span = .ok N) (ht : t.Reads s N) :
    (Expr.member e n span).Becomes s.registry s.program d u t := by
  unfold NamedExpr.member at h
  split at h
  next v hv =>
    obtain ⟨hname, hrole⟩ := hI.fieldOf? hv
    cases h
    cases ht with
    | field ht hw =>
      exact .memberField (he _ ht) (hname ▸ Resolver.fieldNamed_of_namedVar? hw hrole)
  next =>
    obtain ⟨k, hk, h⟩ := exists_of_bind_eq_ok h
    obtain ⟨-, -, ⟨⟩⟩ := exists_of_bind_eq_ok h
    cases ht with
    | send ht hm hts =>
      cases hts
      exact .memberMethod (he _ ht) (hI.callee hk ▸ Resolver.methodNamed_of_methodName? hm)

/-! ## Node by node -/

variable (s d u x Γ) in
/-- **What reads as the elaborated expression is what the expression becomes.** -/
def Expr.Corresponds (e : Expr) : Prop :=
  ∀ ⦃N : NamedExpr⦄ ⦃t : TypedExpr⦄, e.elaborate x Γ = .ok N → t.Reads s N →
    e.Becomes s.registry s.program d u t

variable (s d u x Γ) in
/-- The same of arguments, of which there are as many as parameters. -/
def Expr.CorrespondArgs (es : List Expr) : Prop :=
  ∀ ⦃Ps : List Ty⦄ ⦃Ns : List NamedExpr⦄ ⦃ts : List TypedExpr⦄, Ps.length = es.length →
    Expr.elaborateArgs x Γ es Ps = .ok Ns → TypedExpr.ReadsAll s ts Ns →
    Expr.BecomesArgs s.registry s.program d u es ts

namespace Expr

variable {e a b i : Expr} {args es : List Expr} {type : TypeName} {op : UnaryOp}

theorem Corresponds.number (v : Nat) : (Expr.number v span).Corresponds s d u x Γ := by
  intro N t h ht
  rw [Expr.elaborate] at h
  split at h
  · cases h
    cases ht
    exact .number
  · cases h

theorem Corresponds.boolean (v : Bool) : (Expr.boolean v span).Corresponds s d u x Γ := by
  intro N t h ht
  cases h
  cases ht
  exact .boolean

theorem Corresponds.receiver : (Expr.this span).Corresponds s d u x Γ := by
  intro N t h ht
  obtain ⟨own, rfl⟩ := ht.of_receiver h
  exact .receiver

/-- A call without a receiver is that of a function, or that of a method on `this`. -/
theorem Corresponds.call (hI : x.interface.OwnNames) (hargs : CorrespondArgs s d u x Γ args) :
    (Expr.call n args span).Corresponds s d u x Γ := by
  intro N t h ht
  rw [Expr.elaborate] at h
  obtain ⟨⟨k, o⟩, hk, h⟩ := exists_of_bind_eq_ok h
  obtain ⟨⟨⟩, htakes, h⟩ := exists_of_bind_eq_ok h
  obtain ⟨Ns, hNs, h⟩ := exists_of_bind_eq_ok h
  have hlen := Callee.length_of_takes htakes
  obtain ⟨hname, ho⟩ := hI.method_eq_ok hk
  rcases ho with ⟨rfl, howner⟩ | ⟨R, rfl, howner, hR⟩
  · cases h
    cases ht with
    | call hm hts =>
      exact .callFunction (hname ▸ Resolver.methodNamed_of_methodName? hm)
        (mt (Resolver.isMember_iff hm).1 howner) (hargs hlen hNs hts)
  · cases h
    cases ht with
    | send ht hm hts =>
      obtain ⟨own, rfl⟩ := ht.of_receiver hR
      exact .callMethod (hname ▸ Resolver.methodNamed_of_methodName? hm)
        ((Resolver.isMember_iff hm).2 howner) (hargs hlen hNs hts)

theorem Corresponds.send (hI : x.interface.OwnNames) (he : e.Corresponds s d u x Γ)
    (hargs : CorrespondArgs s d u x Γ args) : (Expr.send e n args span).Corresponds s d u x Γ := by
  intro N t h ht
  rw [Expr.elaborate] at h
  obtain ⟨target, htarget, h⟩ := exists_of_bind_eq_ok h
  obtain ⟨k, hk, h⟩ := exists_of_bind_eq_ok h
  obtain ⟨⟨⟩, htakes, h⟩ := exists_of_bind_eq_ok h
  obtain ⟨Ns, hNs, ⟨⟩⟩ := exists_of_bind_eq_ok h
  cases ht with
  | send ht hm hts =>
    exact .send (he htarget ht) (hI.callee hk ▸ Resolver.methodNamed_of_methodName? hm)
      (hargs (Callee.length_of_takes htakes) hNs hts)

theorem Corresponds.member (hI : x.interface.OwnNames) (he : e.Corresponds s d u x Γ) :
    (Expr.member e n span).Corresponds s d u x Γ := by
  intro N t h ht
  rw [Expr.elaborate] at h
  obtain ⟨target, htarget, h⟩ := exists_of_bind_eq_ok h
  exact Expr.becomes_of_member hI (fun _ ht => he htarget ht) h ht

theorem Corresponds.binary {op : BinaryOp} (hI : x.interface.OwnNames)
    (ha : a.Corresponds s d u x Γ) (hb : b.Corresponds s d u x Γ) :
    (Expr.binary op a b span).Corresponds s d u x Γ := by
  intro N t h ht
  rw [Expr.elaborate] at h
  obtain ⟨L, hL, h⟩ := exists_of_bind_eq_ok h
  obtain ⟨R, hR, h⟩ := exists_of_bind_eq_ok h
  obtain ⟨k, P, R', hname, hR', rfl⟩ := hI.ofBinary_eq_ok h
  cases ht with
  | binary hm hl hr =>
    obtain ⟨r, hr, hconv⟩ := hr.of_coerce hR'
    exact .binary (ha hL hl) (hb hR hr) hconv (hname ▸ Resolver.methodNamed_of_methodName? hm)

/-- The sign belongs to the number, and no operator is looked up. -/
theorem Corresponds.negated (v : Nat) (sp : Span) :
    (Expr.unary .negate (.number v sp) span).Corresponds s d u x Γ := by
  intro N t h ht
  rw [Expr.elaborate] at h
  split at h
  · cases h
    cases ht
    exact .negative
  · cases h

theorem Corresponds.unary (hI : x.interface.OwnNames) (he : e.Corresponds s d u x Γ)
    (hn : ¬ op.Folds e) : (Expr.unary op e span).Corresponds s d u x Γ := by
  intro N t h ht
  rw [Expr.elaborate_unary hn] at h
  obtain ⟨N', hN', h⟩ := exists_of_bind_eq_ok h
  obtain ⟨k, hname, rfl⟩ := hI.ofUnary_eq_ok h
  cases ht with
  | unary hm ht => exact .unary hn (he hN' ht) (hname ▸ Resolver.methodNamed_of_methodName? hm)

theorem Corresponds.addressOf (he : e.Corresponds s d u x Γ) :
    (Expr.addressOf e span).Corresponds s d u x Γ := by
  intro N t h ht
  rw [Expr.elaborate] at h
  obtain ⟨N', hN', h⟩ := exists_of_bind_eq_ok h
  split at h
  · cases h
    cases ht with
    | addressOf ht => exact .addressOf (he hN' ht)
  · cases h

theorem Corresponds.arrayNew (hx : x.interface = u.interface d) (he : e.Corresponds s d u x Γ) :
    (Expr.arrayNew type e span).Corresponds s d u x Γ := by
  intro N t h ht
  rw [Expr.elaborate] at h
  obtain ⟨E, hE, h⟩ := exists_of_bind_eq_ok h
  obtain ⟨N₁, hN₁, h⟩ := exists_of_bind_eq_ok h
  obtain ⟨N₂, hN₂, ⟨⟩⟩ := exists_of_bind_eq_ok h
  cases ht with
  | arrayNew hel ht =>
    obtain ⟨t, ht, hconv⟩ := ht.of_coerce hN₂
    exact .arrayNew ⟨E, TypeName.denoted?_of_elaborate (hx ▸ hE), hel⟩ (he hN₁ ht) hconv

theorem Corresponds.cast (hx : x.interface = u.interface d) (he : e.Corresponds s d u x Γ) :
    (Expr.cast e type span).Corresponds s d u x Γ := by
  intro N t h ht
  rw [Expr.elaborate] at h
  obtain ⟨N', hN', h⟩ := exists_of_bind_eq_ok h
  obtain ⟨T, hT, ⟨⟩⟩ := exists_of_bind_eq_ok h
  cases ht with
  | cast ht hty => exact .cast (he hN' ht) ⟨T, TypeName.denoted?_of_elaborate (hx ▸ hT), hty⟩

theorem Corresponds.index (ha : a.Corresponds s d u x Γ) (hi : i.Corresponds s d u x Γ) :
    (Expr.index a i span).Corresponds s d u x Γ := by
  intro N t h ht
  rw [Expr.elaborate] at h
  obtain ⟨L, hL, h⟩ := exists_of_bind_eq_ok h
  obtain ⟨E, -, h⟩ := exists_of_bind_eq_ok h
  obtain ⟨R, hR, h⟩ := exists_of_bind_eq_ok h
  obtain ⟨R', hR', ⟨⟩⟩ := exists_of_bind_eq_ok h
  cases ht with
  | index hl hr =>
    obtain ⟨r, hr, hconv⟩ := hr.of_coerce hR'
    exact .index (ha hL hl) (hi hR hr) hconv

theorem CorrespondArgs.nil : CorrespondArgs s d u x Γ [] := by
  intro Ps Ns ts hlen h hts
  cases h
  cases hts
  exact .nil

theorem CorrespondArgs.cons (he : e.Corresponds s d u x Γ) (hes : CorrespondArgs s d u x Γ es) :
    CorrespondArgs s d u x Γ (e :: es) := by
  intro Ps Ns ts hlen h hts
  obtain ⟨P, Ps, rfl⟩ := List.exists_cons_of_length_eq_add_one hlen
  rw [Expr.elaborateArgs] at h
  obtain ⟨N, hN, h⟩ := exists_of_bind_eq_ok h
  obtain ⟨N', hN', h⟩ := exists_of_bind_eq_ok h
  obtain ⟨Ns, hNs, ⟨⟩⟩ := exists_of_bind_eq_ok h
  cases hts with
  | cons ht hts =>
    obtain ⟨t, ht, hconv⟩ := ht.of_coerce hN'
    exact .cons (he hN ht) hconv (hes (Nat.succ.inj hlen) hNs hts)

end Expr

/-! ## All expressions -/

mutual

/-- **Every expression** corresponds, node by node. -/
theorem Expr.corresponds (hx : x.interface = u.interface d) (hI : x.interface.OwnNames)
    (hΓ : Γ.OwnNames) : (e : Expr) → e.Corresponds s d u x Γ
  | .number n _ => .number n
  | .boolean b _ => .boolean b
  | .symbol _ _ => fun _ _ h ht => Expr.becomes_of_name hI hΓ h ht
  | .this _ => .receiver
  | .call _ args _ => .call hI (Expr.correspondArgs hx hI hΓ args)
  | .send e _ args _ => .send hI (Expr.corresponds hx hI hΓ e) (Expr.correspondArgs hx hI hΓ args)
  | .member e _ _ => .member hI (Expr.corresponds hx hI hΓ e)
  | .binary _ a b _ => .binary hI (Expr.corresponds hx hI hΓ a) (Expr.corresponds hx hI hΓ b)
  | .unary op e _ => by
    by_cases hn : op.Folds e
    · match op, e, hn with
      | .negate, .number n sp, _ => exact .negated n sp
    · exact .unary hI (Expr.corresponds hx hI hΓ e) hn
  | .addressOf e _ => .addressOf (Expr.corresponds hx hI hΓ e)
  | .arrayNew _ e _ => .arrayNew hx (Expr.corresponds hx hI hΓ e)
  | .cast e _ _ => .cast hx (Expr.corresponds hx hI hΓ e)
  | .index a i _ => .index (Expr.corresponds hx hI hΓ a) (Expr.corresponds hx hI hΓ i)

theorem Expr.correspondArgs (hx : x.interface = u.interface d) (hI : x.interface.OwnNames)
    (hΓ : Γ.OwnNames) : (es : List Expr) → CorrespondArgs s d u x Γ es
  | [] => .nil
  | e :: es => .cons (Expr.corresponds hx hI hΓ e) (Expr.correspondArgs hx hI hΓ es)

end

/-- **A tree that reads as what an expression is elaborated to is what the expression becomes.** -/
theorem Expr.becomes_of_reads (e : Expr) {N : NamedExpr} {t : TypedExpr}
    (hx : x.interface = u.interface d) (hΓ : Γ.OwnNames) (h : e.elaborate x Γ = .ok N)
    (ht : t.Reads s N) : e.Becomes s.registry s.program d u t :=
  e.corresponds hx (hx ▸ u.interface_ownNames d) hΓ h ht

end ClassLang
