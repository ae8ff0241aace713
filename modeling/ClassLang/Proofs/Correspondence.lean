import ClassLang.Proofs.ScopingUnit

/-!
# Bodies correspond node by node

Each node of a body becomes one node, with the same parts in the same order and at the same place,
and what it names becomes an entity of that name. Nothing is dropped, swapped or done twice. What is
added is told apart: a receiver that is not written, and the conversions of arguments, right
operands, sizes and indices.

* `Expr.Becomes`, `Stmt.Becomes`, `Block.Becomes`: what a tree becomes. A statement says which
  variables are declared in it.
* `TypedExpr.Reads`: the reading of a tree without numbers, node by node.
* `Interface.OwnNames`, `Env.OwnNames`: whatever is found under a name has that name.
-/

namespace ClassLang

/-! ## Entities by name -/

namespace Program

variable (p : Program)

/-- A local variable or an argument of this name. -/
def LocalNamed (v : VariableId) (n : String) : Prop :=
  ∃ x, p.varAt? v = some x ∧ x.name = n ∧ (x.kind = .localVar ∨ ∃ i, x.kind = .argument i)

/-- A field of this name. -/
def FieldNamed (v : VariableId) (n : String) : Prop :=
  ∃ x, p.varAt? v = some x ∧ x.name = n ∧ ∃ c i, x.kind = .field c i

/-- A method, function or operator of this name. -/
def MethodNamed (m : MethodId) (n : String) : Prop := ∃ g, p.methodAt? m = some g ∧ g.name = n

/-- A method of a class, not a function or an operator of a type that is built in. -/
def IsMember (m : MethodId) : Prop := ∃ g, p.methodAt? m = some g ∧ g.owner.isSome

/-- The variable that a declaration has entered. -/
def Enters (w : Declaration) (ty : TypeId) : Prop :=
  p.varAt? w.id = some ⟨w.name, ty, .localVar, none, w.span⟩

end Program

/-- The type that is written has this number. -/
def TypeName.Becomes (r : Registry) (d : Dialect) (u : CompilationUnit) (type : TypeName)
    (ty : TypeId) : Prop :=
  ∃ T, type.denoted? d u = some T ∧ r.meaning? ty = some T

/-! ## What trees become -/

section

variable (r : Registry) (p : Program) (d : Dialect) (u : CompilationUnit)

mutual

/-- **What an expression becomes.** A bare name is a variable, a field or a call without arguments.
Fields and the methods of the class are used on the receiver, which is not written then. A negated
number is a number. Only where `TypedExpr.Converts` stands may a conversion be added. -/
inductive Expr.Becomes : Expr → TypedExpr → Prop where
  | number {n ty span} : Expr.Becomes (.number n span) (.int n ty span)
  | negative {n ty sp span} :
      Expr.Becomes (.unary .negate (.number n sp) span) (.int (-(n : Int)) ty span)
  | boolean {b ty span} : Expr.Becomes (.boolean b span) (.bool b ty span)
  | variable {n v ty span} : p.LocalNamed v n → Expr.Becomes (.symbol n span) (.var v ty span)
  | field {n v own ty span} : p.FieldNamed v n →
      Expr.Becomes (.symbol n span) (.field (.this own span) v ty span)
  | bareMethod {n m own ty span} : p.MethodNamed m n → p.IsMember m →
      Expr.Becomes (.symbol n span) (.send (.this own span) m [] ty span)
  | bareFunction {n m ty span} : p.MethodNamed m n → ¬ p.IsMember m →
      Expr.Becomes (.symbol n span) (.call m [] ty span)
  | receiverName {ty span} : Expr.Becomes (.symbol "this" span) (.this ty span)
  | receiver {ty span} : Expr.Becomes (.this span) (.this ty span)
  | callMethod {n args ts m own ty span} : p.MethodNamed m n → p.IsMember m →
      Expr.BecomesArgs args ts →
      Expr.Becomes (.call n args span) (.send (.this own span) m ts ty span)
  | callFunction {n args ts m ty span} : p.MethodNamed m n → ¬ p.IsMember m →
      Expr.BecomesArgs args ts → Expr.Becomes (.call n args span) (.call m ts ty span)
  | send {e t n args ts m ty span} : Expr.Becomes e t → p.MethodNamed m n →
      Expr.BecomesArgs args ts → Expr.Becomes (.send e n args span) (.send t m ts ty span)
  | memberField {e t n v ty span} : Expr.Becomes e t → p.FieldNamed v n →
      Expr.Becomes (.member e n span) (.field t v ty span)
  | memberMethod {e t n m ty span} : Expr.Becomes e t → p.MethodNamed m n →
      Expr.Becomes (.member e n span) (.send t m [] ty span)
  | binary {op a b l r r' m ty span} : Expr.Becomes a l → Expr.Becomes b r → r.Converts r' →
      p.MethodNamed m op.symbol → Expr.Becomes (.binary op a b span) (.binary m l r' ty span)
  | unary {op e t m ty span} : ¬ op.Folds e → Expr.Becomes e t → p.MethodNamed m op.symbol →
      Expr.Becomes (.unary op e span) (.unary m t ty span)
  | addressOf {e t ty span} : Expr.Becomes e t →
      Expr.Becomes (.addressOf e span) (.addressOf t ty span)
  | arrayNew {type e t t' element ty span} : type.Becomes r d u element → Expr.Becomes e t →
      t.Converts t' → Expr.Becomes (.arrayNew type e span) (.arrayNew element t' ty span)
  | cast {e t type ty span} : Expr.Becomes e t → type.Becomes r d u ty →
      Expr.Becomes (.cast e type span) (.cast t false ty span)
  | index {a i l r r' ty span} : Expr.Becomes a l → Expr.Becomes i r → r.Converts r' →
      Expr.Becomes (.index a i span) (.index l r' ty span)

/-- What the arguments of a call become, one by one. -/
inductive Expr.BecomesArgs : List Expr → List TypedExpr → Prop where
  | nil : Expr.BecomesArgs [] []
  | cons {e es t t' ts} : Expr.Becomes e t → t.Converts t' → Expr.BecomesArgs es ts →
      Expr.BecomesArgs (e :: es) (t' :: ts)

end

/-- What an expression that may be missing becomes. -/
inductive Expr.BecomesOptional : Option Expr → Option TypedExpr → Prop where
  | none : BecomesOptional none none
  | some {e t} : e.Becomes r p d u t → BecomesOptional (some e) (some t)

mutual

/-- **What a statement becomes**, if it leaves anything, and the declarations in it. A variable that
is declared with a value is assigned it, and one without leaves no statement; a missing `else` is
an empty block. -/
inductive Stmt.Becomes : Stmt → Option TypedStmt → List Declaration → Prop where
  | expression {e t span} : e.Becomes r p d u t →
      Stmt.Becomes (.expression e span) (some (.call t)) []
  | assignment {a b l r' span} : a.Becomes r p d u l → b.Becomes r p d u r' →
      Stmt.Becomes (.assignment a b span) (some (.assignment l r' span)) []
  | ret {value t span} : Expr.BecomesOptional r p d u value t →
      Stmt.Becomes (.ret value span) (some (.ret t span)) []
  | varDecl {n type v ty span} : p.Enters ⟨v, n, span⟩ ty →
      Stmt.Becomes (.varDecl n type none span) none [⟨v, n, span⟩]
  | varInit {n type e t v ty span} : p.Enters ⟨v, n, span⟩ ty → type.Becomes r d u ty →
      e.Becomes r p d u t → Stmt.Becomes (.varDecl n type (some e) span)
        (some (.assignment (.var v ty span) t span)) [⟨v, n, span⟩]
  | ifElse {c yes no t y z span ds ds'} : c.Becomes r p d u t → Block.Becomes yes y ds →
      Block.Becomes no z ds' →
      Stmt.Becomes (.ifElse c yes no span) (some (.ifElse t y z span)) (ds ++ ds')
  | ifThen {c yes t y l span ds} : c.Becomes r p d u t → Block.Becomes yes y ds →
      Stmt.Becomes (.ifThen c yes span) (some (.ifElse t y (.mk [] l span) span)) ds
  | whileDo {c body t b span ds} : c.Becomes r p d u t → Block.Becomes body b ds →
      Stmt.Becomes (.whileDo c body span) (some (.whileDo t b span)) ds
  | nested {block b ds} : Block.Becomes block b ds →
      Stmt.Becomes (.nested block) (some (.nested b)) ds

/-- What statements become, one after the other. -/
inductive Stmt.BecomesAll : List Stmt → List TypedStmt → List Declaration → Prop where
  | nil : Stmt.BecomesAll [] [] []
  | cons {st o rest ts ds ds'} : Stmt.Becomes st o ds → Stmt.BecomesAll rest ts ds' →
      Stmt.BecomesAll (st :: rest) (o.toList ++ ts) (ds ++ ds')

/-- What a block becomes. -/
inductive Block.Becomes : Block → TypedBlock → List Declaration → Prop where
  | mk {body ts l span ds} : Stmt.BecomesAll body ts ds →
      Block.Becomes (.mk body span) (.mk ts l span) ds

end

end

/-! ## Reading node by node -/

mutual

/-- **The reading of an expression**, node by node. -/
inductive TypedExpr.Reads (s : Resolver) : TypedExpr → NamedExpr → Prop where
  | var {v y ty T span} : s.namedVar? v = some y → s.registry.meaning? ty = some T →
      TypedExpr.Reads s (.var v ty span) (.var y T span)
  | field {t N v y ty T span} : TypedExpr.Reads s t N → s.namedVar? v = some y →
      TypedExpr.Reads s (.field t v ty span) (.field N y T span)
  | call {m n ts Ns ty T span} : s.methodName? m = some n → TypedExpr.ReadsAll s ts Ns →
      TypedExpr.Reads s (.call m ts ty span) (.call n Ns T span)
  | send {t N m n ts Ns ty T span} : TypedExpr.Reads s t N → s.methodName? m = some n →
      TypedExpr.ReadsAll s ts Ns → TypedExpr.Reads s (.send t m ts ty span) (.send N n Ns T span)
  | unary {m n t N ty T span} : s.methodName? m = some n → TypedExpr.Reads s t N →
      TypedExpr.Reads s (.unary m t ty span) (.unary n N T span)
  | binary {m n l L r R ty T span} : s.methodName? m = some n → TypedExpr.Reads s l L →
      TypedExpr.Reads s r R → TypedExpr.Reads s (.binary m l r ty span) (.binary n L R T span)
  | addressOf {t N ty T span} : TypedExpr.Reads s t N →
      TypedExpr.Reads s (.addressOf t ty span) (.addressOf N T span)
  | arrayNew {el E t N ty T span} : s.registry.meaning? el = some E → TypedExpr.Reads s t N →
      TypedExpr.Reads s (.arrayNew el t ty span) (.arrayNew E N T span)
  | index {l L r R ty T span} : TypedExpr.Reads s l L → TypedExpr.Reads s r R →
      TypedExpr.Reads s (.index l r ty span) (.index L R T span)
  | cast {t N b ty T span} : TypedExpr.Reads s t N → s.registry.meaning? ty = some T →
      TypedExpr.Reads s (.cast t b ty span) (.cast N b T span)
  | int {v ty T span} : TypedExpr.Reads s (.int v ty span) (.int v T span)
  | bool {b ty T span} : TypedExpr.Reads s (.bool b ty span) (.bool b T span)
  | this {ty T span} : TypedExpr.Reads s (.this ty span) (.this T span)

/-- The reading of expressions, one by one. -/
inductive TypedExpr.ReadsAll (s : Resolver) : List TypedExpr → List NamedExpr → Prop where
  | nil : TypedExpr.ReadsAll s [] []
  | cons {t N ts Ns} : TypedExpr.Reads s t N → TypedExpr.ReadsAll s ts Ns →
      TypedExpr.ReadsAll s (t :: ts) (N :: Ns)

end

section

variable {s : Resolver}

mutual

/-- What can be read is read node by node. -/
theorem TypedExpr.reads_of_named? (t : TypedExpr) {N : NamedExpr} (h : t.named? s = some N) :
    t.Reads s N := by
  cases t <;> simp only [TypedExpr.named?, Option.bind_eq_bind, Option.bind_eq_some_iff] at h
  case var v ty span =>
    obtain ⟨y, hy, T, hT, ⟨⟩⟩ := h
    exact .var hy hT
  case field t v ty span =>
    obtain ⟨N, hN, y, hy, T, -, ⟨⟩⟩ := h
    exact .field (reads_of_named? t hN) hy
  case call m ts ty span =>
    obtain ⟨n, hn, Ns, hNs, T, -, ⟨⟩⟩ := h
    exact .call hn (readsAll_of_namedAll? ts hNs)
  case send t m ts ty span =>
    obtain ⟨N, hN, n, hn, Ns, hNs, T, -, ⟨⟩⟩ := h
    exact .send (reads_of_named? t hN) hn (readsAll_of_namedAll? ts hNs)
  case unary m t ty span =>
    obtain ⟨n, hn, N, hN, T, -, ⟨⟩⟩ := h
    exact .unary hn (reads_of_named? t hN)
  case binary m l r ty span =>
    obtain ⟨n, hn, L, hL, R, hR, T, -, ⟨⟩⟩ := h
    exact .binary hn (reads_of_named? l hL) (reads_of_named? r hR)
  case addressOf t ty span =>
    obtain ⟨N, hN, T, -, ⟨⟩⟩ := h
    exact .addressOf (reads_of_named? t hN)
  case arrayNew el t ty span =>
    obtain ⟨E, hE, N, hN, T, -, ⟨⟩⟩ := h
    exact .arrayNew hE (reads_of_named? t hN)
  case index l r ty span =>
    obtain ⟨L, hL, R, hR, T, -, ⟨⟩⟩ := h
    exact .index (reads_of_named? l hL) (reads_of_named? r hR)
  case cast t b ty span =>
    obtain ⟨N, hN, T, hT, ⟨⟩⟩ := h
    exact .cast (reads_of_named? t hN) hT
  case int v ty span =>
    obtain ⟨T, -, ⟨⟩⟩ := h
    exact .int
  case bool b ty span =>
    obtain ⟨T, -, ⟨⟩⟩ := h
    exact .bool
  case this ty span =>
    obtain ⟨T, -, ⟨⟩⟩ := h
    exact .this

theorem TypedExpr.readsAll_of_namedAll? (ts : List TypedExpr) {Ns : List NamedExpr}
    (h : TypedExpr.namedAll? s ts = some Ns) : TypedExpr.ReadsAll s ts Ns := by
  cases ts with
  | nil => cases h; exact .nil
  | cons t ts =>
    simp only [TypedExpr.namedAll?, Option.bind_eq_bind, Option.bind_eq_some_iff] at h
    obtain ⟨N, hN, Ns, hNs, ⟨⟩⟩ := h
    exact .cons (reads_of_named? t hN) (readsAll_of_namedAll? ts hNs)

end

theorem TypedExpr.Reads.span_eq {t : TypedExpr} {N : NamedExpr} (h : t.Reads s N) :
    t.span = N.span := by
  cases h <;> rfl

end

/-! ## What names stand for -/

/-- **An interface lists things under their own names.** -/
structure Interface.OwnNames (I : Interface) : Prop where
  field : ∀ {c n v}, I.field? c n = some v → v.name = n ∧ ∃ o i, v.role = .field o i
  method : ∀ {c n k}, I.method? c n = some k → k.method.name = n
  function : ∀ {n k}, I.function? n = some k → k.method.name = n

theorem MethodDecl.callee?_name {d : Dialect} {u : CompilationUnit} {owner : Option String}
    {m : MethodDecl} {k : Callee} (h : m.callee? d u owner = some k) : k.method.name = m.name := by
  obtain ⟨sig, -, rfl⟩ := Option.map_eq_some_iff.1 h
  rfl

/-- What is found under a name has this name. -/
theorem CompilationUnit.interface_ownNames (d : Dialect) (u : CompilationUnit) :
    (u.interface d).OwnNames where
  field {c n v} h := by
    obtain ⟨decl, -, hv⟩ := Option.bind_eq_some_iff.1 h
    obtain ⟨f, hf, hv⟩ := Option.bind_eq_some_iff.1 hv
    obtain ⟨T, -, rfl⟩ := Option.map_eq_some_iff.1 hv
    exact ⟨by simpa using List.find?_some hf, decl.name, f.2, rfl⟩
  method {c n k} h := by
    obtain ⟨decl, -, hk⟩ := Option.bind_eq_some_iff.1 h
    obtain ⟨m, hm, hk⟩ := Option.bind_eq_some_iff.1 hk
    rw [MethodDecl.callee?_name hk]
    simpa using List.find?_some hm
  function {n k} h := by
    obtain ⟨f, hf, hk⟩ := Option.bind_eq_some_iff.1 h
    rw [MethodDecl.callee?_name hk]
    simpa using List.find?_some hf

/-- Blocks bind variables under their own names, and only `this` is the receiver. -/
def Env.OwnNames (Γ : Env) : Prop :=
  ∀ names ∈ Γ, ∀ q ∈ names, q.2.name = q.1 ∧ (q.2.role = .receiver → q.1 = "this")

section

variable {s : Resolver} {I : Interface} {x : BodyContext} {Γ : Env} {T : Ty} {n : String}
  {k : Callee} {v : NamedVariable} {span : Span} {N : NamedExpr} {t : TypedExpr}

theorem Env.OwnNames.find? (hΓ : Γ.OwnNames) (h : Γ.find? n = some v) :
    v.name = n ∧ (v.role = .receiver → n = "this") := by
  obtain ⟨names, hnames, hlookup⟩ := List.exists_of_findSome?_eq_some h
  obtain ⟨l, l', rfl, -⟩ := List.lookup_eq_some_iff.1 hlookup
  exact hΓ _ hnames (n, v) (by simp)

theorem Interface.OwnNames.callees (hI : I.OwnNames) (h : k ∈ T.callees I n) :
    k.method.name = n := by
  cases T with
  | native K =>
    obtain ⟨sig, -, rfl⟩ := List.mem_map.1 h
    rfl
  | ofClass c => exact hI.method (Option.mem_toList.1 h)
  | pointer T => cases h
  | array T => cases h

theorem Interface.OwnNames.fieldOf? (hI : I.OwnNames) (h : T.fieldOf? I n = some v) :
    v.name = n ∧ ∃ o i, v.role = .field o i := by
  cases T with
  | ofClass c => exact hI.field h
  | native K => cases h
  | pointer T => cases h
  | array T => cases h

theorem Interface.OwnNames.method? (hI : x.interface.OwnNames) (h : x.method? n = some k) :
    k.method.name = n := by
  rcases Option.or_eq_some_iff.1 h with h | ⟨-, h⟩
  · obtain ⟨c, -, h⟩ := Option.bind_eq_some_iff.1 h
    exact hI.method h
  · exact hI.function h

/-- The operator that is chosen is one of the candidates. -/
theorem NamedExpr.mem_of_choose? {c : Conversions} {ks : List Callee} {P : Ty}
    (h : N.choose? c ks = some (k, P)) : k ∈ ks := by
  -- the exact match and the only one that fits by conversion come from one list
  have htaken : (k, P) ∈ ks.filterMap fun k => k.parameter?.map fun P => (k, P) := by
    unfold choose? at h
    dsimp only at h
    split at h
    next q hq => exact Option.some.inj h ▸ List.mem_of_find?_eq_some hq
    next =>
      split at h
      next q hq =>
        cases h
        exact (List.mem_filter.1 (hq ▸ List.mem_singleton_self _)).1
      next => cases h
  obtain ⟨k', hk', htake⟩ := List.mem_filterMap.1 htaken
  obtain ⟨P', -, ⟨⟩⟩ := Option.map_eq_some_iff.1 htake
  exact hk'

/-! ## Steps on expressions -/

theorem Resolver.localNamed_of_namedVar? {w : VariableId} (h : s.namedVar? w = some v)
    (hrole : v.role = .localVar ∨ ∃ i, v.role = .argument i) : s.program.LocalNamed w v.name := by
  obtain ⟨y, hy, hname, hkind, -⟩ := namedVar?_eq_some_iff.1 h
  refine ⟨y, hy, hname, ?_⟩
  cases hk : y.kind with
  | localVar => exact .inl rfl
  | argument i => exact .inr ⟨i, rfl⟩
  | field c i =>
    rw [hk] at hkind
    obtain ⟨c', -, hr⟩ := Option.map_eq_some_iff.1 hkind
    simp [← hr] at hrole
  | receiver =>
    rw [hk] at hkind
    simp [← Option.some.inj hkind] at hrole

theorem Resolver.fieldNamed_of_namedVar? {w : VariableId} (h : s.namedVar? w = some v)
    (hrole : ∃ o i, v.role = .field o i) : s.program.FieldNamed w v.name := by
  obtain ⟨y, hy, hname, hkind, -⟩ := namedVar?_eq_some_iff.1 h
  obtain ⟨o, i, hr⟩ := hrole
  rw [hr] at hkind
  refine ⟨y, hy, hname, ?_⟩
  cases hk : y.kind with
  | field c j => exact ⟨c, j, rfl⟩
  | localVar | argument j | receiver => rw [hk] at hkind; cases hkind

theorem Resolver.methodNamed_of_methodName? {m : MethodId} {name : MethodName}
    (h : s.methodName? m = some name) : s.program.MethodNamed m name.name := by
  obtain ⟨k, hk, rfl⟩ := Option.map_eq_some_iff.1 h
  obtain ⟨g, hg, -, hname, -⟩ := callee?_eq_some_iff.1 hk
  exact ⟨g, hg, hname⟩

theorem Resolver.isMember_iff {m : MethodId} {name : MethodName} (h : s.methodName? m = some name) :
    s.program.IsMember m ↔ name.owner.isSome := by
  obtain ⟨k, hk, rfl⟩ := Option.map_eq_some_iff.1 h
  obtain ⟨g, hg, howner, -⟩ := callee?_eq_some_iff.1 hk
  -- an owner that can be read is a class, so there is a name exactly where there is a number
  have hsome : g.owner.isSome = k.method.owner.isSome := by
    cases ho : g.owner with
    | none => rw [ho] at howner; rw [← Option.some.inj howner]; rfl
    | some c =>
      rw [ho] at howner
      obtain ⟨c', -, hc⟩ := Option.map_eq_some_iff.1 howner
      rw [← hc]; rfl
  constructor
  · rintro ⟨g', hg', hmember⟩
    cases Option.some.inj (hg'.symm.trans hg)
    exact hsome ▸ hmember
  · exact fun hmember => ⟨g, hg, hsome ▸ hmember⟩

/-- **A conversion** is one node above what is converted, or nothing. -/
theorem TypedExpr.Reads.of_coerce {c : Conversions} {N' : NamedExpr} {t' : TypedExpr}
    (h : N.coerce c T = .ok N') (ht : t'.Reads s N') :
    ∃ t : TypedExpr, t.Reads s N ∧ t.Converts t' := by
  unfold NamedExpr.coerce at h
  split at h
  · cases h
    exact ⟨t', ht, .inl rfl⟩
  · split at h
    · cases h
      cases ht with
      | cast ht hty => exact ⟨_, ht, .inr ⟨_, by rw [ht.span_eq]⟩⟩
    · cases h

theorem TypedExpr.Reads.of_receiver (h : x.receiver span = .ok N) (ht : t.Reads s N) :
    ∃ own, t = .this own span := by
  unfold BodyContext.receiver at h
  split at h
  · cases h
    cases ht with
    | this => exact ⟨_, rfl⟩
  · cases h

/-- The receiver that is not written is `this`, where a method of a class is called. -/
theorem BodyContext.receiver_of_implicit {o : Option NamedExpr}
    (h : x.implicitReceiver k span = .ok o) :
    (o = none ∧ ¬ k.method.owner.isSome) ∨
      ∃ N, o = some N ∧ k.method.owner.isSome ∧ x.receiver span = .ok N := by
  unfold implicitReceiver at h
  split at h
  next c hc =>
    cases hr : x.receiver span with
    | error f => rw [hr] at h; cases h
    | ok N => rw [hr] at h; cases h; exact .inr ⟨N, rfl, by rw [hc]; rfl, rfl⟩
  next hnone =>
    cases h
    exact .inl ⟨rfl, by rw [hnone]; nofun⟩

theorem Interface.OwnNames.method_eq_ok {o : Option NamedExpr} (hI : x.interface.OwnNames)
    (h : x.method n span = .ok (k, o)) :
    k.method.name = n ∧ ((o = none ∧ ¬ k.method.owner.isSome) ∨
      ∃ N, o = some N ∧ k.method.owner.isSome ∧ x.receiver span = .ok N) := by
  unfold BodyContext.method at h
  split at h
  next k' hk =>
    obtain ⟨o', ho, ⟨⟩⟩ := exists_of_bind_eq_ok h
    exact ⟨hI.method? hk, BodyContext.receiver_of_implicit ho⟩
  next => cases h

theorem Interface.OwnNames.callee (hI : I.OwnNames) (h : N.callee I n span = .ok k) :
    k.method.name = n := by
  unfold NamedExpr.callee at h
  split at h
  next k' ks hks =>
    cases h
    exact hI.callees (hks ▸ List.mem_cons_self)
  next => cases h

theorem Interface.OwnNames.ofBinary_eq_ok {op : BinaryOp} {L R : NamedExpr} (hI : I.OwnNames)
    (h : L.ofBinary I op R span = .ok N) :
    ∃ (k : Callee) (P : Ty) (R' : NamedExpr), k.method.name = op.symbol ∧
      R.coerce I.conversions P = .ok R' ∧ N = .binary k.method L R' k.result span := by
  unfold NamedExpr.ofBinary at h
  split at h
  next k P hk =>
    obtain ⟨R', hR, ⟨⟩⟩ := exists_of_bind_eq_ok h
    exact ⟨k, P, R', hI.callees (NamedExpr.mem_of_choose? hk), hR, rfl⟩
  next => cases h

theorem Interface.OwnNames.ofUnary_eq_ok {op : UnaryOp} {M : NamedExpr} (hI : I.OwnNames)
    (h : M.ofUnary I op span = .ok N) :
    ∃ k : Callee, k.method.name = op.symbol ∧ N = .unary k.method M k.result span := by
  unfold NamedExpr.ofUnary at h
  split at h
  next k hk =>
    cases h
    exact ⟨k, hI.callees (List.mem_of_find?_eq_some hk), rfl⟩
  next => cases h

theorem Callee.length_of_takes {count : Nat} (h : k.takes count span = .ok ()) :
    k.method.parameters.length = count := by
  unfold takes at h
  split at h
  · assumption
  · cases h

end

end ClassLang
