import ClassLang.Linkage
import ClassLang.Proofs.BodyPass

/-!
# No dangling handle

Types, classes, methods, variables and scopes refer to each other by handles. `Registry.handles` and
`Program.handles` list all handles that are stored anywhere after resolution, and a handle is in
range if there is something of its number.

* `Sound.registry_handles`, `Sound.program_handles`: in a sound state with well-typed bodies, every
  handle that is stored is in range.
* `chain_getLast?`: the way outward from a scope ends at the global scope.
* `Sound.typeLinkageName_ok`, `Sound.linkageName_ok`: every type and every method has a linkage name.

`Program.Closed` collects what is asked of the result of resolution.
-/

namespace ClassLang

/-! ## The inventory -/

/-- A handle of any sort. -/
inductive Handle where
  | type (id : TypeId)
  | ofClass (id : ClassId)
  | method (id : MethodId)
  | var (id : VariableId)
  | scope (id : ScopeId)

/-- There is something of this number. -/
def Handle.InRange (r : Registry) (p : Program) : Handle → Prop
  | type id => id.index < r.types.size
  | ofClass id => id.index < p.classes.size
  | method id => id.index < p.methods.size
  | var id => id.index < p.vars.size
  | scope id => id.index < p.scopes.size

/-- The handles in what a type is. -/
def TypeKind.handles : TypeKind → List Handle
  | native _ => []
  | ofClass c => [.ofClass c]
  | pointer t => [.type t]
  | array t => [.type t]

/-- The handles in a type and its members. -/
def TypeEntry.handles (e : TypeEntry) : List Handle :=
  e.kind.handles ++ e.members.map fun m => .method m.2

/-- All handles in a registry. -/
def Registry.handles (r : Registry) : List Handle :=
  r.types.toList.flatMap TypeEntry.handles ++ r.classNames.toList.map fun n => .ofClass ⟨n.1⟩

mutual

/-- The handles in a typed expression, its type among them. -/
def TypedExpr.handles : TypedExpr → List Handle
  | .var v ty _ => [.var v, .type ty]
  | .field target f ty _ => .var f :: .type ty :: target.handles
  | .call m args ty _ => .method m :: .type ty :: TypedExpr.handlesAll args
  | .send e m args ty _ => .method m :: .type ty :: (e.handles ++ TypedExpr.handlesAll args)
  | .unary m e ty _ => .method m :: .type ty :: e.handles
  | .binary m a b ty _ => .method m :: .type ty :: (a.handles ++ b.handles)
  | .addressOf e ty _ => .type ty :: e.handles
  | .arrayNew element size ty _ => .type element :: .type ty :: size.handles
  | .index a i ty _ => .type ty :: (a.handles ++ i.handles)
  | .cast e _ ty _ => .type ty :: e.handles
  | .int _ ty _ => [.type ty]
  | .bool _ ty _ => [.type ty]
  | .this ty _ => [.type ty]

/-- The handles in some typed expressions. -/
def TypedExpr.handlesAll : List TypedExpr → List Handle
  | [] => []
  | e :: es => e.handles ++ TypedExpr.handlesAll es

end

mutual

/-- The handles in a typed statement. -/
def TypedStmt.handles : TypedStmt → List Handle
  | .assignment a b _ => a.handles ++ b.handles
  | .ret none _ => []
  | .ret (some e) _ => e.handles
  | .nested b => b.handles
  | .ifElse c yes no _ => c.handles ++ yes.handles ++ no.handles
  | .whileDo c body _ => c.handles ++ body.handles
  | .call e => e.handles

/-- The handles in some typed statements. -/
def TypedStmt.handlesAll : List TypedStmt → List Handle
  | [] => []
  | st :: sts => st.handles ++ TypedStmt.handlesAll sts

/-- The handles in a typed block. -/
def TypedBlock.handles : TypedBlock → List Handle
  | .mk body scope _ => .scope scope :: TypedStmt.handlesAll body

end

/-- The handles in what a variable is. -/
def VariableKind.handles : VariableKind → List Handle
  | field c _ => [.ofClass c]
  | _ => []

/-- The handles in a variable. -/
def Variable.handles (x : Variable) : List Handle := .type x.ty :: x.kind.handles

/-- The handles in a class and its tables. -/
def ClassInfo.handles (i : ClassInfo) : List Handle :=
  .type i.ty :: .scope i.scope ::
    (i.fields.values.map .var ++ i.fieldOrder.map .var ++ i.methods.values.map .method)

/-- The handles in what a method is. -/
def MethodKind.handles : MethodKind → List Handle
  | operator _ ty => [.type ty]
  | _ => []

/-- The handles in a method: its signature, its scope and its body. -/
def Method.handles (g : Method) : List Handle :=
  .type g.result :: (g.owner.toList.map .ofClass ++ g.arguments.map .var ++
    g.receiver.toList.map .var ++ g.scope.toList.map .scope ++
    g.body.toList.flatMap TypedBlock.handles ++ g.kind.handles)

/-- The handles in what a scope belongs to. -/
def ScopeKind.handles : ScopeKind → List Handle
  | ofClass c => [.ofClass c]
  | _ => []

/-- The handles in a scope: where it stands, and what it binds. -/
def Scope.handles (sc : Scope) : List Handle :=
  sc.kind.handles ++ sc.parent.toList.map .scope ++ sc.vars.values.map .var ++
    sc.methods.values.map .method ++ sc.types.values.map .type

/-- All handles in a program. -/
def Program.handles (p : Program) : List Handle :=
  p.classes.toList.flatMap ClassInfo.handles ++ p.methods.toList.flatMap Method.handles ++
    p.vars.toList.flatMap Variable.handles ++ p.scopes.scopes.toList.flatMap Scope.handles ++
    p.classNames.values.map .ofClass ++ p.functions.values.map .method

/-! ## What is there is in range -/

section InRange

variable {r : Registry} {p : Program}

theorem Program.inRange_class {c : ClassId} {i : ClassInfo} (h : p.classAt? c = some i) :
    (Handle.ofClass c).InRange r p := (Array.getElem?_eq_some_iff.1 h).1

theorem Program.inRange_method {m : MethodId} {g : Method} (h : p.methodAt? m = some g) :
    (Handle.method m).InRange r p := (Array.getElem?_eq_some_iff.1 h).1

theorem Program.inRange_var {v : VariableId} {x : Variable} (h : p.varAt? v = some x) :
    (Handle.var v).InRange r p := (Array.getElem?_eq_some_iff.1 h).1

theorem Program.inRange_scope {j : ScopeId} {sc : Scope} (h : p.scopeAt? j = some sc) :
    (Handle.scope j).InRange r p := (Array.getElem?_eq_some_iff.1 h).1

/-- A property of all handles in the elements of an array, from that of the single elements. -/
theorem forall_mem_flatMap_toList {α : Type} {P : Handle → Prop} {a : Array α}
    {f : α → List Handle} (h : ∀ (i : Nat) x, a[i]? = some x → ∀ k ∈ f x, P k) :
    ∀ k ∈ a.toList.flatMap f, P k := by
  intro k hk
  obtain ⟨x, hx, hk⟩ := List.mem_flatMap.1 hk
  obtain ⟨i, hi⟩ := Array.mem_iff_getElem?.1 (Array.mem_toList_iff.1 hx)
  exact h i x hi k hk

/-- A property of all handles in a table, from that of its single entries. -/
theorem forall_mem_map_values {α : Type} {P : Handle → Prop} {t : Std.TreeMap String α}
    {f : α → Handle} (h : ∀ (n : String) x, t[n]? = some x → P (f x)) :
    ∀ k ∈ t.values.map f, P k := by
  intro k hk
  obtain ⟨x, hx, rfl⟩ := List.mem_map.1 hk
  obtain ⟨n, hn⟩ := mem_values.1 hx
  exact h n x hn

end InRange

/-! ## Typed trees -/

theorem TypedExpr.handlesAll_eq (es : List TypedExpr) :
    handlesAll es = es.flatMap TypedExpr.handles := by
  induction es with
  | nil => rw [handlesAll]; rfl
  | cons e es ih => rw [handlesAll, ih, List.flatMap_cons]

theorem TypedStmt.handlesAll_eq (sts : List TypedStmt) :
    handlesAll sts = sts.flatMap TypedStmt.handles := by
  induction sts with
  | nil => rw [handlesAll]; rfl
  | cons st sts ih => rw [handlesAll, ih, List.flatMap_cons]

section Trees

variable {s : Resolver} {t : Conversions} {this : Option TypeId} {result : TypeId}

/-- **The handles in a well-typed expression are in range.** -/
theorem TypedExpr.WellTyped.inRange (hs : s.Sound) (hthis : ∀ ty, this = some ty → s.registry.Has ty)
    {e : TypedExpr} (he : e.WellTyped t s.registry s.program this) :
    ∀ k ∈ e.handles, k.InRange s.registry s.program := by
  -- all arguments of a call
  have all : ∀ {args : List TypedExpr},
      (∀ a ∈ args, ∀ k ∈ a.handles, k.InRange s.registry s.program) →
      ∀ k ∈ handlesAll args, k.InRange s.registry s.program := by
    intro args ih k hk
    rw [handlesAll_eq] at hk
    obtain ⟨a, ha, hk⟩ := List.mem_flatMap.1 hk
    exact ih a ha k hk
  induction he with simp only [handles, List.forall_mem_cons, List.forall_mem_append]
  | var hx _ => exact ⟨Program.inRange_var hx, (hs.vars _ _ hx).ty, List.forall_mem_nil _⟩
  | field _ hx _ _ ih => exact ⟨Program.inRange_var hx, (hs.vars _ _ hx).ty, ih⟩
  | call hg _ _ _ ih => exact ⟨Program.inRange_method hg, (hs.methods _ _ hg).result, all ih⟩
  | send _ hg _ _ _ ih ihs =>
    exact ⟨Program.inRange_method hg, (hs.methods _ _ hg).result, ih, all ihs⟩
  | unary _ hg _ _ ih => exact ⟨Program.inRange_method hg, (hs.methods _ _ hg).result, ih⟩
  | binary _ _ hg _ _ iha ihb =>
    exact ⟨Program.inRange_method hg, (hs.methods _ _ hg).result, iha, ihb⟩
  | addressOf _ _ hk ih => exact ⟨Registry.has_of_kind? hk, ih⟩
  | @arrayNew element size ty sp _ _ hk ih =>
    have hty := Registry.has_of_kind? hk
    exact ⟨Nat.lt_trans (hs.registry.descends ty _ element hk rfl) hty, hty, ih⟩
  | @index a i ty sp _ _ hk _ iha ihi =>
    have hlt := hs.registry.descends a.ty _ ty hk rfl
    exact ⟨Nat.lt_trans hlt (Registry.has_of_kind? hk), iha, ihi⟩
  | cast _ hty ih => exact ⟨hty, ih⟩
  | implicit _ hty _ _ ih => exact ⟨hty, ih⟩
  | int _ _ => exact ⟨hs.registry.has_native .integer, List.forall_mem_nil _⟩
  | bool => exact ⟨hs.registry.has_native .boolean, List.forall_mem_nil _⟩
  | this hty => exact ⟨hthis _ hty, List.forall_mem_nil _⟩

mutual

/-- The handles in a well-typed statement are in range. -/
theorem TypedStmt.WellTyped.inRange (hs : s.Sound) (hthis : ∀ ty, this = some ty → s.registry.Has ty)
    {st : TypedStmt} (hst : st.WellTyped t s.registry s.program this result) :
    ∀ k ∈ st.handles, k.InRange s.registry s.program := by
  cases hst with simp only [TypedStmt.handles, List.forall_mem_append]
  | assignment ha hb _ _ => exact ⟨ha.inRange hs hthis, hb.inRange hs hthis⟩
  | ret _ => exact List.forall_mem_nil _
  | retValue _ he _ => exact he.inRange hs hthis
  | nested hb => exact hb.inRange hs hthis
  | ifElse hc _ hy hn =>
    exact ⟨⟨hc.inRange hs hthis, hy.inRange hs hthis⟩, hn.inRange hs hthis⟩
  | whileDo hc _ hb => exact ⟨hc.inRange hs hthis, hb.inRange hs hthis⟩
  | call he _ => exact he.inRange hs hthis

/-- The handles in a well-typed block are in range. -/
theorem TypedBlock.WellTyped.inRange (hs : s.Sound)
    (hthis : ∀ ty, this = some ty → s.registry.Has ty) {b : TypedBlock}
    (hb : b.WellTyped t s.registry s.program this result) :
    ∀ k ∈ b.handles, k.InRange s.registry s.program := by
  cases hb with
  | mk hsc _ hall =>
    rw [TypedBlock.handles, List.forall_mem_cons, TypedStmt.handlesAll_eq]
    refine ⟨Program.inRange_scope hsc, fun k hk => ?_⟩
    obtain ⟨st, hst, hk⟩ := List.mem_flatMap.1 hk
    exact (hall st hst).inRange hs hthis k hk

end

end Trees

/-! ## All that is stored -/

namespace Resolver

variable {s : Resolver} {t : Conversions}

theorem ClassOk.inRange {c : ClassId} {i : ClassInfo} (h : ClassOk s c i) :
    ∀ k ∈ i.handles, k.InRange s.registry s.program := by
  simp only [ClassInfo.handles, List.forall_mem_cons, List.forall_mem_append]
  refine ⟨Registry.has_of_kind? h.kind, ?_, ⟨?_, ?_⟩, ?_⟩
  · obtain ⟨sc, hsc, -⟩ := h.scope
    exact Program.inRange_scope hsc
  · refine forall_mem_map_values fun n v hv => ?_
    obtain ⟨x, -, hx, -⟩ := h.field n v hv
    exact Program.inRange_var hx
  · refine List.forall_mem_map.2 fun v hv => ?_
    obtain ⟨x, hx⟩ := h.order v hv
    exact Program.inRange_var hx
  · refine forall_mem_map_values fun n m hm => ?_
    obtain ⟨g, hg, -⟩ := h.method n m hm
    exact Program.inRange_method hg

theorem VarOk.inRange {x : Variable} (h : VarOk s x) :
    ∀ k ∈ x.handles, k.InRange s.registry s.program := by
  rw [Variable.handles, List.forall_mem_cons]
  refine ⟨h.ty, ?_⟩
  cases hk : x.kind with
  | field c index =>
    obtain ⟨i, hi⟩ := h.owner c index hk
    rw [VariableKind.handles, List.forall_mem_singleton]
    exact Program.inRange_class hi
  | _ => exact nofun

/-- The handles in a scope are in range. -/
theorem ScopeOk.inRange (hs : s.Sound) {j : ScopeId} {sc : Scope}
    (hj : s.program.scopeAt? j = some sc) : ∀ k ∈ sc.handles, k.InRange s.registry s.program := by
  have h := hs.scopes j sc hj
  simp only [Scope.handles, List.forall_mem_append, List.forall_mem_map, Option.mem_toList]
  refine ⟨⟨⟨⟨?_, fun q hq => ?_⟩, ?_⟩, ?_⟩, ?_⟩
  · cases hk : sc.kind with
    | ofClass c =>
      obtain ⟨-, i, hi, -⟩ := h.ofClass c hk
      rw [ScopeKind.handles, List.forall_mem_singleton]
      exact Program.inRange_class hi
    | _ => exact nofun
  · exact Nat.lt_trans (h.parent q hq) (Array.getElem?_eq_some_iff.1 hj).1
  · intro v hv
    obtain ⟨n, hn⟩ := mem_values.1 hv
    obtain ⟨x, hx, -⟩ := h.var n v hn
    exact Program.inRange_var hx
  · intro m hm
    obtain ⟨n, hn⟩ := mem_values.1 hm
    obtain ⟨g, hg, -⟩ := h.method n m hn
    exact Program.inRange_method hg
  · intro ty hty
    obtain ⟨n, hn⟩ := mem_values.1 hty
    obtain ⟨-, c, i, hi, -, rfl⟩ := h.type n ty hn
    exact Registry.has_of_kind? (hs.classes c i hi).kind

/-- The receiver of a method has a type. -/
theorem Sound.has_receiverType? (hs : s.Sound) {g : Method} {ty : TypeId}
    (h : s.program.receiverType? g = some ty) : s.registry.Has ty := by
  obtain ⟨v, -, hv⟩ := Option.bind_eq_some_iff.1 h
  obtain ⟨x, hx, rfl⟩ := Option.map_eq_some_iff.1 hv
  exact (hs.vars v x hx).ty

/-- The handles in a method are in range. -/
theorem Sound.method_inRange (hs : s.Sound) (hb : s.program.BodiesTyped t s.registry)
    {m : MethodId} {g : Method} (hm : s.program.methodAt? m = some g) :
    ∀ k ∈ g.handles, k.InRange s.registry s.program := by
  have h := hs.methods m g hm
  simp only [Method.handles, List.forall_mem_cons, List.forall_mem_append, List.forall_mem_map,
    Option.mem_toList]
  refine ⟨h.result, ⟨⟨⟨⟨⟨fun c hc => ?_, fun v hv => ?_⟩, fun v hv => ?_⟩, fun j hj => ?_⟩,
    fun k hk => ?_⟩, ?_⟩⟩
  · obtain ⟨i, hi⟩ := h.owner c hc
    exact Program.inRange_class hi
  · obtain ⟨x, hx⟩ := h.argument v hv
    exact Program.inRange_var hx
  · obtain ⟨-, -, x, -, -, hx, -⟩ := h.receiver v hv
    exact Program.inRange_var hx
  · obtain ⟨sc, -, hsc, -⟩ := h.scope j hj
    exact Program.inRange_scope hsc
  · obtain ⟨b, hbody, hk⟩ := List.mem_flatMap.1 hk
    have htyped := hb m g b hm (Option.mem_toList.1 hbody)
    exact htyped.inRange hs (fun ty hty => hs.has_receiverType? hty) k hk
  · cases hk : g.kind with
    | operator symbol ty =>
      rw [MethodKind.handles, List.forall_mem_singleton]
      exact (h.operand symbol ty hk).1
    | _ => exact nofun

theorem Sound.entry_inRange (hs : s.Sound) (id : TypeId) {e : TypeEntry}
    (he : s.registry.entry? id = some e) : ∀ k ∈ e.handles, k.InRange s.registry s.program := by
  have hk : s.registry.kind? id = some e.kind := by unfold Registry.kind?; rw [he]; rfl
  have hlt : id.index < s.registry.types.size := Registry.has_of_kind? hk
  rw [TypeEntry.handles, List.forall_mem_append, List.forall_mem_map]
  refine ⟨?_, fun m hm => ?_⟩
  · cases hkind : e.kind with
    | native k => exact nofun
    | ofClass c =>
      rw [hkind] at hk
      obtain ⟨i, hi, -⟩ := hs.classType id c hk
      rw [TypeKind.handles, List.forall_mem_singleton]
      exact Program.inRange_class hi
    | pointer target =>
      rw [TypeKind.handles, List.forall_mem_singleton]
      exact Nat.lt_trans (hs.registry.descends id _ target (hkind ▸ hk) rfl) hlt
    | array element =>
      rw [TypeKind.handles, List.forall_mem_singleton]
      exact Nat.lt_trans (hs.registry.descends id _ element (hkind ▸ hk) rfl) hlt
  · obtain ⟨g, hg, -⟩ := hs.member id e m.1 m.2 he hm
    exact Program.inRange_method hg

/-- **Every handle in the registry of a sound state is in range.** -/
theorem Sound.registry_handles (hs : s.Sound) :
    ∀ k ∈ s.registry.handles, k.InRange s.registry s.program := by
  rw [Registry.handles, List.forall_mem_append, List.forall_mem_map]
  refine ⟨forall_mem_flatMap_toList fun i e he => hs.entry_inRange ⟨i⟩ he, ?_⟩
  rintro ⟨c, n⟩ hmem
  obtain ⟨i, hi⟩ := hs.named ⟨c⟩ n (Std.TreeMap.mem_toList_iff_getElem?_eq_some.1 hmem)
  exact Program.inRange_class hi

/-- **Every handle in the program of a sound state with well-typed bodies is in range.** -/
theorem Sound.program_handles (hs : s.Sound) (hb : s.program.BodiesTyped t s.registry) :
    ∀ k ∈ s.program.handles, k.InRange s.registry s.program := by
  simp only [Program.handles, List.forall_mem_append]
  refine ⟨⟨⟨⟨⟨?_, ?_⟩, ?_⟩, ?_⟩, ?_⟩, ?_⟩
  · exact forall_mem_flatMap_toList fun i c hc => (hs.classes ⟨i⟩ c hc).inRange
  · exact forall_mem_flatMap_toList fun i g hg => hs.method_inRange hb (m := ⟨i⟩) hg
  · exact forall_mem_flatMap_toList fun i x hx => (hs.vars ⟨i⟩ x hx).inRange
  · exact forall_mem_flatMap_toList fun i sc hsc => ScopeOk.inRange hs (j := ⟨i⟩) hsc
  · refine forall_mem_map_values fun n c hc => ?_
    obtain ⟨i, hi⟩ := hs.className n c hc
    exact Program.inRange_class hi
  · refine forall_mem_map_values fun n m hm => ?_
    obtain ⟨g, hg⟩ := hs.function n m hm
    exact Program.inRange_method hg

end Resolver

/-! ## Walks that end -/

/-- **The way outward ends at the global scope**, from every scope. -/
theorem Resolver.Sound.chain_getLast? {s : Resolver} (hs : s.Sound) :
    ∀ (n : Nat) (j : ScopeId) (sc : Scope), j.index = n → s.program.scopeAt? j = some sc →
      (s.program.scopes.chain j).getLast? = s.program.scopeAt? ScopeTree.globalId := by
  intro n
  -- a parent has a smaller number
  induction n using Nat.strongRecOn with
  | ind n ih =>
    intro j sc hn hj
    have hok := hs.scopes j sc hj
    have hchain : s.program.scopes.chain j = _ := ScopeTree.chain_eq hs.rooted hj
    rw [hchain]
    cases hp : sc.parent with
    | none =>
      have hglobal := hok.inside.1 hp
      subst hglobal
      exact hj.symm
    | some q =>
      have hlt := hok.parent q hp
      obtain ⟨sq, hq⟩ := hs.scope_of_lt hj hp
      have hrest := ih q.index (hn ▸ hlt) q sq rfl hq
      obtain ⟨global, hg⟩ := hs.global
      rw [hg] at hrest ⊢
      simp only [List.getLast?_cons, hrest, Option.getD_some]

/-- A type with a meaning can be written into a linkage name. -/
theorem Shape.linkage_snd {classes : ClassId → Option String} {sh : Shape} {T : Ty}
    (h : sh.ty? classes = some T) : (sh.linkage classes).2 = none := by
  induction sh generalizing T with
  | native k => rfl
  | ofClass c =>
    obtain ⟨n, hn, -⟩ := Option.map_eq_some_iff.1 h
    rw [linkage, hn]
  | pointer target ih | array element ih =>
    obtain ⟨T', hT', -⟩ := Option.map_eq_some_iff.1 h
    exact ih hT'
  | unknown id => cases h

namespace Resolver

variable {s : Resolver}

/-- **Every type has a linkage name.** -/
theorem Sound.typeLinkageName_ok (hs : s.Sound) {id : TypeId} (hi : s.registry.Has id) :
    ∃ text, s.registry.typeLinkageName id = .ok text := by
  obtain ⟨T, hT⟩ := hs.meaning?_isSome hi
  have hnone := Shape.linkage_snd hT
  unfold Registry.typeLinkageName
  cases hl : s.registry.typeLinkage id with
  | mk text fault =>
    have hfault : fault = none := by
      rw [← hnone]
      exact congrArg Prod.snd hl.symm
    subst hfault
    exact ⟨text, rfl⟩

theorem Sound.typeLinkageNames_ok (hs : s.Sound) {tys : List TypeId}
    (h : ∀ ty ∈ tys, s.registry.Has ty) :
    ∃ texts, tys.mapM s.registry.typeLinkageName = .ok texts := by
  induction tys with
  | nil => exact ⟨[], rfl⟩
  | cons ty tys ih =>
    obtain ⟨text, htext⟩ := hs.typeLinkageName_ok (h ty List.mem_cons_self)
    obtain ⟨texts, htexts⟩ := ih fun ty' h' => h ty' (List.mem_cons_of_mem _ h')
    exact ⟨text :: texts, by rw [List.mapM_cons, htext, htexts]; rfl⟩

/-- **Every method has a linkage name.** -/
theorem Sound.linkageName_ok (hs : s.Sound) {m : MethodId} {g : Method}
    (hm : s.program.methodAt? m = some g) :
    ∃ text, s.program.linkageName s.registry m = .ok text := by
  obtain ⟨sig, tys, -, htys, hps, -⟩ := hs.signatureOf?_isSome hm
  have hparameters := parameterTypes_eq hm htys
  -- the types of the parameters are in the registry
  have hhas : ∀ ty ∈ tys, s.registry.Has ty := by
    intro ty hty
    have hmem : s.registry.meaning? ty ∈ tys.map s.registry.meaning? := List.mem_map_of_mem hty
    rw [hps] at hmem
    obtain ⟨T, -, hT⟩ := List.mem_map.1 hmem
    exact Registry.has_of_meaning? hs.registry hT.symm
  obtain ⟨texts, htexts⟩ := hs.typeLinkageNames_ok hhas
  have howner : ∃ text, s.program.ownerLinkage g = .ok text := by
    unfold Program.ownerLinkage
    cases ho : g.owner with
    | none => exact ⟨"", rfl⟩
    | some c =>
      obtain ⟨i, hi⟩ := (hs.methods m g hm).owner c ho
      refine ⟨sized i.name, ?_⟩
      show (do return sized (← s.program.getClass c).name) = _
      rw [Program.getClass_eq hi]
      rfl
  obtain ⟨owner, howner⟩ := howner
  unfold Program.linkageName
  rw [Program.getMethod_eq hm]
  by_cases hext : (g.owner.isNone && g.isExternal) = true
  · exact ⟨g.name, by simp only [bind, Except.bind, if_pos hext]; rfl⟩
  · refine ⟨"_M" ++ owner ++ sized g.name ++ (if texts.isEmpty then "v" else String.join texts), ?_⟩
    simp only [bind, Except.bind, if_neg hext, howner, hparameters, htexts]
    rfl

end Resolver

/-! ## Closed results -/

/-- **A program with nothing dangling**: all handles are in range, wholes come after their parts and
scopes after those around them. So every walk down a type and every walk outward through scopes ends
by itself, with as many steps as one likes, and every type and method can be named. -/
structure Program.Closed (r : Registry) (p : Program) : Prop where
  inRange : ∀ k ∈ r.handles ++ p.handles, k.InRange r p
  parts : ∀ id k t, r.kind? id = some k → k.part? = some t → t.index < id.index
  inside : ∀ j sc, p.scopeAt? j = some sc → j ≠ ScopeTree.globalId →
    ∃ q, sc.parent = some q ∧ q.index < j.index
  outward : ∃ global, p.scopeAt? ScopeTree.globalId = some global ∧ global.parent = none ∧
    ∀ j : ScopeId, j.index < p.scopes.size → (p.scopes.chain j).getLast? = some global ∧
      ∀ n, p.scopes.size ≤ n → p.scopes.chainWithin n j = p.scopes.chain j
  downward : ∀ id : TypeId, id.index < r.types.size → (∃ T, r.meaning? id = some T) ∧
    ∀ n, r.types.size ≤ n → r.shapeWithin n id = r.shape id
  typeNames : ∀ id : TypeId, id.index < r.types.size → ∃ text, r.typeLinkageName id = .ok text
  methodNames : ∀ m : MethodId, m.index < p.methods.size → ∃ text, p.linkageName r m = .ok text

/-- **A sound state with well-typed bodies is closed.** -/
theorem Resolver.Sound.closed {s : Resolver} {t : Conversions} (hs : s.Sound)
    (hb : s.program.BodiesTyped t s.registry) : s.program.Closed s.registry where
  inRange := List.forall_mem_append.2 ⟨hs.registry_handles, hs.program_handles hb⟩
  parts := hs.registry.descends
  inside j sc hj hne := by
    have hok := hs.scopes j sc hj
    cases hp : sc.parent with
    | none => exact absurd (hok.inside.1 hp) hne
    | some q => exact ⟨q, rfl, hok.parent q hp⟩
  outward := by
    obtain ⟨global, hg⟩ := hs.global
    refine ⟨global, hg, (hs.scopes _ _ hg).inside.2 rfl, fun j hj => ⟨?_, fun n hn => ?_⟩⟩
    · rw [hs.chain_getLast? j.index j _ rfl (Array.getElem?_eq_getElem hj), hg]
    · exact ScopeTree.chainWithin_stable hs.rooted n _ j (Nat.lt_of_lt_of_le hj hn) hj
  downward id hid := by
    refine ⟨hs.meaning?_isSome hid, fun n hn => ?_⟩
    exact Registry.shapeWithin_stable hs.registry n _ id (Nat.lt_of_lt_of_le hid hn)
      (Nat.lt_succ_of_lt hid)
  typeNames _ hid := hs.typeLinkageName_ok hid
  methodNames _ hm := hs.linkageName_ok (Array.getElem?_eq_getElem hm)

end ClassLang
