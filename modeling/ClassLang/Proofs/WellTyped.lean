import Mathlib.Algebra.Group.Int.Defs
import ClassLang.Decl.Resolve
import ClassLang.Proofs.Steps

/-!
# Well-typed trees

When an expression or statement after resolution is well typed, read off the tree, the registry and
the program alone: every handle leads to an entity of the right sort, the types of all parts are as
the entity says, and every conversion is written out. This is what a code generator relies on.

The rules stay true when types, variables and bodies are added (`WellTyped.mono`).
-/

namespace ClassLang

/-- The type has the method among its members, under the given name. -/
def Registry.Lists (r : Registry) (ty : TypeId) (name : String) (m : MethodId) : Prop :=
  ∃ e, r.entry? ty = some e ∧ (name, m) ∈ e.members

namespace Program

/-- The types of some variables. -/
def typesOf? (p : Program) (vs : List VariableId) : Option (List TypeId) :=
  vs.mapM fun v => (p.varAt? v).map Variable.ty

/-- The type of the receiver of a method, if it has one. -/
def receiverType? (p : Program) (g : Method) : Option TypeId :=
  g.receiver.bind fun v => (p.varAt? v).map Variable.ty

end Program

/-- **Well-typed expressions**, in the body of a method whose receiver has the type `this`. -/
inductive TypedExpr.WellTyped (t : Conversions) (r : Registry) (p : Program)
    (this : Option TypeId) : TypedExpr → Prop where
  | var {v x sp} : p.varAt? v = some x → x.kind = .localVar ∨ (∃ i, x.kind = .argument i) →
      WellTyped t r p this (.var v x.ty sp)
  | field {target f x c i sp} : WellTyped t r p this target → p.varAt? f = some x →
      x.kind = .field c i → r.classOf? target.ty = some c →
      WellTyped t r p this (.field target f x.ty sp)
  | call {m g args sp} : p.methodAt? m = some g → g.owner = none →
      (∀ a ∈ args, WellTyped t r p this a) →
      p.typesOf? g.arguments = some (args.map TypedExpr.ty) →
      WellTyped t r p this (.call m args g.result sp)
  | send {e m g args sp} : WellTyped t r p this e → p.methodAt? m = some g →
      r.Lists e.ty g.name m → (∀ a ∈ args, WellTyped t r p this a) →
      p.typesOf? g.arguments = some (args.map TypedExpr.ty) →
      WellTyped t r p this (.send e m args g.result sp)
  | unary {m g e sp} : WellTyped t r p this e → p.methodAt? m = some g →
      r.Lists e.ty g.name m → g.arguments = [] → WellTyped t r p this (.unary m e g.result sp)
  | binary {m g a b sp} : WellTyped t r p this a → WellTyped t r p this b →
      p.methodAt? m = some g → r.Lists a.ty g.name m → p.typesOf? g.arguments = some [b.ty] →
      WellTyped t r p this (.binary m a b g.result sp)
  | addressOf {e ty sp} : WellTyped t r p this e → e.isPlace = true →
      r.kind? ty = some (.pointer e.ty) → WellTyped t r p this (.addressOf e ty sp)
  | arrayNew {element size ty sp} : WellTyped t r p this size → size.ty = Native.integer.id →
      r.kind? ty = some (.array element) →
      WellTyped t r p this (.arrayNew element size ty sp)
  | index {a i ty sp} : WellTyped t r p this a → WellTyped t r p this i →
      r.kind? a.ty = some (.array ty) → i.ty = Native.integer.id →
      WellTyped t r p this (.index a i ty sp)
  | cast {e ty sp} : WellTyped t r p this e → r.Has ty → WellTyped t r p this (.cast e false ty sp)
  | implicit {e ty sp} : WellTyped t r p this e → r.Has ty → e.ty ≠ ty →
      r.converts t e ty = true → WellTyped t r p this (.cast e true ty sp)
  | int {v sp} : -2 ^ 63 ≤ v → v < 2 ^ 63 → WellTyped t r p this (.int v Native.integer.id sp)
  | bool {b sp} : WellTyped t r p this (.bool b Native.boolean.id sp)
  | this {ty sp} : this = some ty → WellTyped t r p this (.this ty sp)

mutual

/-- **Well-typed statements**, in the body of a method that gives `result`. -/
inductive TypedStmt.WellTyped (t : Conversions) (r : Registry) (p : Program)
    (this : Option TypeId) (result : TypeId) : TypedStmt → Prop where
  | assignment {a b : TypedExpr} {sp} : a.WellTyped t r p this → b.WellTyped t r p this →
      a.isPlace = true → b.ty = a.ty → TypedStmt.WellTyped t r p this result (.assignment a b sp)
  | ret {sp} : result = Native.void.id → TypedStmt.WellTyped t r p this result (.ret none sp)
  | retValue {e : TypedExpr} {sp} : result ≠ Native.void.id → e.WellTyped t r p this →
      e.ty = result → TypedStmt.WellTyped t r p this result (.ret (some e) sp)
  | nested {b} : TypedBlock.WellTyped t r p this result b →
      TypedStmt.WellTyped t r p this result (.nested b)
  | ifElse {c : TypedExpr} {yes no sp} : c.WellTyped t r p this → c.ty = Native.boolean.id →
      TypedBlock.WellTyped t r p this result yes → TypedBlock.WellTyped t r p this result no →
      TypedStmt.WellTyped t r p this result (.ifElse c yes no sp)
  | whileDo {c : TypedExpr} {body sp} : c.WellTyped t r p this → c.ty = Native.boolean.id →
      TypedBlock.WellTyped t r p this result body →
      TypedStmt.WellTyped t r p this result (.whileDo c body sp)
  | call {e : TypedExpr} : e.WellTyped t r p this → e.isCall = true →
      TypedStmt.WellTyped t r p this result (.call e)

/-- **Well-typed blocks**: all their statements are, and their scope is one of the program's. -/
inductive TypedBlock.WellTyped (t : Conversions) (r : Registry) (p : Program)
    (this : Option TypeId) (result : TypeId) : TypedBlock → Prop where
  | mk {body scope sp sc} : p.scopeAt? scope = some sc → sc.kind = .block →
      (∀ st ∈ body, TypedStmt.WellTyped t r p this result st) →
      TypedBlock.WellTyped t r p this result (.mk body scope sp)

end

namespace Resolver

/-- **The body of a method may be resolved**: types, variables and scopes are added, blocks bind
more names, and methods get their bodies. All else stays as it is. -/
structure Extends (s s' : Resolver) : Prop where
  registry : s.registry.Extends s'.registry
  fresh : ∀ id e, s'.registry.entry? id = some e →
    s.registry.Has id ∨ e.members = [] ∧ e.kind.part?.isSome
  noClass : s'.program.classes.size = s.program.classes.size
  tables : s'.program.classNames = s.program.classNames ∧
    s'.program.functions = s.program.functions
  classes : ∀ c i, s.program.classAt? c = some i → s'.program.classAt? c = some i
  methods : ∀ m g, s.program.methodAt? m = some g →
    ∃ b, s'.program.methodAt? m = some { g with body := b }
  vars : ∀ v x, s.program.varAt? v = some x → s'.program.varAt? v = some x
  scopes : ∀ j sc, s.program.scopeAt? j = some sc →
    ∃ sc', s'.program.scopeAt? j = some sc' ∧ sc.Grows sc' ∧ (sc.kind ≠ .block → sc' = sc)

variable {s s' s'' : Resolver}

theorem Frame.extends {j : Option ScopeId} (h : Frame s s' none none j)
    (hj : ∀ l sc, j = some l → s.program.scopeAt? l = some sc → sc.kind = .block) :
    s.Extends s' where
  registry := ⟨fun _ _ => h.keepsType, h.sameNames⟩
  fresh := h.fresh
  noClass := h.noClass
  tables := h.tables
  classes c i hi := h.keepsClass hi
  methods m g hg := ⟨g.body, h.keepsMethod hg⟩
  vars := h.vars
  scopes l sc hsc := by
    obtain ⟨sc', hsc', hg⟩ := h.scopes l sc hsc
    refine ⟨sc', hsc', hg, fun hk => ?_⟩
    have := h.sameScopes l sc hsc fun hl => hk (hj l sc hl hsc)
    rw [hsc'] at this
    cases this; rfl

theorem Frame.extends_of_none (h : Frame s s' none none none) : s.Extends s' := h.extends nofun

theorem Frame.extends_of_block {j : ScopeId} {sc : Scope} (h : Frame s s' none none (some j))
    (hsc : s.program.scopeAt? j = some sc) (hk : sc.kind = .block) : s.Extends s' := by
  refine h.extends fun l sc' hl hsc' => ?_
  cases hl
  rw [hsc] at hsc'
  cases hsc'
  exact hk

theorem Extends.grows (h : s.Extends s') : s.Grows s' where
  types id e he := ⟨e, h.registry.entry id e he, rfl, fun _ hm => hm⟩
  names c n hn := (h.registry.className? c).trans hn
  classes c i hi := ⟨i, h.classes c i hi, rfl, rfl, rfl⟩
  methods m g hg := by
    obtain ⟨b, hb⟩ := h.methods m g hg
    exact ⟨_, hb, rfl, rfl, rfl⟩
  vars := h.vars
  scopes j sc hsc := by
    obtain ⟨sc', hsc', hg, -⟩ := h.scopes j sc hsc
    exact ⟨sc', hsc', hg⟩

theorem Extends.typesOf? (h : s.Extends s') {vs : List VariableId} {tys : List TypeId}
    (hv : s.program.typesOf? vs = some tys) : s'.program.typesOf? vs = some tys := by
  unfold Program.typesOf? at *
  induction vs generalizing tys with
  | nil => exact hv
  | cons v vs ih =>
    simp only [List.mapM_cons, Option.bind_eq_bind, Option.bind_eq_some_iff, Option.pure_def,
      Option.some.injEq, Option.map_eq_some_iff] at hv ⊢
    obtain ⟨ty, ⟨x, hx, rfl⟩, tys', htys, rfl⟩ := hv
    exact ⟨x.ty, ⟨x, h.vars v x hx, rfl⟩, tys', ih htys, rfl⟩

theorem Extends.lists (h : s.Extends s') {ty : TypeId} {n : String} {m : MethodId}
    (hl : s.registry.Lists ty n m) : s'.registry.Lists ty n m := by
  obtain ⟨e, he, hm⟩ := hl
  exact ⟨e, h.registry.entry ty e he, hm⟩

/-- What converts goes on to do so. -/
theorem Extends.converts (h : s.Extends s') {t : Conversions} {e : TypedExpr} {ty : TypeId}
    (hc : s.registry.converts t e ty = true) : s'.registry.converts t e ty = true := by
  -- a native type keeps its number
  have native : ∀ id k, s.registry.nativeOf? id = some k → s'.registry.nativeOf? id = some k := by
    intro id k hk
    unfold Registry.nativeOf? at *
    split at hk
    · rename_i k' hk'
      rw [h.registry.kind? hk']
      exact hk
    · cases hk
  have literal : ∀ v, s.registry.literalConverts t v ty = true →
      s'.registry.literalConverts t v ty = true := by
    intro v hv
    unfold Registry.literalConverts at *
    split at hv
    · rename_i k hk; rw [native ty k hk]; exact hv
    · cases hv
  have widens : s.registry.widens t e.ty ty = true → s'.registry.widens t e.ty ty = true := by
    intro hw
    unfold Registry.widens at *
    split at hw
    · rename_i a b ha hb; rw [native _ a ha, native _ b hb]; exact hw
    · cases hw
  unfold Registry.converts at *
  simp only [Bool.or_eq_true] at *
  rcases hc with hc | hc
  · left
    cases e with
    | int v ty' sp => exact literal v hc
    | _ => cases hc
  · exact .inr (widens hc)

end Resolver

variable {s s' : Resolver} {t : Conversions} {this : Option TypeId} {result : TypeId}

/-- Well-typed expressions stay well typed. -/
theorem TypedExpr.WellTyped.mono (h : s.Extends s') {e : TypedExpr}
    (he : e.WellTyped t s.registry s.program this) : e.WellTyped t s'.registry s'.program this := by
  induction he with
  | var hx hk => exact .var (h.vars _ _ hx) hk
  | field _ hx hk hc ih =>
    refine .field ih (h.vars _ _ hx) hk ?_
    unfold Registry.classOf? at *
    split at hc
    · rename_i c' hk'
      rw [h.registry.kind? hk']
      exact hc
    · cases hc
  | @call m g args sp hg ho _ ht ih =>
    obtain ⟨b, hb⟩ := h.methods m g hg
    exact .call (g := { g with body := b }) hb ho ih (h.typesOf? ht)
  | @send e m g args sp _ hg hl _ ht ih ihs =>
    obtain ⟨b, hb⟩ := h.methods m g hg
    exact .send (g := { g with body := b }) ih hb (h.lists hl) ihs (h.typesOf? ht)
  | @unary m g e sp _ hg hl ha ih =>
    obtain ⟨b, hb⟩ := h.methods m g hg
    exact .unary (g := { g with body := b }) ih hb (h.lists hl) ha
  | @binary m g a b sp _ _ hg hl ht iha ihb =>
    obtain ⟨body, hb⟩ := h.methods m g hg
    exact .binary (g := { g with body := body }) iha ihb hb (h.lists hl) (h.typesOf? ht)
  | addressOf _ hp hk ih => exact .addressOf ih hp (h.registry.kind? hk)
  | arrayNew _ hi hk ih => exact .arrayNew ih hi (h.registry.kind? hk)
  | index _ _ hk hi iha ihi => exact .index iha ihi (h.registry.kind? hk) hi
  | cast _ hty ih => exact .cast ih (h.registry.has hty)
  | implicit _ hty hne hc ih => exact .implicit ih (h.registry.has hty) hne (h.converts hc)
  | int h₁ h₂ => exact .int h₁ h₂
  | bool => exact .bool
  | this hty => exact .this hty

mutual

/-- Well-typed statements stay well typed. -/
theorem TypedStmt.WellTyped.mono (h : s.Extends s') {st : TypedStmt}
    (hst : st.WellTyped t s.registry s.program this result) :
    st.WellTyped t s'.registry s'.program this result := by
  cases hst with
  | assignment ha hb hp hty => exact .assignment (ha.mono h) (hb.mono h) hp hty
  | ret hr => exact .ret hr
  | retValue hr he hty => exact .retValue hr (he.mono h) hty
  | nested hb => exact .nested (hb.mono h)
  | ifElse hc hty hy hn => exact .ifElse (hc.mono h) hty (hy.mono h) (hn.mono h)
  | whileDo hc hty hb => exact .whileDo (hc.mono h) hty (hb.mono h)
  | call he hcall => exact .call (he.mono h) hcall

/-- Well-typed blocks stay well typed. -/
theorem TypedBlock.WellTyped.mono (h : s.Extends s') {b : TypedBlock}
    (hb : b.WellTyped t s.registry s.program this result) :
    b.WellTyped t s'.registry s'.program this result := by
  cases hb with
  | mk hsc hk hall =>
    obtain ⟨sc', hsc', hg, -⟩ := h.scopes _ _ hsc
    exact .mk hsc' (hg.kind.trans hk) fun st hst => (hall st hst).mono h

end

end ClassLang
