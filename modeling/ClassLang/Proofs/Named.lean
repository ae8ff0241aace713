import ClassLang.Linkage
import ClassLang.Proofs.Operators

/-!
# Programs without numbers

What resolution gives is full of numbers, which depend on the order in which things were entered.
Here a resolved program is read back without them: a type as it is written out, a class by its name,
a variable by its name and what it is, and a method by its owner, its name and what it takes.

* `TypedExpr.named?`, `TypedStmt.named?`, `TypedBlock.named?`: trees.
* `Program.named?`: a whole program, with the layout of its classes, its signatures, its bodies and
  its linkage names.
* `TypedExpr.named?_mono`: the reading of a tree stays when the state grows.
* `typeName_eq`, `linkageName_eq`: the name of a type and the linkage name of a method are those of
  the reading.
-/

namespace ClassLang

/-! ## What takes the place of numbers -/

/-- What a variable is. -/
inductive Role where
  | localVar
  | argument (index : Nat)
  | field (owner : String) (index : Nat)
  | receiver
deriving DecidableEq

/-- A variable. -/
structure NamedVariable where
  name : String
  role : Role
  ty : Ty
  span : Span
deriving DecidableEq

/-- Which method is meant. -/
structure MethodName where
  owner : Option String
  name : String
  parameters : List Ty
deriving DecidableEq

/-- A method as those see it who call it. -/
structure Callee where
  method : MethodName
  result : Ty
deriving DecidableEq

/-- An expression with its type. -/
inductive NamedExpr where
  | var (v : NamedVariable) (ty : Ty) (span : Span)
  | field (target : NamedExpr) (field : NamedVariable) (ty : Ty) (span : Span)
  | call (method : MethodName) (args : List NamedExpr) (ty : Ty) (span : Span)
  | send (receiver : NamedExpr) (method : MethodName) (args : List NamedExpr) (ty : Ty)
    (span : Span)
  | unary (operator : MethodName) (operand : NamedExpr) (ty : Ty) (span : Span)
  | binary (operator : MethodName) (left right : NamedExpr) (ty : Ty) (span : Span)
  | addressOf (operand : NamedExpr) (ty : Ty) (span : Span)
  | arrayNew (element : Ty) (size : NamedExpr) (ty : Ty) (span : Span)
  | index (array position : NamedExpr) (ty : Ty) (span : Span)
  | cast (value : NamedExpr) (implicit : Bool) (ty : Ty) (span : Span)
  | int (value : Int) (ty : Ty) (span : Span)
  | bool (value : Bool) (ty : Ty) (span : Span)
  | this (ty : Ty) (span : Span)

namespace NamedExpr

/-- The type of an expression. -/
def ty : NamedExpr → Ty
  | var _ t _ => t
  | field _ _ t _ => t
  | call _ _ t _ => t
  | send _ _ _ t _ => t
  | unary _ _ t _ => t
  | binary _ _ _ t _ => t
  | addressOf _ t _ => t
  | arrayNew _ _ t _ => t
  | index _ _ t _ => t
  | cast _ _ t _ => t
  | int _ t _ => t
  | bool _ t _ => t
  | this t _ => t

/-- Where an expression is written. -/
def span : NamedExpr → Span
  | var _ _ s => s
  | field _ _ _ s => s
  | call _ _ _ s => s
  | send _ _ _ _ s => s
  | unary _ _ _ s => s
  | binary _ _ _ _ s => s
  | addressOf _ _ s => s
  | arrayNew _ _ _ s => s
  | index _ _ _ s => s
  | cast _ _ _ s => s
  | int _ _ s => s
  | bool _ _ s => s
  | this _ s => s

/-- Whether an expression denotes a place that can be written to. -/
def isPlace : NamedExpr → Bool
  | var .. => true
  | field .. => true
  | index .. => true
  | _ => false

/-- Whether an expression is a call. -/
def isCall : NamedExpr → Bool
  | call .. => true
  | send .. => true
  | _ => false

/-- The value of a literal. -/
def literal? : NamedExpr → Option Int
  | int v _ _ => some v
  | _ => none

/-- A call of `m`, on a target if there is one. -/
def ofCall (target : Option NamedExpr) (m : MethodName) (args : List NamedExpr) (ty : Ty)
    (span : Span) : NamedExpr :=
  match target with
  | some e => .send e m args ty span
  | none => .call m args ty span

end NamedExpr

mutual

/-- A statement after resolution. -/
inductive NamedStmt where
  | assignment (target value : NamedExpr) (span : Span)
  | ret (value : Option NamedExpr) (span : Span)
  | nested (block : NamedBlock)
  | ifElse (condition : NamedExpr) (yes no : NamedBlock) (span : Span)
  | whileDo (condition : NamedExpr) (body : NamedBlock) (span : Span)
  | call (expr : NamedExpr)

/-- Statements that are done in turn. -/
inductive NamedBlock where
  | mk (body : List NamedStmt) (span : Span)

end

/-- A method with its body and its linkage name. -/
structure NamedMethod where
  method : MethodName
  result : Ty
  arguments : List NamedVariable
  receiver : Option NamedVariable
  external : Bool
  span : Span
  linkage : String
  body : Option NamedBlock

/-- A class with its fields in their order. -/
structure NamedClass where
  name : String
  span : Span
  fields : List NamedVariable

/-- A program: its classes in the order of their names, and its methods, those of classes first. -/
structure NamedProgram where
  classes : List NamedClass
  methods : List NamedMethod

/-! ## The names of types -/

namespace Ty

/-- The name of a type. -/
def text : Ty → String
  | native k => k.name
  | ofClass name => name
  | pointer target => target.text ++ "*"
  | array element => element.text ++ "[]"

/-- The linkage text of a type. -/
def linkage : Ty → String
  | native k => String.singleton k.letter
  | ofClass name => "C" ++ sized name
  | pointer target => "P" ++ target.linkage
  | array element => "A" ++ element.linkage

end Ty

/-- The linkage name of a method. -/
def MethodName.linkage (m : MethodName) (external : Bool) : String :=
  if m.owner.isNone && external then m.name
  else
    "_M" ++ (m.owner.elim "" sized) ++ sized m.name ++
      (if m.parameters.isEmpty then "v" else String.join (m.parameters.map Ty.linkage))

section

variable {classes : ClassId → Option String} {T : Ty}

theorem Shape.name_eq {sh : Shape} (h : sh.ty? classes = some T) : sh.name classes = T.text := by
  induction sh generalizing T with
  | native k => cases h; rfl
  | ofClass c =>
    obtain ⟨n, hn, rfl⟩ := Option.map_eq_some_iff.1 h
    rw [Shape.name, hn]; rfl
  | pointer t ih | array t ih =>
    obtain ⟨T', hT, rfl⟩ := Option.map_eq_some_iff.1 h
    rw [Shape.name, ih hT]; rfl
  | unknown id => cases h

theorem Shape.linkage_eq {sh : Shape} (h : sh.ty? classes = some T) :
    sh.linkage classes = (T.linkage, none) := by
  induction sh generalizing T with
  | native k => cases h; rfl
  | ofClass c =>
    obtain ⟨n, hn, rfl⟩ := Option.map_eq_some_iff.1 h
    rw [Shape.linkage, hn]; rfl
  | pointer t ih | array t ih =>
    obtain ⟨T', hT, rfl⟩ := Option.map_eq_some_iff.1 h
    rw [Shape.linkage, ih hT]; rfl
  | unknown id => cases h

/-- The name of a type is that of the type written out. -/
theorem Registry.typeName_eq {r : Registry} {id : TypeId} (h : r.meaning? id = some T) :
    r.typeName id = T.text :=
  Shape.name_eq h

theorem Registry.typeLinkageName_eq {r : Registry} {id : TypeId} (h : r.meaning? id = some T) :
    r.typeLinkageName id = .ok T.linkage := by
  unfold Registry.typeLinkageName Registry.typeLinkage
  rw [Shape.linkage_eq h]

end

/-! ## Reading variables and methods -/

namespace Resolver

/-- The name of a class. -/
def className? (s : Resolver) (c : ClassId) : Option String :=
  (s.program.classAt? c).map ClassInfo.name

/-- What a variable is, with its class by name. -/
def role? (s : Resolver) : VariableKind → Option Role
  | .localVar => some .localVar
  | .argument index => some (.argument index)
  | .field owner index => (s.className? owner).map fun name => .field name index
  | .receiver => some .receiver

/-- A variable without its number. -/
def namedVar? (s : Resolver) (v : VariableId) : Option NamedVariable := do
  let x ← s.program.varAt? v
  return ⟨x.name, ← s.role? x.kind, ← s.registry.meaning? x.ty, x.span⟩

/-- The name of the owner of a method, if it has one. -/
def ownerName? (s : Resolver) : Option ClassId → Option (Option String)
  | some c => (s.className? c).map some
  | none => some none

/-- A method as those see it who call it. -/
def callee? (s : Resolver) (m : MethodId) : Option Callee := do
  let g ← s.program.methodAt? m
  let owner ← s.ownerName? g.owner
  let parameters ← g.arguments.mapM s.tyOf?
  return ⟨⟨owner, g.name, parameters⟩, ← s.registry.meaning? g.result⟩

/-- Which method a number stands for. -/
def methodName? (s : Resolver) (m : MethodId) : Option MethodName := (s.callee? m).map Callee.method

variable {s s' : Resolver} {v : VariableId} {m : MethodId} {y : NamedVariable} {k : Callee}

theorem namedVar?_eq_some_iff : s.namedVar? v = some y ↔
    ∃ x, s.program.varAt? v = some x ∧ x.name = y.name ∧ s.role? x.kind = some y.role ∧
      s.registry.meaning? x.ty = some y.ty ∧ x.span = y.span := by
  unfold namedVar?
  simp only [Option.bind_eq_bind, Option.bind_eq_some_iff, Option.pure_def, Option.some.injEq]
  constructor
  · rintro ⟨x, hx, role, hrole, T, hT, rfl⟩
    exact ⟨x, hx, rfl, hrole, hT, rfl⟩
  · rintro ⟨x, hx, hname, hrole, hT, hspan⟩
    exact ⟨x, hx, y.role, hrole, y.ty, hT, by cases y; simp_all⟩

theorem callee?_eq_some_iff : s.callee? m = some k ↔
    ∃ g, s.program.methodAt? m = some g ∧ s.ownerName? g.owner = some k.method.owner ∧
      g.name = k.method.name ∧ s.signatureOf? m = some ⟨k.method.parameters, k.result⟩ := by
  unfold callee?
  simp only [Option.bind_eq_bind, Option.bind_eq_some_iff, Option.pure_def, Option.some.injEq]
  constructor
  · rintro ⟨g, hg, owner, ho, ps, hps, T, hT, rfl⟩
    exact ⟨g, hg, ho, rfl, signatureOf?_eq_some_iff.2 ⟨g, hg, mapM_eq_some_iff.1 hps, hT⟩⟩
  · rintro ⟨g, hg, ho, hn, hsig⟩
    obtain ⟨g', hg', hps, hT⟩ := signatureOf?_eq_some_iff.1 hsig
    rw [hg] at hg'
    cases hg'
    refine ⟨g, hg, _, ho, _, mapM_eq_some_iff.2 hps, _, hT, ?_⟩
    rw [hn]

theorem Grows.className? (hg : s.Grows s') {c : ClassId} {n : String}
    (h : s.className? c = some n) : s'.className? c = some n := by
  obtain ⟨i, hi, rfl⟩ := Option.map_eq_some_iff.1 h
  obtain ⟨i', hi', hn, -⟩ := hg.classes c i hi
  exact Option.map_eq_some_iff.2 ⟨i', hi', hn⟩

theorem Grows.role? (hg : s.Grows s') {kind : VariableKind} {r : Role}
    (h : s.role? kind = some r) : s'.role? kind = some r := by
  cases kind with
  | field c i =>
    obtain ⟨n, hn, rfl⟩ := Option.map_eq_some_iff.1 h
    exact Option.map_eq_some_iff.2 ⟨n, hg.className? hn, rfl⟩
  | localVar => exact h
  | argument i => exact h
  | receiver => exact h

/-- The reading of a variable stays. -/
theorem Grows.namedVar? (hg : s.Grows s') (hs : s.Sound) (hs' : s'.Sound)
    (h : s.namedVar? v = some y) : s'.namedVar? v = some y := by
  obtain ⟨x, hx, hn, hr, hT, hsp⟩ := namedVar?_eq_some_iff.1 h
  exact namedVar?_eq_some_iff.2 ⟨x, hg.vars v x hx, hn, hg.role? hr,
    hg.meaning? hs.registry hs'.registry hT, hsp⟩

theorem Grows.ownerName? (hg : s.Grows s') {o : Option ClassId} {n : Option String}
    (h : s.ownerName? o = some n) : s'.ownerName? o = some n := by
  cases o with
  | none => exact h
  | some c =>
    obtain ⟨n', hn, rfl⟩ := Option.map_eq_some_iff.1 h
    exact Option.map_eq_some_iff.2 ⟨n', hg.className? hn, rfl⟩

/-- The reading of a method stays while bodies are resolved. -/
theorem Extends.callee? (hx : s.Extends s') (hs : s.Sound) (hs' : s'.Sound)
    (h : s.callee? m = some k) : s'.callee? m = some k := by
  obtain ⟨g, hg, ho, hn, hsig⟩ := callee?_eq_some_iff.1 h
  obtain ⟨b, hb⟩ := hx.methods m g hg
  refine callee?_eq_some_iff.2 ⟨_, hb, hx.grows.ownerName? ho, hn, ?_⟩
  exact hx.grows.signatureOf? hs.registry hs'.registry hg hb rfl rfl hsig

theorem Extends.methodName? (hx : s.Extends s') (hs : s.Sound) (hs' : s'.Sound) {n : MethodName}
    (h : s.methodName? m = some n) : s'.methodName? m = some n := by
  obtain ⟨k, hk, rfl⟩ := Option.map_eq_some_iff.1 h
  exact Option.map_eq_some_iff.2 ⟨k, hx.callee? hs hs' hk, rfl⟩

theorem methodName?_of_callee? (h : s.callee? m = some k) : s.methodName? m = some k.method :=
  Option.map_eq_some_iff.2 ⟨k, h, rfl⟩

/-- In a sound state every variable can be read. -/
theorem Sound.namedVar?_isSome (hs : s.Sound) {x : Variable} (hx : s.program.varAt? v = some x) :
    ∃ y, s.namedVar? v = some y := by
  obtain ⟨T, hT⟩ := hs.meaning?_isSome (hs.vars v x hx).ty
  have hrole : ∃ r, s.role? x.kind = some r := by
    cases hk : x.kind with
    | field c i =>
      obtain ⟨info, hi⟩ := (hs.vars v x hx).owner c i hk
      exact ⟨.field info.name i, by simp [role?, Resolver.className?, hi]⟩
    | localVar => exact ⟨_, rfl⟩
    | argument i => exact ⟨_, rfl⟩
    | receiver => exact ⟨_, rfl⟩
  obtain ⟨r, hr⟩ := hrole
  exact ⟨⟨x.name, r, T, x.span⟩, namedVar?_eq_some_iff.2 ⟨x, hx, rfl, hr, hT, rfl⟩⟩

end Resolver

/-! ## Reading trees -/

mutual

/-- An expression without numbers. -/
def TypedExpr.named? (s : Resolver) : TypedExpr → Option NamedExpr
  | .var v ty span => do
    return .var (← s.namedVar? v) (← s.registry.meaning? ty) span
  | .field target f ty span => do
    return .field (← target.named? s) (← s.namedVar? f) (← s.registry.meaning? ty) span
  | .call m args ty span => do
    return .call (← s.methodName? m) (← TypedExpr.namedAll? s args) (← s.registry.meaning? ty) span
  | .send e m args ty span => do
    return .send (← e.named? s) (← s.methodName? m) (← TypedExpr.namedAll? s args)
      (← s.registry.meaning? ty) span
  | .unary m e ty span => do
    return .unary (← s.methodName? m) (← e.named? s) (← s.registry.meaning? ty) span
  | .binary m a b ty span => do
    return .binary (← s.methodName? m) (← a.named? s) (← b.named? s) (← s.registry.meaning? ty) span
  | .addressOf e ty span => do
    return .addressOf (← e.named? s) (← s.registry.meaning? ty) span
  | .arrayNew element e ty span => do
    return .arrayNew (← s.registry.meaning? element) (← e.named? s) (← s.registry.meaning? ty) span
  | .index a i ty span => do
    return .index (← a.named? s) (← i.named? s) (← s.registry.meaning? ty) span
  | .cast e implicit ty span => do
    return .cast (← e.named? s) implicit (← s.registry.meaning? ty) span
  | .int v ty span => do return .int v (← s.registry.meaning? ty) span
  | .bool b ty span => do return .bool b (← s.registry.meaning? ty) span
  | .this ty span => do return .this (← s.registry.meaning? ty) span

/-- Expressions without numbers. -/
def TypedExpr.namedAll? (s : Resolver) : List TypedExpr → Option (List NamedExpr)
  | [] => some []
  | e :: es => do return (← e.named? s) :: (← TypedExpr.namedAll? s es)

end

mutual

/-- A statement without numbers. -/
def TypedStmt.named? (s : Resolver) : TypedStmt → Option NamedStmt
  | .assignment a b span => do return .assignment (← a.named? s) (← b.named? s) span
  | .ret value span => do return .ret (← value.mapM fun e => e.named? s) span
  | .nested block => do return .nested (← block.named? s)
  | .ifElse c yes no span => do
    return .ifElse (← c.named? s) (← yes.named? s) (← no.named? s) span
  | .whileDo c body span => do return .whileDo (← c.named? s) (← body.named? s) span
  | .call e => do return .call (← e.named? s)

/-- Statements without numbers. -/
def TypedStmt.namedAll? (s : Resolver) : List TypedStmt → Option (List NamedStmt)
  | [] => some []
  | st :: sts => do return (← st.named? s) :: (← TypedStmt.namedAll? s sts)

/-- A block without numbers, that of its scope included. -/
def TypedBlock.named? (s : Resolver) : TypedBlock → Option NamedBlock
  | .mk body _ span => do return .mk (← TypedStmt.namedAll? s body) span

end

namespace Resolver

/-- **The second state reads every number as the first does**, where that can read it. -/
structure Preserves (s s' : Resolver) : Prop where
  types : ∀ {id T}, s.registry.meaning? id = some T → s'.registry.meaning? id = some T
  vars : ∀ {v y}, s.namedVar? v = some y → s'.namedVar? v = some y
  methods : ∀ {m n}, s.methodName? m = some n → s'.methodName? m = some n

theorem Extends.preserves {s s' : Resolver} (hx : s.Extends s') (hs : s.Sound) (hs' : s'.Sound) :
    s.Preserves s' where
  types h := hx.grows.meaning? hs.registry hs'.registry h
  vars h := hx.grows.namedVar? hs hs' h
  methods h := hx.methodName? hs hs' h

end Resolver

section

variable {s s' : Resolver}

/-- What is read in two steps stays if both readings do. -/
theorem bind_stays {α β : Type} {x x' : Option α} {f f' : α → Option β} {b : β}
    (hx : ∀ {a}, x = some a → x' = some a) (hf : ∀ a, f a = some b → f' a = some b)
    (h : x >>= f = some b) : x' >>= f' = some b := by
  obtain ⟨a, ha, hb⟩ := Option.bind_eq_some_iff.1 h
  exact Option.bind_eq_some_iff.2 ⟨a, hx ha, hf a hb⟩

/-- The type of an expression is read last. -/
theorem Resolver.Preserves.type (hp : s.Preserves s') {ty : TypeId} {f : Ty → Option NamedExpr}
    {e : NamedExpr} : s.registry.meaning? ty >>= f = some e →
      s'.registry.meaning? ty >>= f = some e :=
  bind_stays hp.types fun _ h => h

mutual

/-- **The reading of an expression stays.** -/
theorem TypedExpr.named?_mono (hp : s.Preserves s') (t : TypedExpr) {e : NamedExpr}
    (h : t.named? s = some e) : t.named? s' = some e := by
  cases t <;> rw [TypedExpr.named?] at h ⊢
  case var => exact bind_stays hp.vars (fun _ => hp.type) h
  case field target _ _ _ =>
    exact bind_stays (named?_mono hp target) (fun _ => bind_stays hp.vars fun _ => hp.type) h
  case call args _ _ =>
    exact bind_stays hp.methods (fun _ => bind_stays (namedAll?_mono hp args) fun _ => hp.type) h
  case send target _ args _ _ =>
    exact bind_stays (named?_mono hp target) (fun _ => bind_stays hp.methods fun _ =>
      bind_stays (namedAll?_mono hp args) fun _ => hp.type) h
  case unary operand _ _ =>
    exact bind_stays hp.methods (fun _ => bind_stays (named?_mono hp operand) fun _ => hp.type) h
  case binary left right _ _ =>
    exact bind_stays hp.methods (fun _ => bind_stays (named?_mono hp left) fun _ =>
      bind_stays (named?_mono hp right) fun _ => hp.type) h
  case addressOf operand _ _ => exact bind_stays (named?_mono hp operand) (fun _ => hp.type) h
  case arrayNew size _ _ =>
    exact bind_stays hp.types (fun _ => bind_stays (named?_mono hp size) fun _ => hp.type) h
  case index array position _ _ =>
    exact bind_stays (named?_mono hp array) (fun _ =>
      bind_stays (named?_mono hp position) fun _ => hp.type) h
  case cast value _ _ _ => exact bind_stays (named?_mono hp value) (fun _ => hp.type) h
  case int => exact hp.type h
  case bool => exact hp.type h
  case this => exact hp.type h

theorem TypedExpr.namedAll?_mono (hp : s.Preserves s') (ts : List TypedExpr) {es : List NamedExpr}
    (h : TypedExpr.namedAll? s ts = some es) : TypedExpr.namedAll? s' ts = some es := by
  match ts, h with
  | [], h => exact h
  | t :: ts, h =>
    rw [TypedExpr.namedAll?] at h ⊢
    exact bind_stays (named?_mono hp t) (fun _ => bind_stays (namedAll?_mono hp ts) fun _ h => h) h

end

/-- What may be missing is read if it is missing or can be read. -/
theorem optionMapM_eq_some_iff {α β : Type} {f : α → Option β} {o : Option α} {b : Option β} :
    o.mapM f = some b ↔ o.map f = b.map some := by
  cases o with
  | none => cases b <;> simp
  | some a => cases b <;> cases h : f a <;> simp [h]

theorem optionMapM_mono {α β : Type} {f f' : α → Option β} {o : Option α} {b : Option β}
    (hf : ∀ a b, o = some a → f a = some b → f' a = some b) (h : o.mapM f = some b) :
    o.mapM f' = some b := by
  rw [optionMapM_eq_some_iff] at h ⊢
  cases o with
  | none => exact h
  | some a =>
    cases b with
    | none => cases h
    | some b => exact congrArg some (hf a b rfl (Option.some.inj h))

mutual

/-- **The reading of a statement stays.** -/
theorem TypedStmt.named?_mono (hp : s.Preserves s') (t : TypedStmt) {e : NamedStmt}
    (h : t.named? s = some e) : t.named? s' = some e := by
  cases t <;> rw [TypedStmt.named?] at h ⊢
  case assignment a b _ =>
    exact bind_stays (a.named?_mono hp) (fun _ => bind_stays (b.named?_mono hp) fun _ h => h) h
  case ret =>
    exact bind_stays (optionMapM_mono fun a _ _ ha => a.named?_mono hp ha) (fun _ h => h) h
  case nested block => exact bind_stays (TypedBlock.named?_mono hp block) (fun _ h => h) h
  case ifElse c yes no _ =>
    exact bind_stays (c.named?_mono hp) (fun _ => bind_stays (TypedBlock.named?_mono hp yes)
      fun _ => bind_stays (TypedBlock.named?_mono hp no) fun _ h => h) h
  case whileDo c body _ =>
    exact bind_stays (c.named?_mono hp)
      (fun _ => bind_stays (TypedBlock.named?_mono hp body) fun _ h => h) h
  case call e' => exact bind_stays (e'.named?_mono hp) (fun _ h => h) h

theorem TypedStmt.namedAll?_mono (hp : s.Preserves s') (ts : List TypedStmt) {es : List NamedStmt}
    (h : TypedStmt.namedAll? s ts = some es) : TypedStmt.namedAll? s' ts = some es := by
  match ts, h with
  | [], h => exact h
  | t :: ts, h =>
    rw [TypedStmt.namedAll?] at h ⊢
    exact bind_stays (TypedStmt.named?_mono hp t)
      (fun _ => bind_stays (TypedStmt.namedAll?_mono hp ts) fun _ h => h) h

/-- The reading of a block stays. -/
theorem TypedBlock.named?_mono (hp : s.Preserves s') (b : TypedBlock) {e : NamedBlock}
    (h : b.named? s = some e) : b.named? s' = some e := by
  match b, h with
  | .mk body scope span, h =>
    rw [TypedBlock.named?] at h ⊢
    exact bind_stays (TypedStmt.namedAll?_mono hp body) (fun _ h => h) h

end

end

/-! ## Reading a program -/

namespace Resolver

/-- A method with its body, without numbers. -/
def method? (s : Resolver) (m : MethodId) : Option NamedMethod := do
  let g ← s.program.methodAt? m
  let k ← s.callee? m
  let arguments ← g.arguments.mapM s.namedVar?
  let receiver ← g.receiver.mapM s.namedVar?
  let linkage ← (s.program.linkageName s.registry m).toOption
  let body ← g.body.mapM fun b => b.named? s
  return ⟨k.method, k.result, arguments, receiver, g.isExternal, g.span, linkage, body⟩

/-- A class with its fields, without numbers. -/
def class? (s : Resolver) (c : ClassId) : Option NamedClass := do
  let i ← s.program.classAt? c
  return ⟨i.name, i.span, ← i.fieldOrder.mapM s.namedVar?⟩

theorem class?_eq_some_iff {s : Resolver} {c : ClassId} {N : NamedClass} : s.class? c = some N ↔
    ∃ i, s.program.classAt? c = some i ∧ i.name = N.name ∧ i.span = N.span ∧
      i.fieldOrder.map s.namedVar? = N.fields.map some := by
  unfold class?
  simp only [Option.bind_eq_bind, Option.bind_eq_some_iff, Option.pure_def, Option.some.injEq]
  constructor
  · rintro ⟨i, hi, ys, hys, rfl⟩
    exact ⟨i, hi, rfl, rfl, mapM_eq_some_iff.1 hys⟩
  · rintro ⟨i, hi, hn, hsp, hys⟩
    exact ⟨i, hi, _, mapM_eq_some_iff.2 hys, by rw [hn, hsp]⟩

theorem method?_eq_some_iff {s : Resolver} {m : MethodId} {N : NamedMethod} :
    s.method? m = some N ↔ ∃ g, s.program.methodAt? m = some g ∧
      s.callee? m = some ⟨N.method, N.result⟩ ∧
      g.arguments.map s.namedVar? = N.arguments.map some ∧
      g.receiver.map s.namedVar? = N.receiver.map some ∧ g.isExternal = N.external ∧
      g.span = N.span ∧ s.program.linkageName s.registry m = .ok N.linkage ∧
      g.body.map (fun b => b.named? s) = N.body.map some := by
  have htoOption : ∀ {e : Except Diagnostic String} {l : String},
      e.toOption = some l ↔ e = .ok l := fun {e l} => by
    cases e <;> simp [Except.toOption]
  unfold method?
  simp only [Option.bind_eq_bind, Option.bind_eq_some_iff, Option.pure_def, Option.some.injEq,
    htoOption, mapM_eq_some_iff, optionMapM_eq_some_iff]
  constructor
  · rintro ⟨g, hg, k, hk, ys, hys, r, hr, l, hl, b, hb, rfl⟩
    exact ⟨g, hg, hk, hys, hr, rfl, rfl, hl, hb⟩
  · rintro ⟨g, hg, hk, hys, hr, hx, hsp, hl, hb⟩
    exact ⟨g, hg, _, hk, _, hys, _, hr, _, hl, _, hb, by rw [hx, hsp]⟩

end Resolver

namespace Program

/-- The methods that a program declares: those of its classes, and then its functions, all in the
order of their names. -/
def declared (p : Program) : List MethodId :=
  (p.classNames.values.flatMap fun c => (p.classAt? c).elim [] fun i => i.methods.values) ++
    p.functions.values

/-- **A program without numbers.** -/
def named? (r : Registry) (p : Program) : Option NamedProgram := do
  let s : Resolver := ⟨r, p, none⟩
  let classes ← p.classNames.values.mapM s.class?
  let methods ← p.declared.mapM s.method?
  return ⟨classes, methods⟩

end Program

/-- The linkage names of some types. -/
theorem mapM_typeLinkageName {r : Registry} {tys : List TypeId} {ps : List Ty}
    (h : tys.map r.meaning? = ps.map some) :
    tys.mapM r.typeLinkageName = .ok (ps.map Ty.linkage) := by
  induction forall₂_of_map_eq h with
  | nil => rfl
  | cons hT _ ih =>
    rw [List.mapM_cons, Registry.typeLinkageName_eq hT, ih (List.cons.inj h).2]
    rfl

/-- **The linkage name of a method** is made from what the method is without its number. -/
theorem Resolver.Sound.linkageName_eq {s : Resolver} (hs : s.Sound) {m : MethodId} {g : Method}
    {k : Callee} (hg : s.program.methodAt? m = some g) (hk : s.callee? m = some k) :
    s.program.linkageName s.registry m = .ok (k.method.linkage g.isExternal) := by
  obtain ⟨g', hg', ho, hn, hsig⟩ := callee?_eq_some_iff.1 hk
  rw [hg] at hg'
  cases hg'
  obtain ⟨sig, tys, hsig', htys, hps, -⟩ := hs.signatureOf?_isSome hg
  rw [hsig] at hsig'
  cases hsig'
  -- the owner adds its name with its length, and nothing if there is none
  have howner : s.program.ownerLinkage g = .ok (k.method.owner.elim "" sized) ∧
      g.owner.isNone = k.method.owner.isNone := by
    unfold Program.ownerLinkage
    cases hc : g.owner with
    | none =>
      rw [hc] at ho
      rw [← show none = k.method.owner from Option.some.inj ho]
      exact ⟨rfl, rfl⟩
    | some c =>
      rw [hc] at ho
      obtain ⟨n, hn', heq⟩ := Option.map_eq_some_iff.1 ho
      obtain ⟨i, hi, rfl⟩ := Option.map_eq_some_iff.1 hn'
      simp only [← heq, Program.getClass_eq hi]
      exact ⟨rfl, rfl⟩
  have hempty : (k.method.parameters.map Ty.linkage).isEmpty = k.method.parameters.isEmpty := by
    cases k.method.parameters <;> rfl
  unfold Program.linkageName MethodName.linkage
  rw [Program.getMethod_eq hg, ← howner.2, ← hn]
  show (if (g.owner.isNone && g.isExternal) = true then _ else _) = _
  by_cases hext : (g.owner.isNone && g.isExternal) = true
  · rw [if_pos hext, if_pos hext]; rfl
  · rw [if_neg hext, if_neg hext, howner.1, parameterTypes_eq hg htys]
    show (tys.mapM s.registry.typeLinkageName >>= _) = _
    rw [mapM_typeLinkageName hps, ← hempty]
    rfl

end ClassLang
