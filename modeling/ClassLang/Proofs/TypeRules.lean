import Mathlib.Algebra.Group.Nat.Defs
import ClassLang.Decl.Resolve

/-!
# The type rules

When a program is well typed, said without handles, tables of entities or a tree of scopes: types are
written out by their names, declarations are looked up in the text of the program, and the names of
variables in a list of blocks.

* `HasType x Γ e form ty`: in the context `x` and with the variables `Γ`, the expression `e` has the
  type `ty`; `form` says whether it is a place, a call or a literal as well.
* `HasType.unique`: an expression has at most one type.
* `StmtOk`, `BodyOk`: a statement or a list of them is in order. A declared variable is added to the
  innermost block.
* `CompilationUnit.WellDeclared`, `CompilationUnit.WellTyped`: the declarations of a unit are in
  order, and all bodies are too.
-/

namespace ClassLang

/-- A type written out. -/
inductive Ty where
  | native (kind : Native)
  | ofClass (name : String)
  | pointer (target : Ty)
  | array (element : Ty)
deriving DecidableEq

/-- What a method takes and what it gives. -/
structure Signature where
  parameters : List Ty
  result : Ty

/-- What an expression is beside having a value. -/
inductive Form where
  /-- Something that can be assigned to. -/
  | place
  | call
  | literal (value : Int)
  | value
deriving DecidableEq

/-! ## Native operators -/

/-- All operators between two operands. -/
def BinaryOp.all : List BinaryOp :=
  [.add, .subtract, .multiply, .divide, .modulo, .less, .lessEquals, .greater, .greaterEquals,
   .equals, .notEquals, .and, .or]

/-- What an operator between two values of a native type gives. -/
def BinaryOp.result? (op : BinaryOp) (k : Native) : Option Native :=
  match op with
  | .add | .subtract | .multiply | .divide | .modulo => if k.isInteger then some k else none
  | .less | .lessEquals | .greater | .greaterEquals =>
    if k.isInteger then some .boolean else none
  | .equals | .notEquals => if k.isInteger || k = .boolean then some .boolean else none
  | .and | .or => if k = .boolean then some .boolean else none

/-- What an operator before a value of a native type gives. -/
def UnaryOp.result? (op : UnaryOp) (k : Native) : Option Native :=
  match op with
  | .negate => if k.isInteger then some k else none
  | .not => if k = .boolean then some .boolean else none

/-- The operators of a native type as methods that are named by their symbols. -/
def Native.method? (k : Native) (name : String) : Option Signature :=
  match BinaryOp.all.find? fun op => op.symbol = name with
  | some op => (op.result? k).map fun r => ⟨[.native k], .native r⟩
  | none =>
    if name = UnaryOp.not.symbol then
      (UnaryOp.not.result? k).map fun r => ⟨[], .native r⟩
    else
      none

/-! ## Declarations by name -/

/-- The field of a name. -/
def ClassDecl.fieldNamed? (c : ClassDecl) (name : String) : Option FieldDecl :=
  c.fields.find? fun f => f.name = name

/-- The method of a name. -/
def ClassDecl.methodNamed? (c : ClassDecl) (name : String) : Option MethodDecl :=
  c.methods.find? fun m => m.name = name

/-- The class of a name. -/
def CompilationUnit.classNamed? (u : CompilationUnit) (name : String) : Option ClassDecl :=
  u.classes.find? fun c => c.name = name

/-- The function of a name. -/
def CompilationUnit.functionNamed? (u : CompilationUnit) (name : String) : Option MethodDecl :=
  u.functions.find? fun f => f.name = name

section

variable (d : Dialect) (u : CompilationUnit)

/-- The type that is written: a native type if the dialect has one of that name, or else a class. -/
def TypeName.denoted? : TypeName → Option Ty
  | named name _ =>
    match d.catalog.find? name with
    | some k => some (.native k)
    | none => (u.classNamed? name).map fun c => .ofClass c.name
  | pointer target _ => (target.denoted?).map .pointer
  | array element _ => (element.denoted?).map .array

/-- The type a method gives, nothing if none is written. -/
def MethodDecl.result? (m : MethodDecl) : Option Ty :=
  match m.result with
  | some type => type.denoted? d u
  | none => some (.native .void)

/-- What a method takes and gives, if all its types are known. -/
def MethodDecl.signature? (m : MethodDecl) : Option Signature := do
  let parameters ← m.arguments.mapM fun a => a.type.denoted? d u
  return ⟨parameters, ← m.result? d u⟩

/-- The type of a field. Only classes have fields. -/
def Ty.field? : Ty → String → Option Ty
  | ofClass c, name => do
    let f ← (← u.classNamed? c).fieldNamed? name
    f.type.denoted? d u
  | _, _ => none

/-- The signature of a method of a type. -/
def Ty.method? : Ty → String → Option Signature
  | native k, name => k.method? name
  | ofClass c, name => do
    let m ← (← u.classNamed? c).methodNamed? name
    m.signature? d u
  | _, _ => none

end

/-! ## Conversions -/

/-- Whether an expression becomes a value of the type `target` by itself: a literal if there is room
for it, and a value of a native type if the dialect widens it. -/
def Converts (t : Conversions) (form : Form) (source target : Ty) : Prop :=
  (∃ v k, form = .literal v ∧ target = .native k ∧ t.permitsLiteral v k = true) ∨
    ∃ a b, source = .native a ∧ target = .native b ∧ t.widens a b = true

/-- Whether an expression may stand where the type `target` is wanted. -/
def Fits (t : Conversions) (form : Form) (source target : Ty) : Prop :=
  source = target ∨ Converts t form source target

/-! ## Names -/

/-- What a name of a block stands for: a variable, or the receiver of the method. -/
structure Binding where
  ty : Ty
  receiver : Bool

/-- The names that a block binds. -/
abbrev Bindings := List (String × Binding)

/-- The blocks around a place, from the inside out. -/
abbrev Blocks := List Bindings

/-- What a name stands for in the nearest block that binds it. -/
def Blocks.find? (Γ : Blocks) (name : String) : Option Binding :=
  Γ.findSome? fun names => names.lookup name

/-- What surrounds the body of a method. -/
structure Context where
  dialect : Dialect
  unit : CompilationUnit
  /-- The class of the method, if it is not a function. -/
  owner : Option ClassDecl
  /-- What the method gives. -/
  result : Ty

namespace Context

variable (x : Context)

/-- The type of a field of the class around. -/
def field? (name : String) : Option Ty := do
  Ty.field? x.dialect x.unit (.ofClass (← x.owner).name) name

/-- The method that a name stands for: one of the class around, or else a function. -/
def method? (name : String) : Option Signature := do
  let m ← (x.owner.bind fun c => c.methodNamed? name).or (x.unit.functionNamed? name)
  m.signature? x.dialect x.unit

end Context

/-! ## Expressions -/

/-- Whether an expression is a number that an operator negates. -/
def UnaryOp.Folds : UnaryOp → Expr → Prop
  | .negate, .number _ _ => True
  | _, _ => False

/-- Every other operand is resolved by itself. -/
theorem Expr.resolve_unary {op : UnaryOp} {e : Expr} (h : ¬ op.Folds e) (d : Dialect) (j : ScopeId)
    (span : Span) : (Expr.unary op e span).resolve d j =
      (do let operand ← e.resolve d j; Resolve.ask fun s => s.unary op operand span) := by
  rw [Expr.resolve]
  rintro n sp rfl rfl
  exact h trivial

mutual

/-- **Expressions and their types.** -/
inductive HasType (x : Context) (Γ : Blocks) : Expr → Form → Ty → Prop where
  | number {n sp} : n < 2 ^ 63 →
      HasType x Γ (.number n sp) (.literal n) (.native .integer)
  | negative {n sp sp'} : n ≤ 2 ^ 63 →
      HasType x Γ (.unary .negate (.number n sp) sp') (.literal (-n)) (.native .integer)
  | boolean {b sp} : HasType x Γ (.boolean b sp) .value (.native .boolean)
  | var {n ty sp} : Γ.find? n = some ⟨ty, false⟩ → HasType x Γ (.symbol n sp) .place ty
  | receiver {n ty sp} : Γ.find? n = some ⟨ty, true⟩ → HasType x Γ (.symbol n sp) .value ty
  | field {n ty sp} : Γ.find? n = none → x.field? n = some ty →
      HasType x Γ (.symbol n sp) .place ty
  | method {n ty sp} : Γ.find? n = none → x.field? n = none → x.method? n = some ⟨[], ty⟩ →
      HasType x Γ (.symbol n sp) .call ty
  | this {c sp} : x.owner = some c → HasType x Γ (.this sp) .value (.ofClass c.name)
  | call {n args ps ty sp} : x.method? n = some ⟨ps, ty⟩ → HasTypes x Γ args ps →
      HasType x Γ (.call n args sp) .call ty
  | send {e f t n args ps ty sp} : HasType x Γ e f t →
      t.method? x.dialect x.unit n = some ⟨ps, ty⟩ → HasTypes x Γ args ps →
      HasType x Γ (.send e n args sp) .call ty
  | member {e f t n ty sp} : HasType x Γ e f t → t.field? x.dialect x.unit n = some ty →
      HasType x Γ (.member e n sp) .place ty
  | memberCall {e f t n ty sp} : HasType x Γ e f t → t.field? x.dialect x.unit n = none →
      t.method? x.dialect x.unit n = some ⟨[], ty⟩ → HasType x Γ (.member e n sp) .call ty
  | binary {op a b f g k t r sp} : HasType x Γ a f (.native k) → HasType x Γ b g t →
      op.result? k = some r → Fits x.dialect.conversions g t (.native k) →
      HasType x Γ (.binary op a b sp) .value (.native r)
  | binaryMethod {op a b f g c t p r sp} : HasType x Γ a f (.ofClass c) → HasType x Γ b g t →
      (Ty.ofClass c).method? x.dialect x.unit op.symbol = some ⟨[p], r⟩ →
      Fits x.dialect.conversions g t p → HasType x Γ (.binary op a b sp) .value r
  | unary {op e f k r sp} : ¬ op.Folds e → HasType x Γ e f (.native k) → op.result? k = some r →
      HasType x Γ (.unary op e sp) .value (.native r)
  | unaryMethod {op e f c r sp} : HasType x Γ e f (.ofClass c) →
      (Ty.ofClass c).method? x.dialect x.unit op.symbol = some ⟨[], r⟩ →
      HasType x Γ (.unary op e sp) .value r
  | addressOf {e t sp} : HasType x Γ e .place t →
      HasType x Γ (.addressOf e sp) .value (.pointer t)
  | arrayNew {type e f t s sp} : type.denoted? x.dialect x.unit = some t → HasType x Γ e f s →
      Fits x.dialect.conversions f s (.native .integer) →
      HasType x Γ (.arrayNew type e sp) .value (.array t)
  | cast {e type f s t sp} : HasType x Γ e f s → type.denoted? x.dialect x.unit = some t →
      HasType x Γ (.cast e type sp) .value t
  | index {a i f g t s sp} : HasType x Γ a f (.array t) → HasType x Γ i g s →
      Fits x.dialect.conversions g s (.native .integer) →
      HasType x Γ (.index a i sp) .place t

/-- Arguments that fit the parameters, one for each. -/
inductive HasTypes (x : Context) (Γ : Blocks) : List Expr → List Ty → Prop where
  | nil : HasTypes x Γ [] []
  | cons {e es f t p ps} : HasType x Γ e f t → Fits x.dialect.conversions f t p →
      HasTypes x Γ es ps → HasTypes x Γ (e :: es) (p :: ps)

end

/-- **An expression has at most one type**, and one form. -/
theorem HasType.unique {x : Context} {Γ : Blocks} {e : Expr} {f f' : Form} {T T' : Ty}
    (h : HasType x Γ e f T) (h' : HasType x Γ e f' T') : f = f' ∧ T = T' := by
  match h with
  | .number _ => cases h'; exact ⟨rfl, rfl⟩
  | .boolean => cases h'; exact ⟨rfl, rfl⟩
  | .this hc =>
    cases h' with
    | this hc' => rw [hc] at hc'; cases hc'; exact ⟨rfl, rfl⟩
  -- a name stands for the first thing that is found
  | .var hn => cases h' <;> simp_all
  | .receiver hn => cases h' <;> simp_all
  | .field hn hf => cases h' <;> simp_all
  | .method hn hf hm => cases h' <;> simp_all
  | .call hm _ =>
    cases h' with
    | call hm' _ => rw [hm] at hm'; cases hm'; exact ⟨rfl, rfl⟩
  | .send he hm _ =>
    cases h' with
    | send he' hm' _ =>
      obtain ⟨-, rfl⟩ := he.unique he'
      rw [hm] at hm'; cases hm'; exact ⟨rfl, rfl⟩
  | .member he hf =>
    cases h' with
    | member he' hf' =>
      obtain ⟨-, rfl⟩ := he.unique he'
      rw [hf] at hf'; cases hf'; exact ⟨rfl, rfl⟩
    | memberCall he' hf' _ =>
      obtain ⟨-, rfl⟩ := he.unique he'
      rw [hf] at hf'; cases hf'
  | .memberCall he hf hm =>
    cases h' with
    | member he' hf' =>
      obtain ⟨-, rfl⟩ := he.unique he'
      rw [hf] at hf'; cases hf'
    | memberCall he' _ hm' =>
      obtain ⟨-, rfl⟩ := he.unique he'
      rw [hm] at hm'; cases hm'; exact ⟨rfl, rfl⟩
  | .binary ha _ hr _ =>
    cases h' with
    | binary ha' _ hr' _ =>
      obtain ⟨-, hk⟩ := ha.unique ha'
      cases hk
      rw [hr] at hr'; cases hr'; exact ⟨rfl, rfl⟩
    | binaryMethod ha' _ _ _ => cases (ha.unique ha').2
  | .binaryMethod ha _ hm _ =>
    cases h' with
    | binary ha' _ _ _ => cases (ha.unique ha').2
    | binaryMethod ha' _ hm' _ =>
      obtain ⟨-, hk⟩ := ha.unique ha'
      cases hk
      rw [hm] at hm'; cases hm'; exact ⟨rfl, rfl⟩
  -- a negated number has no other reading
  | .negative _ =>
    cases h' with
    | negative _ => exact ⟨rfl, rfl⟩
    | unary hn _ _ => exact absurd trivial hn
    | unaryMethod he' _ => cases he'
  | .unary hn he hr =>
    cases h' with
    | negative _ => exact absurd trivial hn
    | unary _ he' hr' =>
      obtain ⟨-, hk⟩ := he.unique he'
      cases hk
      rw [hr] at hr'; cases hr'; exact ⟨rfl, rfl⟩
    | unaryMethod he' _ => cases (he.unique he').2
  | .unaryMethod he hm =>
    cases h' with
    | negative _ => cases he
    | unary _ he' _ => cases (he.unique he').2
    | unaryMethod he' hm' =>
      obtain ⟨-, hk⟩ := he.unique he'
      cases hk
      rw [hm] at hm'; cases hm'; exact ⟨rfl, rfl⟩
  | .addressOf he =>
    cases h' with
    | addressOf he' => obtain ⟨-, rfl⟩ := he.unique he'; exact ⟨rfl, rfl⟩
  | .arrayNew ht _ _ =>
    cases h' with
    | arrayNew ht' _ _ => rw [ht] at ht'; cases ht'; exact ⟨rfl, rfl⟩
  | .cast _ ht =>
    cases h' with
    | cast _ ht' => rw [ht] at ht'; cases ht'; exact ⟨rfl, rfl⟩
  | .index ha _ _ =>
    cases h' with
    | index ha' _ _ =>
      obtain ⟨-, hk⟩ := ha.unique ha'
      cases hk; exact ⟨rfl, rfl⟩

theorem HasTypes.length_eq {x : Context} {Γ : Blocks} {es : List Expr} {ps : List Ty}
    (h : HasTypes x Γ es ps) : ps.length = es.length := by
  match h with
  | .nil => rfl
  | .cons _ _ h => rw [List.length_cons, List.length_cons, h.length_eq]

/-! ## Statements -/

mutual

/-- **A statement is in order**, and what the names stand for after it. -/
inductive StmtOk (x : Context) : Blocks → Stmt → Blocks → Prop where
  | expression {Γ e t sp} : HasType x Γ e .call t → StmtOk x Γ (.expression e sp) Γ
  | assignment {Γ a b f t sp} : HasType x Γ a .place t → HasType x Γ b f t →
      StmtOk x Γ (.assignment a b sp) Γ
  | ret {Γ sp} : x.result = .native .void → StmtOk x Γ (.ret none sp) Γ
  | retValue {Γ e f sp} : x.result ≠ .native .void → HasType x Γ e f x.result →
      StmtOk x Γ (.ret (some e) sp) Γ
  | varDecl {names Γ n type t sp} : type.denoted? x.dialect x.unit = some t →
      names.lookup n = none →
      StmtOk x (names :: Γ) (.varDecl n type none sp) (((n, ⟨t, false⟩) :: names) :: Γ)
  | varInit {names Γ n type e f t sp} : type.denoted? x.dialect x.unit = some t →
      HasType x (names :: Γ) e f t → names.lookup n = none →
      StmtOk x (names :: Γ) (.varDecl n type (some e) sp) (((n, ⟨t, false⟩) :: names) :: Γ)
  | ifElse {Γ c f yes no sp₁ sp₂ sp} : HasType x Γ c f (.native .boolean) →
      BodyOk x ([] :: Γ) yes → BodyOk x ([] :: Γ) no →
      StmtOk x Γ (.ifElse c (.mk yes sp₁) (.mk no sp₂) sp) Γ
  | ifThen {Γ c f yes sp₁ sp} : HasType x Γ c f (.native .boolean) → BodyOk x ([] :: Γ) yes →
      StmtOk x Γ (.ifThen c (.mk yes sp₁) sp) Γ
  | whileDo {Γ c f body sp₁ sp} : HasType x Γ c f (.native .boolean) → BodyOk x ([] :: Γ) body →
      StmtOk x Γ (.whileDo c (.mk body sp₁) sp) Γ
  | nested {Γ body sp} : BodyOk x ([] :: Γ) body → StmtOk x Γ (.nested (.mk body sp)) Γ

/-- Statements are in order one after the other. -/
inductive BodyOk (x : Context) : Blocks → List Stmt → Prop where
  | nil {Γ} : BodyOk x Γ []
  | cons {Γ Γ' s rest} : StmtOk x Γ s Γ' → BodyOk x Γ' rest → BodyOk x Γ (s :: rest)

end

/-! ## Declarations -/

section

variable (d : Dialect) (u : CompilationUnit)

/-- A declared method is in order: its types are known and its arguments have different names. In a
class, none of them is called `this`. -/
structure MethodDecl.Declared (inClass : Bool) (m : MethodDecl) : Prop where
  arguments : ∀ a ∈ m.arguments, (a.type.denoted? d u).isSome
  result : (m.result? d u).isSome
  distinct : (m.arguments.map ArgumentDecl.name).Nodup
  notThis : inClass = true → "this" ∉ m.arguments.map ArgumentDecl.name

/-- A declared class is in order. -/
structure ClassDecl.Declared (c : ClassDecl) : Prop where
  notNative : d.catalog.contains c.name = false
  fields : ∀ f ∈ c.fields, (f.type.denoted? d u).isSome
  fieldNames : (c.fields.map FieldDecl.name).Nodup
  methods : ∀ m ∈ c.methods, m.Declared d u true
  methodNames : (c.methods.map MethodDecl.name).Nodup

/-- **The declarations of a unit are in order.** -/
structure CompilationUnit.WellDeclared : Prop where
  classNames : (u.classes.map ClassDecl.name).Nodup
  classes : ∀ c ∈ u.classes, c.Declared d u
  functionNames : (u.functions.map MethodDecl.name).Nodup
  functions : ∀ f ∈ u.functions, f.Declared d u false

/-- The names that the body of a method starts with: its receiver and its arguments. -/
def MethodDecl.bindings (owner : Option ClassDecl) (m : MethodDecl) (parameters : List Ty) :
    Bindings :=
  (owner.toList.map fun c => ("this", ⟨.ofClass c.name, true⟩)) ++
    (m.arguments.map ArgumentDecl.name).zip (parameters.map fun t => ⟨t, false⟩)

/-- The body of a method, if it has one, is in order. -/
def MethodDecl.BodyTyped (owner : Option ClassDecl) (m : MethodDecl) : Prop :=
  ∀ body span, m.body = some (.mk body span) → ∀ g, m.signature? d u = some g →
    BodyOk ⟨d, u, owner, g.result⟩ [m.bindings owner g.parameters] body

/-- **A unit is well typed**: its declarations and all its bodies are in order. -/
structure CompilationUnit.WellTyped : Prop where
  declared : u.WellDeclared d
  methods : ∀ c ∈ u.classes, ∀ m ∈ c.methods, m.BodyTyped d u (some c)
  functions : ∀ f ∈ u.functions, f.BodyTyped d u none

end

end ClassLang
