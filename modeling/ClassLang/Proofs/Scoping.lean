import ClassLang.Proofs.MirrorBodies

/-!
# Lexical scoping of names

What a bare name in a body stands for, by an environment that is passed along: the blocks around a
place and the variables that they have bound so far, and the members of the class around.

* `Members.target?`: a variable of the nearest block that binds the name, or else a field, a method of
  the class, or a function.
* `Expr.Lowers`, `Stmt.Lowers`: which typed trees a tree may become, when each name in it stands for
  what the environment says. A statement says which variables are declared in it.
-/

namespace ClassLang

/-- What the body of a method can name without a target, apart from variables. -/
structure Members where
  field? : String → Option VariableId
  method? : String → Option MethodId
  function? : String → Option MethodId

/-- The members that the methods of a class can name, or the functions if there is none. -/
def Program.members (p : Program) (owner : Option ClassId) : Members where
  field? n := (owner.bind p.classAt?).bind fun i => i.fields[n]?
  method? n := (owner.bind p.classAt?).bind fun i => i.methods[n]?
  function? n := p.functions[n]?

/-- What a bare name stands for. -/
inductive Target where
  | variable (v : VariableId)
  | field (v : VariableId)
  | method (m : MethodId)
  | function (m : MethodId)

/-- **What a name stands for** inside the blocks `Δ`, from the inside out, and then among the
members: a field before a method, and a method before a function. -/
def Members.target? (M : Members) (Δ : List Locals) (n : String) : Option Target :=
  match Locals.find? Δ n, M.field? n, M.method? n, M.function? n with
  | some v, _, _, _ => some (.variable v)
  | none, some v, _, _ => some (.field v)
  | none, none, some m, _ => some (.method m)
  | none, none, none, some m => some (.function m)
  | none, none, none, none => none

/-- The node that stands for a target: fields and methods belong to the receiver. -/
inductive Target.Node (span : Span) : Target → TypedExpr → Prop where
  | variable {v ty} : Node span (.variable v) (.var v ty span)
  | field {v own ty} : Node span (.field v) (.field (.this own span) v ty span)
  | method {m own ty} : Node span (.method m) (.send (.this own span) m [] ty span)
  | function {m ty} : Node span (.function m) (.call m [] ty span)

/-- An expression as it is, or converted to a wider type. -/
def TypedExpr.Converts (t t' : TypedExpr) : Prop := t' = t ∨ ∃ ty, t' = .cast t true ty t.span

mutual

/-- **What an expression may become** where the blocks around bind `Δ`. Of the name of the receiver
nothing is said. -/
inductive Expr.Lowers (M : Members) (Δ : List Locals) : Expr → TypedExpr → Prop where
  | number {n ty span} : Expr.Lowers M Δ (.number n span) (.int n ty span)
  | boolean {b ty span} : Expr.Lowers M Δ (.boolean b span) (.bool b ty span)
  | name {n span q t} : n ≠ "this" → M.target? Δ n = some q → q.Node span t →
      Expr.Lowers M Δ (.symbol n span) t
  | receiverName {span t} : Expr.Lowers M Δ (.symbol "this" span) t
  | receiver {ty span} : Expr.Lowers M Δ (.this span) (.this ty span)
  | callMethod {n args ts m own ty span} : M.method? n = some m → Expr.LowersArgs M Δ args ts →
      Expr.Lowers M Δ (.call n args span) (.send (.this own span) m ts ty span)
  | callFunction {n args ts m ty span} : M.method? n = none → M.function? n = some m →
      Expr.LowersArgs M Δ args ts → Expr.Lowers M Δ (.call n args span) (.call m ts ty span)
  | send {e t n args ts m ty span} : Expr.Lowers M Δ e t → Expr.LowersArgs M Δ args ts →
      Expr.Lowers M Δ (.send e n args span) (.send t m ts ty span)
  | memberField {e t n f ty span} : Expr.Lowers M Δ e t →
      Expr.Lowers M Δ (.member e n span) (.field t f ty span)
  | memberMethod {e t n m ty span} : Expr.Lowers M Δ e t →
      Expr.Lowers M Δ (.member e n span) (.send t m [] ty span)
  | binary {op a b l r r' m ty span} : Expr.Lowers M Δ a l → Expr.Lowers M Δ b r → r.Converts r' →
      Expr.Lowers M Δ (.binary op a b span) (.binary m l r' ty span)
  | negative {n ty sp span} :
      Expr.Lowers M Δ (.unary .negate (.number n sp) span) (.int (-(n : Int)) ty span)
  | unary {op e t m ty span} : Expr.Lowers M Δ e t →
      Expr.Lowers M Δ (.unary op e span) (.unary m t ty span)
  | addressOf {e t ty span} : Expr.Lowers M Δ e t →
      Expr.Lowers M Δ (.addressOf e span) (.addressOf t ty span)
  | arrayNew {type e t t' element ty span} : Expr.Lowers M Δ e t → t.Converts t' →
      Expr.Lowers M Δ (.arrayNew type e span) (.arrayNew element t' ty span)
  | cast {e t type ty span} : Expr.Lowers M Δ e t →
      Expr.Lowers M Δ (.cast e type span) (.cast t false ty span)
  | index {a i l r r' ty span} : Expr.Lowers M Δ a l → Expr.Lowers M Δ i r → r.Converts r' →
      Expr.Lowers M Δ (.index a i span) (.index l r' ty span)

/-- What the arguments of a call may become. -/
inductive Expr.LowersArgs (M : Members) (Δ : List Locals) : List Expr → List TypedExpr → Prop where
  | nil : Expr.LowersArgs M Δ [] []
  | cons {e es t t' ts} : Expr.Lowers M Δ e t → t.Converts t' → Expr.LowersArgs M Δ es ts →
      Expr.LowersArgs M Δ (e :: es) (t' :: ts)

end

/-- What an expression that may be missing may become. -/
inductive Expr.LowersOptional (M : Members) (Δ : List Locals) :
    Option Expr → Option TypedExpr → Prop where
  | none : LowersOptional M Δ none none
  | some {e t} : Expr.Lowers M Δ e t → LowersOptional M Δ (some e) (some t)

/-- A variable that has been declared by a statement. -/
structure Declaration where
  id : VariableId
  name : String
  span : Span

mutual

/-- **What a statement may become** in a block that binds `names`, inside the blocks `Δ`; the names
that its block binds after it, and the declarations in it. The value of a declared variable does not
see the variable, and what is declared in a block is forgotten after it. -/
inductive Stmt.Lowers (M : Members) : Locals → List Locals → Stmt → Option TypedStmt → Locals →
    List Declaration → Prop where
  | expression {names Δ e t span} : e.Lowers M (names :: Δ) t →
      Stmt.Lowers M names Δ (.expression e span) (some (.call t)) names []
  | assignment {names Δ a b l r span} : a.Lowers M (names :: Δ) l → b.Lowers M (names :: Δ) r →
      Stmt.Lowers M names Δ (.assignment a b span) (some (.assignment l r span)) names []
  | ret {names Δ value t span} : Expr.LowersOptional M (names :: Δ) value t →
      Stmt.Lowers M names Δ (.ret value span) (some (.ret t span)) names []
  | varDecl {names Δ n type value t v span} (ty : TypeId) :
      Expr.LowersOptional M (names :: Δ) value t →
      Stmt.Lowers M names Δ (.varDecl n type value span)
        (t.map fun t => .assignment (.var v ty span) t span) ((n, v) :: names) [⟨v, n, span⟩]
  | ifElse {names Δ c yes no t y z span ds ds'} : c.Lowers M (names :: Δ) t →
      Block.Lowers M (names :: Δ) yes y ds → Block.Lowers M (names :: Δ) no z ds' →
      Stmt.Lowers M names Δ (.ifElse c yes no span) (some (.ifElse t y z span)) names (ds ++ ds')
  | ifThen {names Δ c yes t y l span ds} : c.Lowers M (names :: Δ) t →
      Block.Lowers M (names :: Δ) yes y ds →
      Stmt.Lowers M names Δ (.ifThen c yes span) (some (.ifElse t y (.mk [] l span) span)) names ds
  | whileDo {names Δ c body t b span ds} : c.Lowers M (names :: Δ) t →
      Block.Lowers M (names :: Δ) body b ds →
      Stmt.Lowers M names Δ (.whileDo c body span) (some (.whileDo t b span)) names ds
  | nested {names Δ block b ds} : Block.Lowers M (names :: Δ) block b ds →
      Stmt.Lowers M names Δ (.nested block) (some (.nested b)) names ds

/-- What statements may become, one after the other. -/
inductive Stmt.LowersAll (M : Members) : Locals → List Locals → List Stmt → List TypedStmt →
    List Declaration → Prop where
  | nil {names Δ} : Stmt.LowersAll M names Δ [] [] []
  | cons {names names' Δ st o rest ts ds ds'} : Stmt.Lowers M names Δ st o names' ds →
      Stmt.LowersAll M names' Δ rest ts ds' →
      Stmt.LowersAll M names Δ (st :: rest) (o.toList ++ ts) (ds ++ ds')

/-- What a block may become, which binds nothing at its start. -/
inductive Block.Lowers (M : Members) : List Locals → Block → TypedBlock → List Declaration →
    Prop where
  | mk {Δ body ts l span ds} : Stmt.LowersAll M [] Δ body ts ds →
      Block.Lowers M Δ (.mk body span) (.mk ts l span) ds

end

/-- What the body of a method may become, if it has one. It starts with the names of the receiver and
the arguments. -/
inductive Block.LowersOptional (M : Members) (names : Locals) :
    Option Block → Option TypedBlock → List Declaration → Prop where
  | none : LowersOptional M names none none []
  | some {body ts l span ds} : Stmt.LowersAll M names [] body ts ds →
      LowersOptional M names (some (.mk body span)) (some (.mk ts l span)) ds

/-- **The method `l` of a program is what `m` may become**: each argument has its variable, and the
body is scoped by the arguments, its blocks and the members of the class. -/
structure Program.LoweredMethod (p : Program) (m : MethodDecl) (l : MethodId) (g : Method)
    (ds : List Declaration) : Prop where
  method : p.methodAt? l = some g
  arguments : (g.arguments.map fun v => (p.varAt? v).map fun y => (y.name, y.kind)) =
    (m.arguments.zipIdx.map fun q => (q.1.name, .argument q.2)).map some
  body : Block.LowersOptional (p.members g.owner) (m.locals g) m.body g.body ds

/-- **The members of a program are those that a unit declares**: under each name there is the field,
the method or the function that its interface has there. -/
structure Members.Reads (M : Members) (s : Resolver) (I : Interface) (owner : Option String) :
    Prop where
  fields : ∀ n, (M.field? n).map s.namedVar? = (owner.bind fun c => I.field? c n).map some
  methods : ∀ n, (M.method? n).map s.callee? = (owner.bind fun c => I.method? c n).map some
  functions : ∀ n, (M.function? n).map s.callee? = (I.function? n).map some

end ClassLang
