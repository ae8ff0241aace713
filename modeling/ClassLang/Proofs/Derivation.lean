import Mathlib.Algebra.Group.Nat.Defs
import ClassLang.Proofs.Print

/-!
# The grammar of the language

Which lists of tokens are written forms of which trees. The relations say nothing of how tokens are
read: there is no cursor and no lookahead. Spans are left open, so a tree is derived up to spans, but
every name and every number is the one of its token.

* `Listed`, `Repeated`, `Perhaps`, `After`: lists with commas, sequences and optional parts.
* `TypeName.Derives`, `Expr.Derives`, `Stmt.Derives`: types, expressions and statements.
* `CompilationUnit.Derives`: **whole texts.**

Expressions come in tiers, each named by the power of its operators. An operator between two operands
has an expression of its own tier on the left and one of a tighter tier on the right, so operators of
one power group to the left.
-/

namespace ClassLang

variable {α : Type}

/-! ## Lists and optional parts -/

/-- Items divided by commas. A comma may follow the last one. -/
inductive Listed (R : List Token → α → Prop) : List Token → List α → Prop
  | nil : Listed R [] []
  | last {ts : List Token} {a : α} : R ts a → Listed R ts [a]
  | more {ts us : List Token} {t : Token} {a : α} {as : List α} : R ts a → t.kind = .comma →
      Listed R us as → Listed R (ts ++ t :: us) (a :: as)

/-- Items one after the other. -/
inductive Repeated (R : List Token → α → Prop) : List Token → List α → Prop
  | nil : Repeated R [] []
  | cons {ts us : List Token} {a : α} {as : List α} : R ts a → Repeated R us as →
      Repeated R (ts ++ us) (a :: as)

/-- An item that may be missing. -/
inductive Perhaps (R : List Token → α → Prop) : List Token → Option α → Prop
  | none : Perhaps R [] none
  | some {ts : List Token} {a : α} : R ts a → Perhaps R ts (some a)

/-- An item behind a token of the kind `k`. -/
inductive After (k : Token.Kind) (R : List Token → α → Prop) : List Token → α → Prop
  | mk {t : Token} {ts : List Token} {a : α} : t.kind = k → R ts a → After k R (t :: ts) a

/-! ## Types -/

/-- **Types**: a name, and then stars and pairs of brackets. -/
inductive TypeName.Derives : List Token → TypeName → Prop
  | named {t : Token} {sp : Span} : t.kind = .identifier → Derives [t] (.named t.value sp)
  | pointer {ts : List Token} {t : Token} {type : TypeName} {sp : Span} : Derives ts type →
      t.kind = .star → Derives (ts ++ [t]) (.pointer type sp)
  | array {ts : List Token} {t t' : Token} {type : TypeName} {sp : Span} : Derives ts type →
      t.kind = .openBracket → t'.kind = .closeBracket → Derives (ts ++ [t, t']) (.array type sp)

/-! ## Expressions -/

namespace Expr

/-- The text of a number: decimal digits, which a plus sign may precede. The number is not too
large. -/
def Numeral (text : String) (n : Nat) : Prop :=
  ∃ digits : List Char, (text.toList = digits ∨ text.toList = '+' :: digits) ∧ digits ≠ [] ∧
    (∀ c ∈ digits, c.isDigit = true) ∧ Nat.ofDigitChars 10 digits 0 = n ∧ n ≤ 2 ^ 63

mutual

/-- **Expressions of a tier.** Those of the lowest one are all expressions. -/
inductive Derives : Power → List Token → Expr → Prop
  /-- A tighter expression is one of every looser tier. -/
  | tighter {p q : Power} {ts : List Token} {e : Expr} : p.rank < q.rank → Derives q ts e →
      Derives p ts e
  | binary {q : Power} {ts us : List Token} {t : Token} {op : BinaryOp} {a b : Expr} {sp : Span} :
      Derives op.power ts a → t.kind = op.kind → op.power.rank < q.rank → Derives q us b →
      Derives op.power (ts ++ t :: us) (.binary op a b sp)
  /-- A cast may have suffixes of its own. -/
  | cast {ts us vs : List Token} {t : Token} {e e' : Expr} {type : TypeName} {sp : Span} :
      Derives .cast ts e → t.kind = .kwAs → TypeName.Derives us type →
      Suffixes (.cast e type sp) vs e' → Derives .cast (ts ++ t :: (us ++ vs)) e'
  | unary {ts : List Token} {t : Token} {op : UnaryOp} {e : Expr} {sp : Span} : t.kind = op.kind →
      Derives .unary ts e → Derives .unary (t :: ts) (.unary op e sp)
  | addressOf {ts : List Token} {t : Token} {e : Expr} {sp : Span} : t.kind = .ampersand →
      Derives .unary ts e → Derives .unary (t :: ts) (.addressOf e sp)
  | suffixed {ts us : List Token} {e e' : Expr} : Primary ts e → Suffixes e us e' →
      Derives .unary (ts ++ us) e'

/-- Operands without a prefix or suffix. Parentheses leave no trace in the tree. -/
inductive Primary : List Token → Expr → Prop
  | number {t : Token} {n : Nat} {sp : Span} : t.kind = .number → Numeral t.value n →
      Primary [t] (.number n sp)
  | true {t : Token} {sp : Span} : t.kind = .kwTrue → Primary [t] (.boolean true sp)
  | false {t : Token} {sp : Span} : t.kind = .kwFalse → Primary [t] (.boolean false sp)
  | this {t : Token} {sp : Span} : t.kind = .kwThis → Primary [t] (.this sp)
  | symbol {t : Token} {sp : Span} : t.kind = .identifier → Primary [t] (.symbol t.value sp)
  | call {t l r : Token} {ts : List Token} {args : List Expr} {sp : Span} : t.kind = .identifier →
      l.kind = .openParen → Listed (Derives .lowest) ts args → r.kind = .closeParen →
      Primary (t :: l :: (ts ++ [r])) (.call t.value args sp)
  | grouping {l r : Token} {ts : List Token} {e : Expr} : l.kind = .openParen →
      Derives .lowest ts e → r.kind = .closeParen → Primary (l :: (ts ++ [r])) e
  | arrayNew {t l r : Token} {ts us : List Token} {type : TypeName} {size : Expr} {sp : Span} :
      t.kind = .kwNew → TypeName.Derives ts type → l.kind = .openBracket →
      Derives .lowest us size → r.kind = .closeBracket →
      Primary (t :: (ts ++ l :: (us ++ [r]))) (.arrayNew type size sp)

/-- Suffixes: with the tokens `ts` behind it, the first expression becomes the second. -/
inductive Suffixes : Expr → List Token → Expr → Prop
  | nil {e : Expr} : Suffixes e [] e
  | member {ts : List Token} {t n : Token} {e e' : Expr} {sp : Span} : Suffixes e ts e' →
      t.kind = .dot → n.kind = .identifier → Suffixes e (ts ++ [t, n]) (.member e' n.value sp)
  | send {ts us : List Token} {t n l r : Token} {e e' : Expr} {args : List Expr} {sp : Span} :
      Suffixes e ts e' → t.kind = .dot → n.kind = .identifier → l.kind = .openParen →
      Listed (Derives .lowest) us args → r.kind = .closeParen →
      Suffixes e (ts ++ t :: n :: l :: (us ++ [r])) (.send e' n.value args sp)
  | index {ts us : List Token} {l r : Token} {e e' position : Expr} {sp : Span} :
      Suffixes e ts e' → l.kind = .openBracket → Derives .lowest us position →
      r.kind = .closeBracket → Suffixes e (ts ++ l :: (us ++ [r])) (.index e' position sp)

end

end Expr

/-! ## Statements -/

/-- **Statements.** -/
inductive Stmt.Derives : List Token → Stmt → Prop
  | varDecl {w n c s : Token} {ts us : List Token} {type : TypeName} {value : Option Expr}
      {sp : Span} : w.kind = .kwVar → n.kind = .identifier → c.kind = .colon →
      TypeName.Derives ts type → Perhaps (After .assignment (Expr.Derives .lowest)) us value →
      s.kind = .semicolon →
      Derives (w :: n :: c :: (ts ++ (us ++ [s]))) (.varDecl n.value type value sp)
  | ifThen {w t x : Token} {ts us : List Token} {e : Expr} {yes : List Stmt} {sp sp' : Span} :
      w.kind = .kwIf → Expr.Derives .lowest ts e → t.kind = .kwThen → Repeated Derives us yes →
      x.kind = .kwEnd → Derives (w :: (ts ++ t :: (us ++ [x]))) (.ifThen e (.mk yes sp) sp')
  | ifElse {w t o x : Token} {ts us vs : List Token} {e : Expr} {yes no : List Stmt}
      {sp sp' sp'' : Span} : w.kind = .kwIf → Expr.Derives .lowest ts e → t.kind = .kwThen →
      Repeated Derives us yes → o.kind = .kwElse → Repeated Derives vs no → x.kind = .kwEnd →
      Derives (w :: (ts ++ t :: (us ++ o :: (vs ++ [x])))) (.ifElse e (.mk yes sp) (.mk no sp') sp'')
  | whileDo {w d x : Token} {ts us : List Token} {e : Expr} {body : List Stmt} {sp sp' : Span} :
      w.kind = .kwWhile → Expr.Derives .lowest ts e → d.kind = .kwDo → Repeated Derives us body →
      x.kind = .kwEnd → Derives (w :: (ts ++ d :: (us ++ [x]))) (.whileDo e (.mk body sp) sp')
  | nested {d x : Token} {ts : List Token} {body : List Stmt} {sp : Span} : d.kind = .kwDo →
      Repeated Derives ts body → x.kind = .kwEnd → Derives (d :: (ts ++ [x])) (.nested (.mk body sp))
  | ret {w s : Token} {ts : List Token} {value : Option Expr} {sp : Span} : w.kind = .kwReturn →
      Perhaps (Expr.Derives .lowest) ts value → s.kind = .semicolon →
      Derives (w :: (ts ++ [s])) (.ret value sp)
  | assignment {a s : Token} {ts us : List Token} {target value : Expr} {sp : Span} :
      Expr.Derives .lowest ts target → a.kind = .assignment → Expr.Derives .lowest us value →
      s.kind = .semicolon → Derives (ts ++ a :: (us ++ [s])) (.assignment target value sp)
  | expression {s : Token} {ts : List Token} {e : Expr} {sp : Span} : Expr.Derives .lowest ts e →
      s.kind = .semicolon → Derives (ts ++ [s]) (.expression e sp)

/-! ## Declarations -/

/-- Arguments. -/
inductive ArgumentDecl.Derives : List Token → ArgumentDecl → Prop
  | mk {n c : Token} {ts : List Token} {type : TypeName} {sp : Span} : n.kind = .identifier →
      c.kind = .colon → TypeName.Derives ts type → Derives (n :: c :: ts) ⟨n.value, type, sp⟩

/-- Fields. -/
inductive FieldDecl.Derives : List Token → FieldDecl → Prop
  | mk {n c s : Token} {ts : List Token} {type : TypeName} {sp : Span} : n.kind = .identifier →
      c.kind = .colon → TypeName.Derives ts type → s.kind = .semicolon →
      Derives (n :: c :: (ts ++ [s])) ⟨n.value, type, sp⟩

/-- Bodies of methods, or a semicolon in their place. -/
inductive MethodDecl.DerivesBody : List Token → Option Block → Prop
  | none {s : Token} : s.kind = .semicolon → DerivesBody [s] none
  | some {d x : Token} {ts : List Token} {body : List Stmt} {sp : Span} : d.kind = .kwDo →
      Repeated Stmt.Derives ts body → x.kind = .kwEnd →
      DerivesBody (d :: (ts ++ [x])) (some (.mk body sp))

/-- Methods and functions. -/
inductive MethodDecl.Derives : List Token → MethodDecl → Prop
  | mk {n l r : Token} {ts us vs : List Token} {arguments : List ArgumentDecl}
      {result : Option TypeName} {body : Option Block} {sp : Span} : n.kind = .identifier →
      l.kind = .openParen → Listed ArgumentDecl.Derives ts arguments → r.kind = .closeParen →
      Perhaps (After .colon TypeName.Derives) us result → DerivesBody vs body →
      Derives (n :: l :: (ts ++ r :: (us ++ vs))) ⟨n.value, arguments, result, body, sp⟩

/-- Fields and methods. -/
inductive Feature.Derives : List Token → Feature → Prop
  | field {ts : List Token} {f : FieldDecl} : FieldDecl.Derives ts f → Derives ts (.field f)
  | method {ts : List Token} {m : MethodDecl} : MethodDecl.Derives ts m → Derives ts (.method m)

/-- Classes. -/
inductive ClassDecl.Derives : List Token → ClassDecl → Prop
  | mk {w n x : Token} {ts : List Token} {features : List Feature} {sp : Span} :
      w.kind = .kwClass → n.kind = .identifier → Repeated Feature.Derives ts features →
      x.kind = .kwEnd → Derives (w :: n :: (ts ++ [x])) ⟨n.value, features, sp⟩

/-- Classes and functions. -/
inductive Decl.Derives : List Token → Decl → Prop
  | ofClass {ts : List Token} {c : ClassDecl} : ClassDecl.Derives ts c → Derives ts (.ofClass c)
  | ofFunction {ts : List Token} {f : MethodDecl} : MethodDecl.Derives ts f →
      Derives ts (.ofFunction f)

/-- **Compilation units**: declarations one after the other. -/
def CompilationUnit.Derives (ts : List Token) (u : CompilationUnit) : Prop :=
  Repeated Decl.Derives ts u.decls

end ClassLang
