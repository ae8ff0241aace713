import ClassLang.Decl.Parser

/-!
# Programs written out

Every compilation unit has a canonical form as a list of words, which are tokens without a span
(`CompilationUnit.words`). Parentheses are set only around operands that need them:
`Expr.power` says how tightly an expression holds together when it is written without them, and an
operand is put into parentheses if that is not tight enough.

Two trees are the same up to spans if they are equal with all spans erased (`eraseSpans`).
-/

namespace ClassLang

/-! ## Words -/

/-- A token without its span: its kind and its text. -/
abbrev Word := Token.Kind × String

/-- A token without its span. -/
def Token.word (t : Token) : Word := (t.kind, t.value)

/-- The text of the tokens of a kind that has only one. -/
def Token.Kind.text : Token.Kind → String
  | eof => "EOF"
  | number => ""
  | identifier => ""
  | openBracket => "["
  | closeBracket => "]"
  | openParen => "("
  | closeParen => ")"
  | assignment => ":="
  | equals => "=="
  | notEquals => "!="
  | less => "<"
  | lessEquals => "<="
  | greater => ">"
  | greaterEquals => ">="
  | dot => "."
  | semicolon => ";"
  | colon => ":"
  | comma => ","
  | ampersand => "&"
  | plus => "+"
  | dash => "-"
  | slash => "/"
  | star => "*"
  | percent => "%"
  | kwClass => "class"
  | kwEnd => "end"
  | kwDo => "do"
  | kwIf => "if"
  | kwThen => "then"
  | kwElse => "else"
  | kwWhile => "while"
  | kwReturn => "return"
  | kwVar => "var"
  | kwNew => "new"
  | kwAs => "as"
  | kwThis => "this"
  | kwTrue => "true"
  | kwFalse => "false"
  | kwAnd => "and"
  | kwOr => "or"
  | kwNot => "not"

/-- The only word of a kind. -/
def mark (k : Token.Kind) : Word := (k, k.text)

/-- A name as a word. -/
def nameWord (name : String) : Word := (.identifier, name)

/-- A number as a word, in decimal digits. -/
def numberWord (n : Nat) : Word := (.number, n.repr)

/-- Some texts divided by commas. -/
def commaSeparated : List (List Word) → List Word
  | [] => []
  | [w] => w
  | w :: ws => w ++ mark .comma :: commaSeparated ws

/-- A text in parentheses, unless it may stand `bare`. -/
def enclosed (bare : Bool) (w : List Word) : List Word :=
  if bare then w else mark .openParen :: (w ++ [mark .closeParen])

/-! ## Types and expressions -/

/-- A type: its name and then its suffixes. -/
def TypeName.words : TypeName → List Word
  | named name _ => [nameWord name]
  | pointer target _ => target.words ++ [mark .star]
  | array element _ => element.words ++ [mark .openBracket, mark .closeBracket]

/-- The token that an operator between two operands is. -/
def BinaryOp.kind : BinaryOp → Token.Kind
  | add => .plus
  | subtract => .dash
  | multiply => .star
  | divide => .slash
  | modulo => .percent
  | less => .less
  | lessEquals => .lessEquals
  | greater => .greater
  | greaterEquals => .greaterEquals
  | equals => .equals
  | notEquals => .notEquals
  | and => .kwAnd
  | or => .kwOr

/-- How tightly an operator between two operands binds. -/
def BinaryOp.power : BinaryOp → Power
  | add | subtract => .additive
  | multiply | divide | modulo => .multiplicative
  | less | lessEquals | greater | greaterEquals | equals | notEquals => .relational
  | and | or => .logical

/-- The token that an operator before an operand is. -/
def UnaryOp.kind : UnaryOp → Token.Kind
  | negate => .dash
  | not => .kwNot

namespace Expr

/-- How tightly an expression holds together. Numbers, truth values, names, `this` and calls without
a target are atoms, an operator between two operands has its own power, and all else is loose. -/
def power : Expr → Power
  | number _ _ => .primary
  | boolean _ _ => .primary
  | symbol _ _ => .primary
  | call _ _ _ => .primary
  | this _ => .primary
  | binary op _ _ _ => op.power
  | _ => .lowest

/-- Whether an expression needs no parentheses where an operand is wanted. -/
def isAtom (e : Expr) : Bool := e.power = .primary

/-- Whether an expression needs no parentheses on the left of an operator: it is an atom, or an
operator that does not bind less tightly. -/
def bareLeft (e : Expr) (op : BinaryOp) : Bool := !e.power.below op.power

/-- Whether an expression needs no parentheses on the right of an operator: it is an atom, or an
operator that binds more tightly. -/
def bareRight (e : Expr) (op : BinaryOp) : Bool := op.power.below e.power

mutual

/-- **An expression.** -/
def words : Expr → List Word
  | .number n _ => [numberWord n]
  | .boolean b _ => [mark (if b then .kwTrue else .kwFalse)]
  | .symbol name _ => [nameWord name]
  | .this _ => [mark .kwThis]
  | .call name args _ =>
    nameWord name :: mark .openParen :: (commaSeparated (wordsAll args) ++ [mark .closeParen])
  | .send e name args _ =>
    enclosed e.isAtom e.words ++ mark .dot :: nameWord name :: mark .openParen ::
      (commaSeparated (wordsAll args) ++ [mark .closeParen])
  | .member e name _ => enclosed e.isAtom e.words ++ [mark .dot, nameWord name]
  | .binary op a b _ =>
    enclosed (a.bareLeft op) a.words ++ mark op.kind :: enclosed (b.bareRight op) b.words
  | .unary op e _ => mark op.kind :: enclosed e.isAtom e.words
  | .addressOf e _ => mark .ampersand :: enclosed e.isAtom e.words
  | .arrayNew type size _ =>
    mark .kwNew :: (type.words ++ mark .openBracket :: (size.words ++ [mark .closeBracket]))
  | .cast e type _ => enclosed e.isAtom e.words ++ mark .kwAs :: type.words
  | .index a i _ =>
    enclosed a.isAtom a.words ++ mark .openBracket :: (i.words ++ [mark .closeBracket])

/-- Some expressions, each for itself. -/
def wordsAll : List Expr → List (List Word)
  | [] => []
  | e :: es => e.words :: wordsAll es

end

/-- An operator between two operands, each in parentheses where it needs them. -/
theorem words_binary (op : BinaryOp) (a b : Expr) (sp : Span) : (Expr.binary op a b sp).words =
    enclosed (a.bareLeft op) a.words ++ mark op.kind :: enclosed (b.bareRight op) b.words := by
  rw [words]

end Expr

/-! ## Statements and declarations -/

/-- The value of a declared variable, if there is one. -/
def Stmt.initialWords : Option Expr → List Word
  | none => []
  | some e => mark .assignment :: e.words

/-- The value that is returned, if there is one. -/
def Stmt.valueWords : Option Expr → List Word
  | none => []
  | some e => e.words

mutual

/-- **A statement.** -/
def Stmt.words : Stmt → List Word
  | .expression e _ => e.words ++ [mark .semicolon]
  | .assignment a b _ => a.words ++ mark .assignment :: (b.words ++ [mark .semicolon])
  | .ret value _ => mark .kwReturn :: (Stmt.valueWords value ++ [mark .semicolon])
  | .varDecl name type value _ =>
    mark .kwVar :: nameWord name :: mark .colon ::
      (type.words ++ (Stmt.initialWords value ++ [mark .semicolon]))
  | .ifElse c yes no _ =>
    mark .kwIf :: (c.words ++ mark .kwThen ::
      (yes.words ++ mark .kwElse :: (no.words ++ [mark .kwEnd])))
  | .ifThen c yes _ => mark .kwIf :: (c.words ++ mark .kwThen :: (yes.words ++ [mark .kwEnd]))
  | .whileDo c body _ =>
    mark .kwWhile :: (c.words ++ mark .kwDo :: (body.words ++ [mark .kwEnd]))
  | .nested block => mark .kwDo :: (block.words ++ [mark .kwEnd])

/-- Some statements in turn. -/
def Stmt.wordsAll : List Stmt → List Word
  | [] => []
  | s :: rest => s.words ++ Stmt.wordsAll rest

/-- A block, without the words around it. -/
def Block.words : Block → List Word
  | .mk body _ => Stmt.wordsAll body

end

/-- An argument. -/
def ArgumentDecl.words (a : ArgumentDecl) : List Word :=
  nameWord a.name :: mark .colon :: a.type.words

/-- A field. -/
def FieldDecl.words (f : FieldDecl) : List Word :=
  nameWord f.name :: mark .colon :: (f.type.words ++ [mark .semicolon])

namespace MethodDecl

/-- The type a method gives, if one is written. -/
def resultWords : Option TypeName → List Word
  | none => []
  | some type => mark .colon :: type.words

/-- The body of a method, or a semicolon in its place. -/
def bodyWords : Option Block → List Word
  | none => [mark .semicolon]
  | some block => mark .kwDo :: (block.words ++ [mark .kwEnd])

/-- A method or function. -/
def words (m : MethodDecl) : List Word :=
  nameWord m.name :: mark .openParen :: (commaSeparated (m.arguments.map ArgumentDecl.words) ++
    mark .closeParen :: (resultWords m.result ++ bodyWords m.body))

end MethodDecl

/-- A field or method of a class. -/
def Feature.words : Feature → List Word
  | field f => f.words
  | method m => m.words

/-- A class. -/
def ClassDecl.words (c : ClassDecl) : List Word :=
  mark .kwClass :: nameWord c.name :: (c.features.flatMap Feature.words ++ [mark .kwEnd])

/-- A class or a function. -/
def Decl.words : Decl → List Word
  | ofClass c => c.words
  | ofFunction f => f.words

/-- **A compilation unit.** -/
def CompilationUnit.words (u : CompilationUnit) : List Word := u.decls.flatMap Decl.words

/-! ## Trees without spans -/

/-- A type without spans. -/
def TypeName.eraseSpans : TypeName → TypeName
  | named name _ => .named name .nowhere
  | pointer target _ => .pointer target.eraseSpans .nowhere
  | array element _ => .array element.eraseSpans .nowhere

mutual

/-- An expression without spans. -/
def Expr.eraseSpans : Expr → Expr
  | .number n _ => .number n .nowhere
  | .boolean b _ => .boolean b .nowhere
  | .symbol name _ => .symbol name .nowhere
  | .this _ => .this .nowhere
  | .call name args _ => .call name (Expr.eraseAll args) .nowhere
  | .send e name args _ => .send e.eraseSpans name (Expr.eraseAll args) .nowhere
  | .member e name _ => .member e.eraseSpans name .nowhere
  | .binary op a b _ => .binary op a.eraseSpans b.eraseSpans .nowhere
  | .unary op e _ => .unary op e.eraseSpans .nowhere
  | .addressOf e _ => .addressOf e.eraseSpans .nowhere
  | .arrayNew type size _ => .arrayNew type.eraseSpans size.eraseSpans .nowhere
  | .cast e type _ => .cast e.eraseSpans type.eraseSpans .nowhere
  | .index a i _ => .index a.eraseSpans i.eraseSpans .nowhere

/-- Some expressions without spans. -/
def Expr.eraseAll : List Expr → List Expr
  | [] => []
  | e :: es => e.eraseSpans :: Expr.eraseAll es

end

mutual

/-- A statement without spans. -/
def Stmt.eraseSpans : Stmt → Stmt
  | .expression e _ => .expression e.eraseSpans .nowhere
  | .assignment a b _ => .assignment a.eraseSpans b.eraseSpans .nowhere
  | .ret value _ => .ret (value.map Expr.eraseSpans) .nowhere
  | .varDecl name type value _ =>
    .varDecl name type.eraseSpans (value.map Expr.eraseSpans) .nowhere
  | .ifElse c yes no _ => .ifElse c.eraseSpans yes.eraseSpans no.eraseSpans .nowhere
  | .ifThen c yes _ => .ifThen c.eraseSpans yes.eraseSpans .nowhere
  | .whileDo c body _ => .whileDo c.eraseSpans body.eraseSpans .nowhere
  | .nested block => .nested block.eraseSpans

/-- Some statements without spans. -/
def Stmt.eraseAll : List Stmt → List Stmt
  | [] => []
  | s :: rest => s.eraseSpans :: Stmt.eraseAll rest

/-- A block without spans. -/
def Block.eraseSpans : Block → Block
  | .mk body _ => .mk (Stmt.eraseAll body) .nowhere

end

/-- An argument without spans. -/
def ArgumentDecl.eraseSpans (a : ArgumentDecl) : ArgumentDecl :=
  ⟨a.name, a.type.eraseSpans, .nowhere⟩

/-- A field without spans. -/
def FieldDecl.eraseSpans (f : FieldDecl) : FieldDecl := ⟨f.name, f.type.eraseSpans, .nowhere⟩

/-- A method without spans. -/
def MethodDecl.eraseSpans (m : MethodDecl) : MethodDecl :=
  ⟨m.name, m.arguments.map ArgumentDecl.eraseSpans, m.result.map TypeName.eraseSpans,
    m.body.map Block.eraseSpans, .nowhere⟩

/-- A feature without spans. -/
def Feature.eraseSpans : Feature → Feature
  | field f => .field f.eraseSpans
  | method m => .method m.eraseSpans

/-- A class without spans. -/
def ClassDecl.eraseSpans (c : ClassDecl) : ClassDecl :=
  ⟨c.name, c.features.map Feature.eraseSpans, .nowhere⟩

/-- A declaration without spans. -/
def Decl.eraseSpans : Decl → Decl
  | ofClass c => .ofClass c.eraseSpans
  | ofFunction f => .ofFunction f.eraseSpans

/-- A compilation unit without spans. -/
def CompilationUnit.eraseSpans (u : CompilationUnit) : CompilationUnit :=
  ⟨u.decls.map Decl.eraseSpans, .nowhere⟩

end ClassLang
