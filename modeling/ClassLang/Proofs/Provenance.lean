import ClassLang.CommandLine
import ClassLang.Proofs.TraceUnit

/-!
# What is read comes from tokens

Whatever is read from some tokens, by whatever grammar, every span in it starts where one of the
tokens starts, and every declared name is the text of an identifier among them. If reading stops,
it stops at a token.

* `Keeps ts m R`: reading with `m` from a cursor over `ts` stays there; what is read satisfies `R`, and
  a complaint is about the span of a token.
* `CompilationUnit.parse_keeps`, `CompilationUnit.ofTokens_yields`: a whole unit.
-/

namespace ClassLang

open Parse

/-- A cursor that has only tokens of `ts` to read. -/
structure Cursor.Over (ts : List Token) (c : Cursor) : Prop where
  current : c.current ∈ ts
  ahead : c.ahead ⊆ ts

/-- A complaint about a token. -/
def Halt.AtToken (ts : List Token) (h : Halt) : Prop :=
  ∀ d, h = .refused d → ∃ t ∈ ts, d.span = t.span

/-- All these spans start where tokens start. -/
def StartAt (ts : List Token) (spans : List Span) : Prop :=
  ∀ sp ∈ spans, ∃ t ∈ ts, sp.start = t.span.start

/-- A name that is the text of an identifier. -/
def NamedIn (ts : List Token) (n : String) : Prop :=
  ∃ t ∈ ts, t.kind = .identifier ∧ t.value = n

section

variable {ts : List Token} {spans spans' : List Span} {sp sp' : Span}

theorem StartAt.nil : StartAt ts [] := fun _ h => absurd h List.not_mem_nil

theorem StartAt.append (h : StartAt ts spans) (h' : StartAt ts spans') :
    StartAt ts (spans ++ spans') := by
  intro sp hsp
  rcases List.mem_append.1 hsp with hsp | hsp
  · exact h sp hsp
  · exact h' sp hsp

/-- A span that starts at a token, before others. -/
theorem StartAt.cons {t : Token} (ht : t ∈ ts) (hsp : sp.start = t.span.start)
    (h : StartAt ts spans) : StartAt ts (sp :: spans) := by
  intro sp' hsp'
  rcases List.mem_cons.1 hsp' with rfl | hsp'
  · exact ⟨t, ht, hsp⟩
  · exact h sp' hsp'

/-- A span that starts where one of the others does. -/
theorem StartAt.grow (h : StartAt ts spans) (hin : sp' ∈ spans) (hsp : sp.start = sp'.start)
    (h' : StartAt ts spans') : StartAt ts (sp :: spans') := by
  obtain ⟨t, ht, hstart⟩ := h sp' hin
  exact .cons ht (hsp.trans hstart) h'

theorem StartAt.flatMap {α : Type} {f : α → List Span} {l : List α}
    (h : ∀ a ∈ l, StartAt ts (f a)) : StartAt ts (l.flatMap f) := by
  intro sp hsp
  obtain ⟨a, ha, hsp⟩ := List.mem_flatMap.1 hsp
  exact h a ha sp hsp

end

/-- **Reading over `ts`.** -/
def Keeps {α : Type} (ts : List Token) (m : Parse α) (R : α → Prop) : Prop :=
  ∀ c, Cursor.Over ts c → Leads m c (fun a c' => R a ∧ Cursor.Over ts c') (Halt.AtToken ts)

namespace Keeps

variable {α β : Type} {ts : List Token} {m : Parse α} {k : α → Parse β} {R R' : α → Prop}
  {S : β → Prop}

theorem pure {a : α} (h : R a) : Keeps ts (Pure.pure a : Parse α) R := fun _ hc => ⟨h, hc⟩

theorem endless : Keeps ts (throw .endless : Parse α) R := by
  intro c _ d hd
  cases hd

theorem imp (h : Keeps ts m R) (hR : ∀ a, R a → R' a) : Keeps ts m R' := fun c hc =>
  (h c hc).post (fun a _ ha => ⟨hR a ha.1, ha.2⟩)

theorem seq (h : Keeps ts m R) (hk : ∀ a, R a → Keeps ts (k a) S) : Keeps ts (m >>= k) S :=
  fun c hc => (h c hc).seq fun a c' ha => hk a ha.1 c' ha.2

theorem map {f : α → β} (h : Keeps ts m fun a => S (f a)) : Keeps ts (f <$> m) S :=
  fun c hc => Leads.map (h c hc)

theorem ite {p : Prop} [Decidable p] {m' : Parse α} (h : Keeps ts m R) (h' : Keeps ts m' R) :
    Keeps ts (if p then m else m') R := by
  split
  · exact h
  · exact h'

theorem get_seq {k : Cursor → Parse β} (hk : ∀ c, Cursor.Over ts c → Keeps ts (k c) S) :
    Keeps ts (get >>= k) S := fun c hc => hk c hc c hc

theorem refuse {d : Diagnostic} {t : Token} (ht : t ∈ ts) (hd : d.span = t.span) :
    Keeps ts (Parse.refuse d : Parse α) R := by
  intro c _ d' hd'
  cases hd'
  exact ⟨t, ht, hd⟩

theorem unexpected {message : String} : Keeps ts (Parse.unexpected message : Parse α) R :=
  get_seq fun _ hc => refuse hc.current rfl

theorem kind : Keeps ts Parse.kind fun _ => True := get_seq fun _ _ => pure trivial

theorem advance : Keeps ts Parse.advance fun t => t ∈ ts := by
  rintro ⟨t, _ | ⟨t', ahead⟩, past, lastEnd, size, fits⟩ hc
  · exact ⟨hc.current, hc.current, List.nil_subset ts⟩
  · refine ⟨hc.current, hc.ahead List.mem_cons_self, ?_⟩
    exact fun _ hmem => hc.ahead (List.mem_cons_of_mem _ hmem)

theorem expect {want : Token.Kind} :
    Keeps ts (Parse.expect want) fun t => t ∈ ts ∧ t.kind = want := by
  intro c hc
  unfold Parse.expect Parse.expectOr
  show Leads (if c.current.kind = want then Parse.advance else _) c _ _
  by_cases hk : c.current.kind = want
  · rw [if_pos hk]
    have hadvance := advance c hc
    exact ⟨⟨hc.current, hk⟩, hadvance.2⟩
  · rw [if_neg hk]
    exact refuse hc.current rfl c hc

theorem spanFrom {start : Position} : Keeps ts (Parse.spanFrom start) fun sp => sp.start = start :=
  get_seq fun _ _ => pure rfl

theorem within {reader : Nat → Parse α} (h : ∀ steps, Keeps ts (reader steps) R) :
    Keeps ts (Parse.within reader) R := get_seq fun _ _ => h _

/-- A list of things that are read one after the other. -/
theorem many {goes : Parse Bool} {item : Parse α} (hgoes : Keeps ts goes fun _ => True)
    (hitem : Keeps ts item R) : ∀ steps, Keeps ts (Parse.many goes item steps) fun as => ∀ a ∈ as, R a
  | 0 => endless
  | steps + 1 => by
    unfold Parse.many
    refine hgoes.seq fun b _ => ite ?_ (pure (List.forall_mem_nil _))
    refine hitem.seq fun a ha => (many hgoes hitem steps).seq fun as has => pure ?_
    exact List.forall_mem_cons.2 ⟨ha, has⟩

/-- A list with commas. -/
theorem listed {item : Parse α} (hitem : Keeps ts item R) :
    ∀ steps, Keeps ts (Parse.listed item steps) fun as => ∀ a ∈ as, R a
  | 0 => endless
  | steps + 1 => by
    unfold Parse.listed
    refine kind.seq fun k _ => ite (pure (List.forall_mem_nil _)) ?_
    refine hitem.seq fun a ha => kind.seq fun k' _ => ite ?_ ?_
    · refine advance.seq fun _ _ => (listed hitem steps).seq fun as has => pure ?_
      exact List.forall_mem_cons.2 ⟨ha, has⟩
    · exact pure (List.forall_mem_singleton.2 ha)

end Keeps

variable {ts : List Token} {g : Grammar}

/-! ## Types -/

namespace TypeName

theorem span_mem_spans (n : TypeName) : n.span ∈ n.spans := by
  cases n <;> exact List.mem_cons_self

theorem parseArray_keeps {n : TypeName} (h : StartAt ts n.spans) :
    Keeps ts (parseArray n) fun n' => StartAt ts n'.spans :=
  Keeps.expect.seq fun _ _ => Keeps.expect.seq fun _ _ => Keeps.spanFrom.seq fun _ hsp =>
    Keeps.pure (h.grow n.span_mem_spans hsp h)

theorem parsePointer_keeps {n : TypeName} (h : StartAt ts n.spans) :
    Keeps ts (parsePointer n) fun n' => StartAt ts n'.spans :=
  Keeps.expect.seq fun _ _ => Keeps.spanFrom.seq fun _ hsp =>
    Keeps.pure (h.grow n.span_mem_spans hsp h)

theorem parseSuffixes_keeps {power : Power} : ∀ (steps : Nat) {n : TypeName},
    StartAt ts n.spans → Keeps ts (parseSuffixes g power steps n) fun n' => StartAt ts n'.spans
  | 0, _, _ => Keeps.endless
  | steps + 1, n, h => by
    unfold parseSuffixes
    refine Keeps.get_seq fun c _ => ?_
    cases suffixAt? g power c with
    | none => exact Keeps.pure h
    | some rule =>
      cases rule with
      | array => exact (parseArray_keeps h).seq fun _ h' => parseSuffixes_keeps steps h'
      | pointer => exact (parsePointer_keeps h).seq fun _ h' => parseSuffixes_keeps steps h'

/-- **A type.** -/
theorem parse_keeps {power : Power} :
    Keeps ts (parse g power) fun n => StartAt ts n.spans := by
  unfold parse
  refine Keeps.kind.seq fun k _ => Keeps.ite ?_ Keeps.unexpected
  have hname : Keeps ts parseNamed fun n => StartAt ts n.spans :=
    Keeps.expect.seq fun t ht => Keeps.pure (.cons ht.1 rfl .nil)
  exact hname.seq fun n hn => Keeps.within fun steps => parseSuffixes_keeps steps hn

end TypeName

/-! ## Expressions -/

namespace Expr

theorem spansAll_eq (es : List Expr) : spansAll es = es.flatMap spans := by
  induction es with
  | nil => rw [spansAll]; rfl
  | cons e es ih => rw [spansAll, ih]; rfl

/-- What reads an expression, over `ts`. -/
def Sourced (ts : List Token) (sub : Power → Parse Expr) : Prop :=
  ∀ power, Keeps ts (sub power) fun e => StartAt ts e.spans

variable {sub : Power → Parse Expr}

theorem parseNumber_keeps : Keeps ts parseNumber fun e => StartAt ts e.spans := by
  unfold parseNumber
  refine Keeps.advance.seq fun t ht => ?_
  cases numberValue? t.value with
  | none => exact Keeps.refuse ht rfl
  | some n => exact Keeps.pure (.cons ht rfl .nil)

theorem parseCall_keeps (hsub : Sourced ts sub) {target : Option Expr}
    (htarget : ∀ e, target = some e → StartAt ts e.spans) :
    Keeps ts (parseCall sub target) fun e => StartAt ts e.spans := by
  unfold parseCall
  refine Keeps.expect.seq fun name hname => Keeps.expect.seq fun _ _ => ?_
  refine (Keeps.within (Keeps.listed (hsub .lowest))).seq fun args hargs => ?_
  have hall : StartAt ts (spansAll args) := by
    rw [spansAll_eq]
    exact .flatMap hargs
  refine Keeps.expect.seq fun _ _ => ?_
  cases target with
  | none =>
    refine Keeps.spanFrom.seq fun sp hsp => Keeps.pure ?_
    exact .cons hname.1 hsp hall
  | some e =>
    have he := htarget e rfl
    refine Keeps.spanFrom.seq fun sp hsp => Keeps.pure ?_
    exact he.grow e.span_mem_spans hsp (he.append hall)

theorem parsePrimary_keeps (hsub : Sourced ts sub) :
    Keeps ts (parsePrimary sub) fun e => StartAt ts e.spans := by
  unfold parsePrimary
  refine Keeps.kind.seq fun k _ => ?_
  split
  · exact parseNumber_keeps
  · refine Keeps.get_seq fun c _ => Keeps.ite (parseCall_keeps hsub nofun) ?_
    exact Keeps.advance.seq fun t ht => Keeps.pure (.cons ht rfl .nil)
  · exact Keeps.advance.seq fun t ht => Keeps.pure (.cons ht rfl .nil)
  · exact Keeps.advance.seq fun t ht => Keeps.pure (.cons ht rfl .nil)
  · exact Keeps.advance.seq fun t ht => Keeps.pure (.cons ht rfl .nil)
  · exact Keeps.unexpected

/-- **An operand**, by its rule. -/
theorem parseOperand_keeps (hsub : Sourced ts sub) (rule : OperandRule) :
    Keeps ts (parseOperand g sub rule) fun e => StartAt ts e.spans := by
  cases rule with
  | primary => exact parsePrimary_keeps hsub
  | unary =>
    refine Keeps.advance.seq fun t ht => (hsub .unary).seq fun e he => Keeps.pure ?_
    exact .cons ht rfl he
  | addressOf =>
    refine Keeps.advance.seq fun t ht => (hsub .unary).seq fun e he => ?_
    refine Keeps.spanFrom.seq fun sp hsp => Keeps.pure ?_
    exact .cons ht hsp he
  | grouping =>
    exact Keeps.advance.seq fun _ _ => (hsub .lowest).seq fun e he =>
      Keeps.expect.seq fun _ _ => Keeps.pure he
  | arrayNew =>
    refine Keeps.advance.seq fun t ht => TypeName.parse_keeps.seq fun n hn => ?_
    refine Keeps.expect.seq fun _ _ => (hsub .lowest).seq fun e he => ?_
    refine Keeps.expect.seq fun _ _ => Keeps.spanFrom.seq fun sp hsp => Keeps.pure ?_
    exact .cons ht hsp (hn.append he)

/-- **What follows an expression**, by its rule. It starts where the expression does. -/
theorem parseOperator_keeps (hsub : Sourced ts sub) (rule : OperatorRule) (power : Power)
    {e : Expr} (he : StartAt ts e.spans) :
    Keeps ts (parseOperator g sub rule power e) fun e' => StartAt ts e'.spans := by
  have hspan := e.span_mem_spans
  cases rule with
  | binary =>
    refine Keeps.kind.seq fun k _ => ?_
    cases binaryOp? k with
    | none => exact Keeps.unexpected
    | some op =>
      refine Keeps.advance.seq fun _ _ => (hsub power).seq fun e' he' => Keeps.pure ?_
      exact he.grow hspan rfl (he.append he')
  | cast =>
    refine Keeps.advance.seq fun _ _ => TypeName.parse_keeps.seq fun n hn => ?_
    refine Keeps.spanFrom.seq fun sp hsp => Keeps.pure ?_
    exact he.grow hspan hsp (he.append hn)
  | member =>
    refine Keeps.advance.seq fun _ _ => Keeps.get_seq fun c _ => Keeps.ite ?_ ?_
    · refine parseCall_keeps hsub ?_
      rintro _ ⟨⟩
      exact he
    · refine Keeps.expect.seq fun _ _ => Keeps.pure ?_
      exact he.grow hspan rfl he
  | index =>
    refine Keeps.advance.seq fun _ _ => (hsub .lowest).seq fun e' he' => ?_
    refine Keeps.expect.seq fun _ _ => Keeps.spanFrom.seq fun sp hsp => Keeps.pure ?_
    exact he.grow hspan hsp (he.append he')

theorem parseOperators_keeps (hsub : Sourced ts sub) {power : Power} : ∀ (steps : Nat) {e : Expr},
    StartAt ts e.spans → Keeps ts (parseOperators g sub power steps e) fun e' => StartAt ts e'.spans
  | 0, _, _ => Keeps.endless
  | steps + 1, e, he => by
    unfold parseOperators
    refine Keeps.kind.seq fun k _ => ?_
    cases operatorAt? g power k with
    | none => exact Keeps.pure he
    | some entry =>
      obtain ⟨p, rule⟩ := entry
      exact (parseOperator_keeps hsub rule p he).seq fun _ he' => parseOperators_keeps hsub steps he'

theorem parseWithin_keeps : ∀ depth, Sourced ts (parseWithin g depth)
  | 0 => fun _ => Keeps.endless
  | depth + 1 => by
    intro power
    have hsub : Sourced ts (parseWithin g depth) := parseWithin_keeps depth
    unfold parseWithin
    refine Keeps.kind.seq fun k _ => ?_
    cases g.operand k with
    | none => exact Keeps.unexpected
    | some rule =>
      refine (parseOperand_keeps hsub rule).seq fun e he => ?_
      exact Keeps.within fun steps => parseOperators_keeps hsub steps he

/-- **An expression.** -/
theorem parse_keeps {power : Power} : Keeps ts (parse g power) fun e => StartAt ts e.spans :=
  Keeps.within fun depth => parseWithin_keeps depth power

end Expr

/-! ## Statements -/

namespace Stmt

theorem spansAll_eq (stmts : List Stmt) : spansAll stmts = stmts.flatMap spans := by
  induction stmts with
  | nil => rw [spansAll]; rfl
  | cons s rest ih => rw [spansAll, ih]; rfl

end Stmt

namespace Block

variable {stmt : Parse Stmt}

theorem goesOn_keeps {ends : List Token.Kind} : Keeps ts (goesOn ends) fun _ => True :=
  Keeps.kind.seq fun _ _ => Keeps.ite (Keeps.pure trivial)
    (Keeps.ite Keeps.unexpected (Keeps.pure trivial))

theorem parseUntil_keeps {ends : List Token.Kind} (h : Keeps ts stmt fun s => StartAt ts s.spans) :
    Keeps ts (parseUntil stmt ends) fun b => StartAt ts b.spans := by
  refine Keeps.get_seq fun c hc => ?_
  refine (Keeps.within (Keeps.many goesOn_keeps h)).seq fun body hbody => ?_
  refine Keeps.get_seq fun c' _ => Keeps.pure ?_
  rw [spans, Stmt.spansAll_eq]
  exact .cons hc.current rfl (.flatMap hbody)

theorem parseDo_keeps (h : Keeps ts stmt fun s => StartAt ts s.spans) :
    Keeps ts (parseDo stmt) fun b => StartAt ts b.spans :=
  Keeps.expect.seq fun _ _ => (parseUntil_keeps h).seq fun _ hb =>
    Keeps.expect.seq fun _ _ => Keeps.pure hb

end Block

namespace Stmt

variable {stmt : Parse Stmt}

theorem parseName_keeps : Keeps ts parseName fun t => t ∈ ts :=
  Keeps.kind.seq fun _ _ => Keeps.ite Keeps.advance Keeps.unexpected

theorem parseInitial_keeps :
    Keeps ts (parseInitial g) fun e => StartAt ts (e.elim [] Expr.spans) :=
  Keeps.kind.seq fun _ _ => Keeps.ite (Keeps.advance.seq fun _ _ => Keeps.map Expr.parse_keeps)
    (Keeps.pure .nil)

theorem parseVarDecl_keeps : Keeps ts (parseVarDecl g) fun s => StartAt ts s.spans := by
  refine Keeps.advance.seq fun word hword => parseName_keeps.seq fun _ _ => ?_
  refine Keeps.expect.seq fun _ _ => TypeName.parse_keeps.seq fun type htype => ?_
  refine parseInitial_keeps.seq fun value hvalue => Keeps.expect.seq fun _ _ => ?_
  refine Keeps.spanFrom.seq fun sp hsp => Keeps.pure ?_
  exact .cons hword hsp (htype.append hvalue)

theorem parseIf_keeps (h : Keeps ts stmt fun s => StartAt ts s.spans) :
    Keeps ts (parseIf g stmt) fun s => StartAt ts s.spans := by
  refine Keeps.advance.seq fun word hword => Expr.parse_keeps.seq fun e he => ?_
  refine Keeps.expect.seq fun _ _ => (Block.parseUntil_keeps h).seq fun yes hyes => ?_
  refine Keeps.kind.seq fun _ _ => Keeps.ite ?_ ?_
  · refine Keeps.advance.seq fun _ _ => (Block.parseUntil_keeps h).seq fun no hno => ?_
    refine Keeps.expect.seq fun _ _ => Keeps.spanFrom.seq fun sp hsp => Keeps.pure ?_
    exact .cons hword hsp ((he.append hyes).append hno)
  · refine Keeps.expect.seq fun _ _ => Keeps.spanFrom.seq fun sp hsp => Keeps.pure ?_
    exact .cons hword hsp (he.append hyes)

theorem parseWhile_keeps (h : Keeps ts stmt fun s => StartAt ts s.spans) :
    Keeps ts (parseWhile g stmt) fun s => StartAt ts s.spans := by
  refine Keeps.advance.seq fun word hword => Expr.parse_keeps.seq fun e he => ?_
  refine (Block.parseDo_keeps h).seq fun body hbody => ?_
  refine Keeps.spanFrom.seq fun sp hsp => Keeps.pure ?_
  exact .cons hword hsp (he.append hbody)

theorem parseNested_keeps (h : Keeps ts stmt fun s => StartAt ts s.spans) :
    Keeps ts (parseNested stmt) fun s => StartAt ts s.spans := by
  refine Keeps.get_seq fun c hc => (Block.parseDo_keeps h).seq fun block hblock => ?_
  refine Keeps.spanFrom.seq fun sp hsp => Keeps.pure ?_
  -- The block inside is read with a span of its own, which is thrown away.
  obtain ⟨body, inner⟩ := block
  rw [Block.spans] at hblock
  rw [spans, Block.spans]
  exact .cons hc.current hsp fun sp' hsp' => hblock sp' (List.mem_cons_of_mem _ hsp')

theorem parseValue_keeps : Keeps ts (parseValue g) fun e => StartAt ts (e.elim [] Expr.spans) :=
  Keeps.kind.seq fun _ _ => Keeps.ite (Keeps.pure .nil) (Keeps.map Expr.parse_keeps)

theorem parseReturn_keeps : Keeps ts (parseReturn g) fun s => StartAt ts s.spans := by
  refine Keeps.advance.seq fun word hword => parseValue_keeps.seq fun value hvalue => ?_
  refine Keeps.expect.seq fun _ _ => Keeps.spanFrom.seq fun sp hsp => Keeps.pure ?_
  exact .cons hword hsp hvalue

theorem parseSimple_keeps : Keeps ts (parseSimple g) fun s => StartAt ts s.spans := by
  refine Expr.parse_keeps.seq fun e he => Keeps.kind.seq fun _ _ => Keeps.ite ?_ ?_
  · refine Keeps.advance.seq fun _ _ => Expr.parse_keeps.seq fun value hvalue => ?_
    refine Keeps.expect.seq fun _ _ => Keeps.spanFrom.seq fun sp hsp => Keeps.pure ?_
    exact he.grow e.span_mem_spans hsp (he.append hvalue)
  · refine Keeps.expect.seq fun _ _ => Keeps.spanFrom.seq fun sp hsp => Keeps.pure ?_
    exact he.grow e.span_mem_spans hsp he

theorem parseWithin_keeps : ∀ depth, Keeps ts (parseWithin g depth) fun s => StartAt ts s.spans
  | 0 => Keeps.endless
  | depth + 1 => by
    have h : Keeps ts (parseWithin g depth) fun s => StartAt ts s.spans := parseWithin_keeps depth
    unfold parseWithin
    refine Keeps.kind.seq fun k _ => ?_
    cases g.stmt k with
    | none => exact parseSimple_keeps
    | some rule =>
      cases rule with
      | varDecl => exact parseVarDecl_keeps
      | ifThen => exact parseIf_keeps h
      | whileDo => exact parseWhile_keeps h
      | nested => exact parseNested_keeps h
      | ret => exact parseReturn_keeps
      | any => exact h

/-- **A statement.** -/
theorem parse_keeps : Keeps ts (parse g) fun s => StartAt ts s.spans :=
  Keeps.within parseWithin_keeps

end Stmt

/-! ## Declarations -/

theorem ArgumentDecl.parse_keeps : Keeps ts (parse g) fun a => StartAt ts a.spans :=
  Keeps.expect.seq fun _ hname => Keeps.expect.seq fun _ _ => TypeName.parse_keeps.seq fun _ htype =>
    Keeps.spanFrom.seq fun _ hsp => Keeps.pure (.cons hname.1 hsp htype)

theorem FieldDecl.parse_keeps : Keeps ts (parse g) fun f => StartAt ts f.spans :=
  Keeps.expect.seq fun _ hname => Keeps.expect.seq fun _ _ => TypeName.parse_keeps.seq fun _ htype =>
    Keeps.expect.seq fun _ _ => Keeps.spanFrom.seq fun _ hsp =>
      Keeps.pure (.cons hname.1 hsp htype)

/-- A method whose spans start at tokens and whose name is an identifier. -/
structure MethodDecl.From (ts : List Token) (m : MethodDecl) : Prop where
  spans : StartAt ts m.spans
  name : NamedIn ts m.name

/-- A feature whose spans start at tokens, named by an identifier if it is a method. -/
structure Feature.From (ts : List Token) (f : Feature) : Prop where
  spans : StartAt ts f.spans
  method : ∀ m, f = .method m → NamedIn ts m.name

/-- A class whose spans start at tokens and whose name and methods are named by identifiers. -/
structure ClassDecl.From (ts : List Token) (c : ClassDecl) : Prop where
  spans : StartAt ts c.spans
  name : NamedIn ts c.name
  methods : ∀ m ∈ c.methods, NamedIn ts m.name

/-- A unit whose spans start at tokens and whose classes and methods are named by identifiers. -/
structure CompilationUnit.From (ts : List Token) (u : CompilationUnit) : Prop where
  spans : StartAt ts u.spans
  classes : ∀ c ∈ u.classes, NamedIn ts c.name ∧ ∀ m ∈ c.methods, NamedIn ts m.name
  functions : ∀ f ∈ u.functions, NamedIn ts f.name

namespace MethodDecl

theorem parseArguments_keeps :
    Keeps ts (parseArguments g) fun as => StartAt ts (as.flatMap ArgumentDecl.spans) :=
  Keeps.expect.seq fun _ _ => (Keeps.within (Keeps.listed ArgumentDecl.parse_keeps)).seq fun _ has =>
    Keeps.expect.seq fun _ _ => Keeps.pure (.flatMap has)

theorem parseResult_keeps :
    Keeps ts (parseResult g) fun n => StartAt ts (n.elim [] TypeName.spans) :=
  Keeps.kind.seq fun _ _ => Keeps.ite (Keeps.advance.seq fun _ _ => Keeps.map TypeName.parse_keeps)
    (Keeps.pure .nil)

theorem parseBody_keeps : Keeps ts (parseBody g) fun b => StartAt ts (b.elim [] Block.spans) := by
  refine Keeps.kind.seq fun k _ => ?_
  split
  · exact Keeps.map (Block.parseDo_keeps Stmt.parse_keeps)
  · exact Keeps.advance.seq fun _ _ => Keeps.pure .nil
  · exact Keeps.unexpected

/-- **A method.** -/
theorem parse_keeps : Keeps ts (parse g) (From ts) := by
  refine Keeps.expect.seq fun name hname => parseArguments_keeps.seq fun args hargs => ?_
  refine parseResult_keeps.seq fun result hresult => parseBody_keeps.seq fun body hbody => ?_
  refine Keeps.spanFrom.seq fun sp hsp => Keeps.pure ⟨?_, name, hname.1, hname.2, rfl⟩
  exact .cons hname.1 hsp ((hargs.append hresult).append hbody)

end MethodDecl

theorem Feature.parse_keeps : Keeps ts (parse g) (From ts) := by
  refine Keeps.kind.seq fun k _ => Keeps.ite (Keeps.get_seq fun c _ => ?_) Keeps.unexpected
  split
  · refine Keeps.map (FieldDecl.parse_keeps.imp fun f hf => ⟨hf, nofun⟩)
  · refine Keeps.map (MethodDecl.parse_keeps.imp fun m hm => ⟨hm.spans, ?_⟩)
    rintro _ ⟨⟩
    exact hm.name
  · exact Keeps.advance.seq fun _ _ => Keeps.unexpected

/-- **A class.** -/
theorem ClassDecl.parse_keeps : Keeps ts (parse g) (From ts) := by
  have hgoes : Keeps ts goesOn fun _ => True := Keeps.kind.seq fun _ _ => Keeps.pure trivial
  refine Keeps.expect.seq fun word hword => Keeps.expect.seq fun name hname => ?_
  refine (Keeps.within (Keeps.many hgoes Feature.parse_keeps)).seq fun features hfeatures => ?_
  refine Keeps.expect.seq fun _ _ => Keeps.spanFrom.seq fun sp hsp => Keeps.pure ?_
  refine ⟨.cons hword.1 hsp (.flatMap fun f hf => (hfeatures f hf).spans),
    ⟨name, hname.1, hname.2, rfl⟩, ?_⟩
  intro m hm
  exact (hfeatures _ (mem_methods.1 hm)).method m rfl

namespace CompilationUnit

/-- **A unit.** -/
theorem parse_keeps {file : String} : Keeps ts (parse g file) (From ts) := by
  have hgoes : Keeps ts goesOn fun _ => True := Keeps.get_seq fun _ _ => Keeps.pure trivial
  have hdecl : Keeps ts (Decl.parse g) fun decl => (∀ c, decl = .ofClass c → c.From ts) ∧
      ∀ f, decl = .ofFunction f → f.From ts := by
    refine Keeps.kind.seq fun k _ => ?_
    split
    · refine Keeps.map (ClassDecl.parse_keeps.imp fun c hc => ⟨?_, nofun⟩)
      rintro _ ⟨⟩
      exact hc
    · refine Keeps.map (MethodDecl.parse_keeps.imp fun f hf => ⟨nofun, ?_⟩)
      rintro _ ⟨⟩
      exact hf
    · exact Keeps.unexpected
  refine (Keeps.within (Keeps.many hgoes hdecl)).seq fun decls hdecls => ?_
  refine Keeps.get_seq fun c _ => Keeps.pure ⟨.flatMap ?_, ?_, ?_⟩
  · intro decl hmem
    cases decl with
    | ofClass c => exact ((hdecls _ hmem).1 c rfl).spans
    | ofFunction f => exact ((hdecls _ hmem).2 f rfl).spans
  · intro c hc
    have hfrom := (hdecls _ (mem_classes.1 hc)).1 c rfl
    exact ⟨hfrom.name, hfrom.methods⟩
  · intro f hf
    exact ((hdecls _ (mem_functions.1 hf)).2 f rfl).name

/-- **What is read from tokens, and where reading stops.** -/
theorem ofTokens_yields (file : String) (ts : List Token) :
    Yields (ofTokens file ts) (From ts) (Halt.AtToken ts) := by
  cases ts with
  | nil =>
    intro d hd
    cases hd
  | cons t rest =>
    have hover : Cursor.Over (t :: rest) ⟨t, rest, false, .origin file, rest.length + 1,
        Nat.lt_succ_self _⟩ :=
      ⟨List.mem_cons_self, fun _ h => List.mem_cons_of_mem _ h⟩
    have hparse : Keeps (t :: rest) (parse .standard file) (From (t :: rest)) := parse_keeps
    have hrun := hparse _ hover
    unfold ofTokens
    simp only [Cursor.ofTokens?]
    unfold Leads at hrun
    split at hrun
    · rename_i u c heq
      rw [heq]
      exact hrun.1
    · rename_i halt c heq
      rw [heq]
      exact hrun

end CompilationUnit

/-! ## Texts -/

/-- A text is compiled by way of its tokens and of the unit that is read from them. -/
theorem compile_eq_ok {file source : String} {x : Registry × Program}
    (h : compile file source = .ok x) : ∃ ts u, Token.ofText file source = .ok ts ∧
      CompilationUnit.ofTokens file ts = .ok u ∧ u.resolve .standard = .ok x := by
  unfold compile at h
  split at h
  · cases h
  · rename_i ts hscan
    cases hparse : CompilationUnit.ofTokens file ts with
    | error halt => rw [hparse] at h; cases h
    | ok u =>
      simp only [hparse, bind, Except.bind] at h
      split at h
      · cases h
      · rename_i hresolve
        cases h
        exact ⟨ts, u, hscan, hparse, hresolve⟩

end ClassLang
