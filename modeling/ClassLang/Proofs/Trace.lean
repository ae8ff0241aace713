import ClassLang.Proofs.Interning
import ClassLang.Proofs.Declare

/-!
# What resolution does, step by step

Every run of resolution, also one that ends with a fault, is a path of small steps (`Path`). Two
kinds of step are noted in a log: that a written type has been resolved, with the moment at which it
was, and that a class or method has been announced. The other steps enter a pointer or array type,
name the type of a class, add a member to a type, or leave alone all that types and methods are found
by.

* `Traces d m s spans Q`: run from `s`, `m` goes such a path. Its answer and the log satisfy `Q`; a
  fault is at one of the `spans`, or it is internal.
* `Traces.seq`, `Traces.forM`, `Traces.mapM`: paths of sequences and loops.
* `Path.roster_eq`: the methods of a program are those announced, in that order.
* `Path.className_announced`: every class of a program has been announced.
* `Expr.spans`, `Expr.types` and the like: all spans and all written types of a tree.
-/

namespace ClassLang

open Resolver Resolve

/-! ## Events -/

/-- What is known of a method as soon as it is announced. -/
structure Heading where
  owner : Option ClassId
  name : String
  kind : MethodKind
deriving DecidableEq

/-- The heading of a method. -/
def Method.heading (g : Method) : Heading := ⟨g.owner, g.name, g.kind⟩

/-- The headings of all methods, in the order of their numbers. -/
def Program.roster (p : Program) : List Heading := p.methods.toList.map Method.heading

/-- What becomes known before its parts are. -/
inductive Announcement where
  | ofClass (name : String)
  | method (heading : Heading)

/-- The heading of a method that is announced. -/
def Announcement.heading? : Announcement → Option Heading
  | ofClass _ => none
  | method h => some h

/-- What is noted of a run. -/
inductive Event where
  /-- A written type, seen from a scope at a moment, has been resolved to a number. -/
  | type (written : TypeName) (scope : ScopeId) (moment : Resolver) (id : TypeId)
  | announce (a : Announcement)

/-- The written types in a log. -/
def typesIn (log : List Event) : List TypeName :=
  log.filterMap fun
    | .type n _ _ _ => some n
    | .announce _ => none

/-- The announcements in a log. -/
def announcedIn (log : List Event) : List Announcement :=
  log.filterMap fun
    | .type _ _ _ _ => none
    | .announce a => some a

@[simp] theorem typesIn_append (log log' : List Event) :
    typesIn (log ++ log') = typesIn log ++ typesIn log' := List.filterMap_append

@[simp] theorem announcedIn_append (log log' : List Event) :
    announcedIn (log ++ log') = announcedIn log ++ announcedIn log' := List.filterMap_append

theorem mem_typesIn {log : List Event} {n : TypeName} :
    n ∈ typesIn log ↔ ∃ j moment id, .type n j moment id ∈ log := by
  unfold typesIn
  rw [List.mem_filterMap]
  constructor
  · rintro ⟨e, he, hn⟩
    cases e with
    | announce a => cases hn
    | type n' j moment id => cases hn; exact ⟨j, moment, id, he⟩
  · rintro ⟨j, moment, id, he⟩
    exact ⟨_, he, rfl⟩

/-- A log of these written types and these announcements. -/
structure Notes (log : List Event) (types : List TypeName) (announced : List Announcement) :
    Prop where
  types : typesIn log = types
  announced : announcedIn log = announced

namespace Notes

variable {log log' : List Event} {ts ts' : List TypeName} {as as' : List Announcement}

theorem nil : Notes [] [] [] := ⟨rfl, rfl⟩

theorem append (h : Notes log ts as) (h' : Notes log' ts' as') :
    Notes (log ++ log') (ts ++ ts') (as ++ as') where
  types := by rw [typesIn_append, h.types, h'.types]
  announced := by rw [announcedIn_append, h.announced, h'.announced]

end Notes

/-! ## Steps and paths -/

namespace Resolver

variable {s s' s'' : Resolver}

/-- Some scope names this type. -/
def NamesType (s : Resolver) (ty : TypeId) : Prop :=
  ∃ j sc, s.program.scopeAt? j = some sc ∧ ∃ n : String, sc.types[n]? = some ty

/-- The types stay as they are, and no other type gets a name. -/
structure KeepsTypes (s s' : Resolver) : Prop where
  registry : s'.registry = s.registry
  named : ∀ ty, s'.NamesType ty → s.NamesType ty

/-- **One step**, and what is noted of it. -/
inductive Step (d : Dialect) : Resolver → List Event → Resolver → Prop where
  | type {s s' : Resolver} {n : TypeName} {j : ScopeId} {id : TypeId}
    (h : n.resolve d j s = .ok id s') : Step d s [.type n j s id] s'
  | method {s s' : Resolver} {h : Heading} (hkeep : s.KeepsTypes s')
    (hroster : s'.program.roster = s.program.roster ++ [h]) :
    Step d s [.announce (.method h)] s'
  | ofClass {s : Resolver} (c : ClassId) (n : String) :
    Step d s [.announce (.ofClass n)] (s.withRegistry (s.registry.internClass c n).2)
  | part {s : Resolver} {k : TypeKind} {t : TypeId} (hk : k.part? = some t) :
    Step d s [] (s.withRegistry (s.registry.intern k).2)
  | named {s s' : Resolver} {c : ClassId} (hregistry : s'.registry = s.registry)
    (hnamed : ∀ ty, s'.NamesType ty → s.NamesType ty ∨ s.registry.find? (.ofClass c) = some ty)
    (hroster : s'.program.roster = s.program.roster) : Step d s [] s'
  | member {s : Resolver} {r : Registry} {id : TypeId} {n : String} {m : MethodId}
    (h : s.registry.addMember id n m = .ok r) : Step d s [] (s.withRegistry r)
  | quiet {s s' : Resolver} (hkeep : s.KeepsTypes s')
    (hroster : s'.program.roster = s.program.roster) : Step d s [] s'

/-- **Steps in turn**, and what is noted of them all. -/
inductive Path (d : Dialect) : Resolver → List Event → Resolver → Prop where
  | done (s : Resolver) : Path d s [] s
  | next {s s' s'' : Resolver} {events log : List Event} :
    Step d s events s' → Path d s' log s'' → Path d s (events ++ log) s''

variable {d : Dialect} {log log' : List Event}

theorem Path.trans (h : Path d s log s') (h' : Path d s' log' s'') :
    Path d s (log ++ log') s'' := by
  induction h with
  | done s => exact h'
  | next hstep _ ih =>
    rw [List.append_assoc]
    exact .next hstep (ih h')

theorem Step.path {events : List Event} (h : Step d s events s') : Path d s events s' := by
  rw [← List.append_nil events]
  exact .next h (.done s')

end Resolver

/-! ## What a written type does to the state -/

/-- Resolving a written type changes the registry alone, and only if it succeeds. -/
theorem TypeName.resolve_program (d : Dialect) (j : ScopeId) : ∀ (n : TypeName) (s : Resolver),
    match n.resolve d j s with
    | .ok _ s' => s'.program = s.program ∧ s.registry.Extends s'.registry
    | .error _ s' => s' = s := by
  intro n
  induction n with
  | named name span =>
    intro s
    rw [TypeName.resolve]
    cases hT : s.typeNamed d j name span with
    | ok ty => rw [Resolve.ask_of_ok hT]; exact ⟨rfl, .refl _⟩
    | error f => rw [Resolve.ask_of_error hT]
  | pointer n span ih | array n span ih =>
    intro s
    have h := ih s
    unfold TypeName.resolve
    simp only [bind, EStateM.bind]
    cases hn : n.resolve d j s with
    | ok id s' => rw [hn] at h; exact ⟨h.1, h.2.trans (Registry.intern_extends _ _)⟩
    | error f s' => rw [hn] at h; exact h

namespace Resolver

variable {s s' : Resolver} {d : Dialect} {log : List Event}

/-- What a step does to the list of methods. -/
theorem Step.roster_eq {events : List Event} (h : Step d s events s') :
    s'.program.roster =
      s.program.roster ++ (announcedIn events).filterMap Announcement.heading? := by
  cases h with
  | @type _ n j id h =>
    have hp := n.resolve_program d j s
    rw [h] at hp
    rw [hp.1]
    exact (List.append_nil _).symm
  | method _ hroster => exact hroster
  | ofClass c n | part _ => exact (List.append_nil _).symm
  | named _ _ hroster => exact hroster.trans (List.append_nil _).symm
  | member _ => exact (List.append_nil _).symm
  | quiet _ hroster => exact hroster.trans (List.append_nil _).symm

/-- **The methods of a program are those announced**, in that order. -/
theorem Path.roster_eq (h : Path d s log s') :
    s'.program.roster =
      s.program.roster ++ (announcedIn log).filterMap Announcement.heading? := by
  induction h with
  | done s => exact (List.append_nil _).symm
  | next hstep _ ih =>
    rw [ih, hstep.roster_eq, announcedIn_append, List.filterMap_append, List.append_assoc]

/-- What a step does to the names of classes. -/
theorem Step.className_announced {events : List Event} (h : Step d s events s') {c : ClassId}
    {n : String} (hn : s'.registry.className? c = some n) :
    s.registry.className? c = some n ∨ .ofClass n ∈ announcedIn events := by
  cases h with
  | @type _ w j id h =>
    have hp := w.resolve_program d j s
    rw [h] at hp
    exact .inl (hp.2.className? c ▸ hn)
  | method hkeep _ => exact .inl (hkeep.registry ▸ hn)
  | ofClass c' n' =>
    -- only here a name is entered, and it is the one announced
    have hnames : (s.registry.internClass c' n').2.classNames =
        s.registry.classNames.insert c'.index n' :=
      (Registry.intern_extends { s.registry with
        classNames := s.registry.classNames.insert c'.index n' } _).classNames
    unfold Registry.className? at hn ⊢
    rw [show (s.withRegistry _).registry.classNames = _ from hnames,
      Std.TreeMap.getElem?_insert] at hn
    split at hn
    · cases hn
      exact .inr (List.mem_singleton_self _)
    · exact .inl hn
  | @part k t hk => exact .inl ((s.registry.intern_extends k).className? c ▸ hn)
  | named hregistry _ _ => exact .inl (hregistry ▸ hn)
  | member h =>
    obtain ⟨e, -, rfl⟩ := Registry.addMember_eq_ok h
    exact .inl hn
  | quiet hkeep _ => exact .inl (hkeep.registry ▸ hn)

/-- **Every class of a program has been announced.** -/
theorem Path.className_announced (h : Path d s log s') {c : ClassId} {n : String}
    (hn : s'.registry.className? c = some n) :
    s.registry.className? c = some n ∨ .ofClass n ∈ announcedIn log := by
  induction h with
  | done s => exact .inl hn
  | next hstep _ ih =>
    rw [announcedIn_append]
    rcases ih hn with hn' | hin
    · exact (hstep.className_announced hn').imp_right (List.mem_append_left _)
    · exact .inr (List.mem_append_right _ hin)

end Resolver

/-! ## Spans of faults -/

/-- A fault at one of these places, or one of the resolver itself. -/
def Diagnostic.IsAt (spans : List Span) (f : Diagnostic) : Prop :=
  f.cause.isInternal = true ∨ f.span ∈ spans

theorem Diagnostic.IsAt.mono {spans spans' : List Span} {f : Diagnostic} (h : f.IsAt spans)
    (hsub : spans ⊆ spans') : f.IsAt spans' := h.imp_right fun hf => hsub hf

/-! ## Traces -/

/-- **From `s` on, `m` goes a path.** -/
def Traces {α : Type} (d : Dialect) (m : Resolve α) (s : Resolver) (spans : List Span)
    (Q : α → List Event → Prop) : Prop :=
  match m s with
  | .ok a s' => ∃ log, Path d s log s' ∧ Q a log
  | .error f s' => (∃ log, Path d s log s') ∧ f.IsAt spans

namespace Traces

variable {α β : Type} {d : Dialect} {m : Resolve α} {k : α → Resolve β} {s : Resolver}
  {spans spans' : List Span} {Q Q' : α → List Event → Prop} {R : β → List Event → Prop}

theorem pure {a : α} (h : Q a []) : Traces d (Pure.pure a : Resolve α) s spans Q :=
  ⟨[], .done s, h⟩

theorem refuse {cause : Cause} {span : Span} (h : span ∈ spans) :
    Traces d (Resolve.refuse cause span) s spans Q :=
  ⟨⟨[], .done s⟩, .inr h⟩

theorem imp (h : Traces d m s spans Q) (hsub : spans ⊆ spans') (hQ : ∀ a log, Q a log → Q' a log) :
    Traces d m s spans' Q' := by
  unfold Traces at *
  cases hm : m s with
  | ok a s' =>
    rw [hm] at h
    obtain ⟨log, hpath, hlog⟩ := h
    exact ⟨log, hpath, hQ a log hlog⟩
  | error f s' =>
    rw [hm] at h
    exact ⟨h.1, h.2.mono hsub⟩

theorem post (h : Traces d m s spans Q) (hQ : ∀ a log, Q a log → Q' a log) :
    Traces d m s spans Q' := h.imp (fun _ hsp => hsp) hQ

/-- **A sequence**: one path after the other. -/
theorem seq (h : Traces d m s spans Q)
    (hk : ∀ a s' log, m s = .ok a s' → Q a log →
      Traces d (k a) s' spans fun b log' => R b (log ++ log')) :
    Traces d (m >>= k) s spans R := by
  unfold Traces at h ⊢
  simp only [bind, EStateM.bind]
  cases hm : m s with
  | error f s' => rw [hm] at h; exact h
  | ok a s' =>
    rw [hm] at h
    obtain ⟨log, hpath, hlog⟩ := h
    have hnext := hk a s' log hm hlog
    unfold Traces at hnext
    show match k a s' with
      | .ok b s'' => ∃ l, Path d s l s'' ∧ R b l
      | .error f s'' => (∃ l, Path d s l s'') ∧ f.IsAt spans
    cases hk' : k a s' with
    | ok b s'' =>
      rw [hk'] at hnext
      obtain ⟨log', hpath', hlog'⟩ := hnext
      exact ⟨log ++ log', hpath.trans hpath', hlog'⟩
    | error f s'' =>
      rw [hk'] at hnext
      obtain ⟨⟨log', hpath'⟩, hf⟩ := hnext
      exact ⟨⟨log ++ log', hpath.trans hpath'⟩, hf⟩

theorem map {g : α → β} (h : Traces d m s spans fun a log => R (g a) log) :
    Traces d (g <$> m) s spans R := by
  unfold Traces at h ⊢
  simp only [Functor.map, EStateM.map]
  cases hm : m s with
  | ok a s' => rw [hm] at h; exact h
  | error f s' => rw [hm] at h; exact h

theorem get_seq {k : Resolver → Resolve β} (h : Traces d (k s) s spans R) :
    Traces d (get >>= k) s spans R := h

theorem ask {f : Resolver → Except Diagnostic α}
    (h : Yields (f s) (fun a => Q a []) (Diagnostic.IsAt spans)) :
    Traces d (Resolve.ask f) s spans Q := by
  unfold Resolve.ask
  apply get_seq
  unfold Yields at h
  cases hf : f s with
  | ok a => rw [hf] at h; exact ⟨[], .done s, h⟩
  | error f => rw [hf] at h; exact ⟨⟨[], .done s⟩, h⟩

/-- A question to the state, and what follows it. -/
theorem ask_seq {f : Resolver → Except Diagnostic α} {P : α → Prop}
    (h : Yields (f s) P (Diagnostic.IsAt spans))
    (hk : ∀ a, P a → Traces d (k a) s spans R) : Traces d (Resolve.ask f >>= k) s spans R := by
  unfold Resolve.ask
  rw [bind_assoc]
  apply get_seq
  unfold Yields at h
  cases hf : f s with
  | ok a => rw [hf] at h; exact hk a h
  | error f => rw [hf] at h; exact ⟨⟨[], .done s⟩, h⟩

/-- Through a list: the notes on its members stand one after the other. -/
theorem mapM {γ : Type} {f : γ → Resolve β} {types : γ → List TypeName}
    {announced : γ → List Announcement} {l : List γ}
    (h : ∀ a ∈ l, ∀ s, Traces d (f a) s spans fun _ log => Notes log (types a) (announced a)) :
    Traces d (l.mapM f) s spans
      fun _ log => Notes log (l.flatMap types) (l.flatMap announced) := by
  induction l generalizing s with
  | nil => rw [List.mapM_nil]; exact pure Notes.nil
  | cons a l ih =>
    rw [List.mapM_cons]
    refine (h a List.mem_cons_self s).seq fun b s' log _ hlog => ?_
    refine (ih fun b hb => h b (List.mem_cons_of_mem a hb)).seq fun bs s'' log' _ hlog' => pure ?_
    rw [List.append_nil]
    exact hlog.append hlog'

theorem forM {γ : Type} {f : γ → Resolve PUnit} {types : γ → List TypeName}
    {announced : γ → List Announcement} {l : List γ}
    (h : ∀ a ∈ l, ∀ s, Traces d (f a) s spans fun _ log => Notes log (types a) (announced a)) :
    Traces d (l.forM f) s spans
      fun _ log => Notes log (l.flatMap types) (l.flatMap announced) := by
  rw [forM_eq_mapM]
  exact map (mapM h)

end Traces

/-! ## Spans and written types -/

/-- Where a type is written, with what it is made from. -/
def TypeName.spans : TypeName → List Span
  | named _ span => [span]
  | pointer target span => span :: target.spans
  | array element span => span :: element.spans

mutual

/-- Where an expression and its parts are written. -/
def Expr.spans : Expr → List Span
  | .number _ span => [span]
  | .boolean _ span => [span]
  | .symbol _ span => [span]
  | .this span => [span]
  | .call _ args span => span :: Expr.spansAll args
  | .send target _ args span => span :: (target.spans ++ Expr.spansAll args)
  | .member target _ span => span :: target.spans
  | .binary _ left right span => span :: (left.spans ++ right.spans)
  | .unary _ operand span => span :: operand.spans
  | .addressOf operand span => span :: operand.spans
  | .arrayNew element size span => span :: (element.spans ++ size.spans)
  | .cast value target span => span :: (value.spans ++ target.spans)
  | .index array position span => span :: (array.spans ++ position.spans)

/-- Where expressions and their parts are written. -/
def Expr.spansAll : List Expr → List Span
  | [] => []
  | e :: es => e.spans ++ Expr.spansAll es

end

mutual

/-- The types written in an expression, in the order in which they are resolved. -/
def Expr.types : Expr → List TypeName
  | .number _ _ => []
  | .boolean _ _ => []
  | .symbol _ _ => []
  | .this _ => []
  | .call _ args _ => Expr.typesAll args
  | .send target _ args _ => target.types ++ Expr.typesAll args
  | .member target _ _ => target.types
  | .binary _ left right _ => left.types ++ right.types
  | .unary _ operand _ => operand.types
  | .addressOf operand _ => operand.types
  | .arrayNew element size _ => element :: size.types
  | .cast value target _ => value.types ++ [target]
  | .index array position _ => array.types ++ position.types

/-- The types written in expressions. -/
def Expr.typesAll : List Expr → List TypeName
  | [] => []
  | e :: es => e.types ++ Expr.typesAll es

end

theorem Expr.types_unary (op : UnaryOp) (e : Expr) (span : Span) :
    (Expr.unary op e span).types = e.types := by
  rw [Expr.types]

theorem Expr.span_mem_spans (e : Expr) : e.span ∈ e.spans := by
  cases e <;> simp [Expr.span, Expr.spans]

mutual

/-- Where a statement and its parts are written. -/
def Stmt.spans : Stmt → List Span
  | .expression e span => span :: e.spans
  | .assignment target value span => span :: (target.spans ++ value.spans)
  | .ret value span => span :: value.elim [] Expr.spans
  | .varDecl _ type value span => span :: (type.spans ++ value.elim [] Expr.spans)
  | .ifElse c yes no span => span :: (c.spans ++ yes.spans ++ no.spans)
  | .ifThen c yes span => span :: (c.spans ++ yes.spans)
  | .whileDo c body span => span :: (c.spans ++ body.spans)
  | .nested block => block.spans

/-- Where statements and their parts are written. -/
def Stmt.spansAll : List Stmt → List Span
  | [] => []
  | s :: rest => s.spans ++ Stmt.spansAll rest

/-- Where a block and its parts are written. -/
def Block.spans : Block → List Span
  | .mk body span => span :: Stmt.spansAll body

end

mutual

/-- The types written in a statement. -/
def Stmt.types : Stmt → List TypeName
  | .expression e _ => e.types
  | .assignment target value _ => target.types ++ value.types
  | .ret value _ => value.elim [] Expr.types
  | .varDecl _ type value _ => type :: value.elim [] Expr.types
  | .ifElse c yes no _ => c.types ++ yes.types ++ no.types
  | .ifThen c yes _ => c.types ++ yes.types
  | .whileDo c body _ => c.types ++ body.types
  | .nested block => block.types

/-- The types written in statements. -/
def Stmt.typesAll : List Stmt → List TypeName
  | [] => []
  | s :: rest => s.types ++ Stmt.typesAll rest

/-- The types written in a block. -/
def Block.types : Block → List TypeName
  | .mk body _ => Stmt.typesAll body

end

theorem Stmt.spans_nested (b : Block) : (Stmt.nested b).spans = b.spans := by rw [Stmt.spans]

theorem Stmt.types_nested (b : Block) : (Stmt.nested b).types = b.types := by rw [Stmt.types]

/-! ## The single steps -/

section Steps

variable {d : Dialect} {s s' : Resolver} {spans : List Span} {j : ScopeId} {n : String}
  {span : Span} {α : Type} {ty : TypeId} {m : MethodId}

theorem TypeName.resolve_isAt (n : TypeName) (s : Resolver) :
    Leads (n.resolve d j) s (fun _ _ => True) fun f => f.span ∈ n.spans := by
  induction n with
  | named name span =>
    unfold TypeName.resolve
    refine ask_leads ?_
    unfold Resolver.typeNamed
    cases s.scopes.findType? d.catalog j name with
    | some ty => exact Yields.ok trivial
    | none => exact Yields.error (List.mem_singleton_self span)
  | pointer n span ih | array n span ih =>
    unfold TypeName.resolve
    exact ih.seq_imp (fun _ h => List.mem_cons_of_mem _ h) fun _ _ _ => trivial

/-- **A written type** is resolved in one noted step, or not at all. -/
theorem TypeName.resolve_traces {n : TypeName} (hn : n.spans ⊆ spans) :
    Traces d (n.resolve d j) s spans fun _ log => Notes log [n] [] := by
  have hat := n.resolve_isAt (d := d) (j := j) s
  have hsame := n.resolve_program d j s
  unfold Leads at hat
  unfold Traces
  cases hrun : n.resolve d j s with
  | ok id s' => exact ⟨_, (Step.type hrun).path, rfl, rfl⟩
  | error f s' =>
    rw [hrun] at hat hsame
    subst hsame
    exact ⟨⟨[], .done s'⟩, .inr (hn hat)⟩

/-- Entering a pointer or array type. -/
theorem intern_traces {k : TypeKind} {t : TypeId} (hk : k.part? = some t) :
    Traces d (intern k) s spans fun _ log => log = [] :=
  ⟨[], (Step.part hk).path, rfl⟩

/-- A change of the state that no type and no method shows in. -/
theorem quiet_traces {m : Resolve α} {a : α} (s' : Resolver) (hm : m s = .ok a s')
    (hkeep : s.KeepsTypes s') (hroster : s'.program.roster = s.program.roster) :
    Traces d m s spans fun _ log => log = [] := by
  unfold Traces
  rw [hm]
  exact ⟨[], (Step.quiet hkeep hroster).path, rfl⟩

/-- The announcement of a method. -/
theorem method_traces {m : Resolve α} {a : α} {h : Heading} (s' : Resolver) (hm : m s = .ok a s')
    (hkeep : s.KeepsTypes s') (hroster : s'.program.roster = s.program.roster ++ [h]) :
    Traces d m s spans fun _ log => Notes log [] [.method h] := by
  unfold Traces
  rw [hm]
  exact ⟨_, (Step.method hkeep hroster).path, rfl, rfl⟩

/-- Scopes that are the same give names to the same types. -/
theorem Resolver.KeepsTypes.of_scopes (hregistry : s'.registry = s.registry)
    (hscopes : s'.program.scopes = s.program.scopes) : s.KeepsTypes s' := by
  refine ⟨hregistry, fun ty hty => ?_⟩
  unfold NamesType Program.scopeAt? at *
  rwa [hscopes] at hty

theorem pushScope_traces {kind : ScopeKind} {parent : ScopeId} :
    Traces d (Resolve.pushScope kind parent) s spans fun _ log => log = [] := by
  refine quiet_traces (s.pushScope (.empty kind (some parent))) rfl ⟨rfl, ?_⟩ rfl
  rintro ty ⟨j, sc, hsc, n, hn⟩
  rw [scopeAt?_pushScope] at hsc
  split at hsc
  · -- the new scope names nothing
    cases hsc
    simp [Scope.empty] at hn
  · exact ⟨j, sc, hsc, n, hn⟩

theorem addVariable_traces {kind : VariableKind} :
    Traces d (addVariable n ty kind span) s spans fun _ log => log = [] :=
  quiet_traces (s.pushVar ⟨n, ty, kind, none, span⟩) rfl (.of_scopes rfl rfl) rfl

theorem addClass_traces {i : ClassInfo} :
    Traces d (addClass i) s spans fun _ log => log = [] :=
  quiet_traces { s with program := (s.program.addClass i).2 } rfl (.of_scopes rfl rfl) rfl

theorem roster_push (p : Program) (g : Method) :
    ({ p with methods := p.methods.push g } : Program).roster = p.roster ++ [g.heading] := by
  simp [Program.roster]

theorem addMethod_traces {g : Method} :
    Traces d (addMethod g) s spans fun _ log => Notes log [] [.method g.heading] :=
  method_traces (s.pushMethod g) rfl (.of_scopes rfl rfl) (roster_push s.program g)

theorem addFunction_traces {g : Method} :
    Traces d (addFunction g) s spans fun _ log => Notes log [] [.method g.heading] :=
  method_traces (s.pushFunction g) rfl (.of_scopes rfl rfl) (roster_push s.program g)

/-- The faults of what only looks something up are internal. -/
theorem Diagnostic.internal_isAt (message : String) (span : Span) :
    (Diagnostic.internal message span).IsAt spans := .inl rfl

theorem Program.getClass_isAt (p : Program) (c : ClassId) :
    Yields (p.getClass c) (fun _ => True) (Diagnostic.IsAt spans) := by
  unfold Program.getClass
  cases p.classes[c.index]? with
  | some i => exact Yields.ok trivial
  | none => exact Yields.error (Diagnostic.internal_isAt _ _)

theorem Program.getMethod_isAt (p : Program) (m : MethodId) :
    Yields (p.getMethod m) (fun g => p.methods[m.index]? = some g) (Diagnostic.IsAt spans) := by
  unfold Program.getMethod
  cases p.methods[m.index]? with
  | some g => exact Yields.ok rfl
  | none => exact Yields.error (Diagnostic.internal_isAt _ _)

theorem Program.getVariable_isAt (p : Program) (v : VariableId) :
    Yields (p.getVariable v) (fun _ => True) (Diagnostic.IsAt spans) := by
  unfold Program.getVariable
  cases p.vars[v.index]? with
  | some x => exact Yields.ok trivial
  | none => exact Yields.error (Diagnostic.internal_isAt _ _)

/-- A change of the program in one step that is not noted. -/
theorem updateProgram_traces {f : Program → Except Diagnostic Program}
    (h : Yields (f s.program) (fun p => Step d s [] { s with program := p })
      (Diagnostic.IsAt spans)) :
    Traces d (updateProgram f) s spans fun _ log => log = [] := by
  unfold updateProgram
  exact Traces.ask_seq h fun p hp => ⟨[], hp.path, rfl⟩

theorem updateClass_traces {c : ClassId} {f : ClassInfo → ClassInfo} :
    Traces d (updateProgram fun p => p.updateClass c f) s spans fun _ log => log = [] := by
  refine updateProgram_traces ((Program.getClass_isAt s.program c).seq fun i _ => ?_)
  exact Yields.pure (.quiet (.of_scopes rfl rfl) rfl)

theorem updateMethod_traces {f : Method → Method} (hf : ∀ g, (f g).heading = g.heading) :
    Traces d (updateProgram fun p => p.updateMethod m f) s spans fun _ log => log = [] := by
  refine updateProgram_traces ((Program.getMethod_isAt s.program m).seq
    fun g hg => ?_)
  refine Yields.pure (.quiet (.of_scopes rfl rfl) ?_)
  obtain ⟨hlt, hg⟩ := Array.getElem?_eq_some_iff.1 hg
  -- in the list of headings the entry is replaced by itself
  apply List.ext_getElem?
  intro l
  simp only [Program.roster, List.getElem?_map, Array.getElem?_toList, Array.getElem?_setIfInBounds]
  by_cases hl : m.index = l
  · subst hl
    simp [hlt, hg, hf]
  · simp [hl]

/-- A scope that names the same types is another in one step that is not noted. -/
theorem setScope_quiet {sc sc' : Scope} (hsc : s.program.scopeAt? j = some sc)
    (htypes : sc'.types = sc.types) : Step d s [] (s.setScope j sc') := by
  refine .quiet ⟨rfl, ?_⟩ rfl
  rintro ty ⟨l, scl, hl, n, hn⟩
  have hset := scopeAt?_setScope hsc sc' l
  rw [hl] at hset
  split at hset
  · cases hset
    exact ⟨j, sc, hsc, n, htypes ▸ hn⟩
  · exact ⟨l, scl, hset.symm, n, hn⟩

/-- **A declaration** is one step, or no step at all where it fails. -/
theorem declare_traces {names : Scope.Names α} {a : α} (hspan : span ∈ spans)
    (hstep : ∀ sc, s.program.scopeAt? j = some sc →
      Step d s [] (s.setScope j (names.replace sc ((names.table sc).insert n a)))) :
    Traces d (updateScopes (ScopeTree.declare names j n a span)) s spans fun _ log => log = [] := by
  unfold Traces
  rcases ScopeTree.declare_cases names j n a span s.program.scopes with
    ⟨sc, hj, -, hrun⟩ | ⟨f, hrun, hf⟩
  · rw [updateScopes_of_ok hrun]
    exact ⟨[], (hstep sc hj).path, rfl⟩
  · rw [updateScopes_of_error hrun]
    refine ⟨⟨[], .done s⟩, hf.imp_right fun h => ?_⟩
    rwa [h]

theorem bindVariable_traces {kind : VariableKind} (hspan : span ∈ spans) :
    Traces d (bindVariable j n ty kind span) s spans fun _ log => log = [] := by
  unfold bindVariable
  refine addVariable_traces.seq fun v s' log _ hlog => ?_
  subst hlog
  refine (declare_traces hspan fun sc hsc => setScope_quiet hsc rfl).seq fun _ _ log _ hlog => ?_
  exact Traces.pure (by rw [hlog]; rfl)

/-- Binding the name of a method. -/
theorem declareMethod_scope_traces (hspan : span ∈ spans) :
    Traces d (updateScopes (ScopeTree.declareMethod j n m span)) s spans fun _ log => log = [] :=
  declare_traces hspan fun _ hsc => setScope_quiet hsc rfl

/-- Binding the name of a class to its type. -/
theorem declareType_scope_traces {c : ClassId} (hspan : span ∈ spans)
    (hfind : s.registry.find? (.ofClass c) = some ty) :
    Traces d (updateScopes (ScopeTree.declareType j n ty span)) s spans fun _ log => log = [] := by
  refine declare_traces hspan fun sc hsc => .named (c := c) rfl ?_ rfl
  rintro ty' ⟨l, scl, hl, n', hn'⟩
  have hset := scopeAt?_setScope hsc { sc with types := sc.types.insert n ty } l
  rw [show (s.setScope j { sc with types := sc.types.insert n ty }).program.scopeAt? l =
    some scl from hl] at hset
  split at hset
  · -- the changed scope names the type of the class, or what it named before
    cases hset
    rw [getElem?_insert_eq] at hn'
    split at hn'
    · cases hn'
      exact .inr hfind
    · exact .inl ⟨j, sc, hsc, n', hn'⟩
  · exact .inl ⟨l, scl, hset.symm, n', hn'⟩

theorem addMember_traces {id : TypeId} :
    Traces d (addMember id n m) s spans fun _ log => log = [] := by
  unfold addMember
  have hyields : Yields (s.registry.addMember id n m)
      (fun r => s.registry.addMember id n m = .ok r) (Diagnostic.IsAt spans) := by
    unfold Registry.addMember
    cases s.registry.entry? id with
    | some e => exact Yields.ok rfl
    | none => exact Yields.error (Diagnostic.internal_isAt _ _)
  refine Traces.ask_seq hyields fun r hr => ?_
  exact ⟨[], (Step.member hr).path, rfl⟩

end Steps

end ClassLang
