import ClassLang.Proofs.Handles

/-!
# What resolution guarantees

The results on whole compilation units, for every dialect and every unit.

* `resolve_bodiesTyped`: every body in a resolved program is a well-typed tree.
* `resolve_closed`: resolution never blames itself, and what it gives has no dangling handle, so
  every walk through it ends.
* `resolve_ok_iff`: a unit is resolved if and only if it is well typed by the type rules, which know
  neither handles nor scopes.
-/

namespace ClassLang

open Resolver Resolve

variable {d : Dialect} {u : CompilationUnit}

section Answers

variable {ε α : Type} {x : Except ε α}

theorem exists_ok (h : x.isOk = true) : ∃ a, x = .ok a := by
  cases x with
  | ok a => exact ⟨a, rfl⟩
  | error f => cases h

theorem exists_error (h : x.isOk = false) : ∃ f, x = .error f := by
  cases x with
  | ok a => cases h
  | error f => exact ⟨f, rfl⟩

end Answers

/-- **What the run leads to** from the initial state is true of the answer. Both have names of their
own, so that nothing evaluates them. -/
theorem CompilationUnit.yields_of_leads {x : Except Diagnostic (Registry × Program)}
    {P : Registry → Program → Prop} {E : Diagnostic → Prop} (run : ∀ s₀, s₀ = Resolver.initial →
      Leads (resolveUnit d u) s₀ (fun _ s => P s.registry s.program) E) (hx : u.resolve d = x) :
    Yields x (fun y => P y.1 y.2) E := by
  obtain ⟨s₀, h₀⟩ : ∃ s, s = Resolver.initial := ⟨_, rfl⟩
  have hrun := run s₀ h₀
  unfold CompilationUnit.resolve at hx
  rw [← h₀] at hx
  unfold Leads at hrun
  cases hr : resolveUnit d u s₀ with
  | ok _ s | error fault _ =>
    rw [hr] at hrun hx
    subst hx
    exact hrun

/-- **Resolution as a whole**: it gives what a finished state holds, or refuses a unit that is not
well typed. -/
theorem CompilationUnit.resolve_yields {x : Except Diagnostic (Registry × Program)}
    (hx : u.resolve d = x) :
    Yields x (fun y => ∃ s : Resolver, s.registry = y.1 ∧ s.program = y.2 ∧ s.Finished d u)
      (Refused (u.WellTyped d)) :=
  yields_of_leads (P := fun r p => ∃ s : Resolver, s.registry = r ∧ s.program = p ∧ s.Finished d u)
    (fun _ h₀ => (resolveUnit_leads d u h₀).post (fun _ s hs => ⟨s, rfl, rfl, hs⟩)) hx

/-- What is resolved comes from a finished state. -/
theorem CompilationUnit.finished_of_resolve {r : Registry} {p : Program}
    (h : u.resolve d = .ok (r, p)) :
    ∃ s : Resolver, s.registry = r ∧ s.program = p ∧ s.Finished d u :=
  resolve_yields h

/-- What is refused is not well typed, and the fault is not internal. -/
theorem CompilationUnit.refused_of_resolve {fault : Diagnostic} (h : u.resolve d = .error fault) :
    Refused (u.WellTyped d) fault :=
  resolve_yields h

/-! ## Well-typed bodies -/

/-- The receiver of every method that has one has the type of the method's class. -/
def Program.ReceiversTyped (p : Program) : Prop :=
  ∀ m g ty, p.methodAt? m = some g → p.receiverType? g = some ty →
    ∃ c i, g.owner = some c ∧ p.classAt? c = some i ∧ i.ty = ty

theorem Resolver.Sound.receiversTyped {s : Resolver} (hs : s.Sound) :
    s.program.ReceiversTyped := by
  intro m g ty hg hty
  obtain ⟨v, hv, hvar⟩ := Option.bind_eq_some_iff.1 hty
  obtain ⟨x, hx, rfl⟩ := Option.map_eq_some_iff.1 hvar
  obtain ⟨c, i, x', ho, hi, hx', hty'⟩ := (hs.methods m g hg).receiver v hv
  rw [hx] at hx'
  cases hx'
  exact ⟨c, i, ho, hi, hty'.symm⟩

/-- **Every body of a resolved program is well typed**, in every node: each handle leads to an entity
of the right sort, and the types of all parts are as that entity says. No declared method and no
written body is lost. -/
theorem CompilationUnit.resolve_bodiesTyped {d : Dialect} {u : CompilationUnit} {r : Registry}
    {p : Program} (h : u.resolve d = .ok (r, p)) :
    p.BodiesTyped d.conversions r ∧ p.ReceiversTyped ∧ p.HasMethods u := by
  obtain ⟨s, rfl, rfl, hs⟩ := u.finished_of_resolve h
  exact ⟨hs.typed, hs.sound.receiversTyped, hs.methods⟩

/-- A class that counts, and a function that uses it:
```
class Counter
  count: Integer;
  cells: Int8*[];
  add(step: Int64): Integer do
    var i: Integer := 0;
    while i < 3 do
      i := i + 1;
      cells[i] := &this.last;
    end
    if not (step == 0) then count := count + i; else reset(); end
    return this.count * -2;
  end
  last: Int8;
  reset() do cells := new Int8*[count]; end
end
main() do
  var c: Counter;
  c.add(5);
end
``` -/
def Counter.unit : CompilationUnit :=
  let sp := Span.nowhere
  let integer := TypeName.named "Integer" sp
  let cell := TypeName.pointer (.named "Int8" sp) sp
  let body : List Stmt :=
    [.varDecl "i" integer (some (.number 0 sp)) sp,
     .whileDo (.binary .less (.symbol "i" sp) (.number 3 sp) sp)
       (.mk [.assignment (.symbol "i" sp) (.binary .add (.symbol "i" sp) (.number 1 sp) sp) sp,
         .assignment (.index (.symbol "cells" sp) (.symbol "i" sp) sp)
           (.addressOf (.member (.this sp) "last" sp) sp) sp] sp) sp,
     .ifElse (.unary .not (.binary .equals (.symbol "step" sp) (.number 0 sp) sp) sp)
       (.mk [.assignment (.symbol "count" sp)
         (.binary .add (.symbol "count" sp) (.symbol "i" sp) sp) sp] sp)
       (.mk [.expression (.call "reset" [] sp) sp] sp) sp,
     .ret (some (.binary .multiply (.member (.this sp) "count" sp)
       (.unary .negate (.number 2 sp) sp) sp)) sp]
  ⟨[.ofClass ⟨"Counter",
      [.field ⟨"count", integer, sp⟩, .field ⟨"cells", .array cell sp, sp⟩,
       .method ⟨"add", [⟨"step", .named "Int64" sp, sp⟩], some integer, some (.mk body sp), sp⟩,
       .field ⟨"last", .named "Int8" sp, sp⟩,
       .method ⟨"reset", [], none, some (.mk [.assignment (.symbol "cells" sp)
         (.arrayNew cell (.symbol "count" sp) sp) sp] sp), sp⟩], sp⟩,
    .ofFunction ⟨"main", [], none, some (.mk [.varDecl "c" (.named "Counter" sp) none sp,
      .expression (.send (.symbol "c" sp) "add" [.number 5 sp] sp) sp] sp), sp⟩], sp⟩

set_option maxRecDepth 100000 in
theorem Counter.resolve_isOk : (Counter.unit.resolve .standard).isOk = true := by
  decide +kernel

theorem Counter.counts_well_typed : ∃ r p, Counter.unit.resolve .standard = .ok (r, p) ∧
    p.BodiesTyped Conversions.standard r ∧ p.ReceiversTyped ∧ p.HasMethods Counter.unit := by
  obtain ⟨⟨r, p⟩, h⟩ := exists_ok Counter.resolve_isOk
  exact ⟨r, p, h, CompilationUnit.resolve_bodiesTyped h⟩

/-! ## Closed results -/

/-- **Resolution never blames itself and leaves nothing dangling**: a fault is never internal, and
what is resolved is closed. -/
theorem CompilationUnit.resolve_closed (d : Dialect) (u : CompilationUnit) :
    (∀ fault, u.resolve d = .error fault → fault.cause.isInternal = false) ∧
      ∀ r p, u.resolve d = .ok (r, p) → p.Closed r := by
  refine ⟨fun fault h => (u.refused_of_resolve h).1, fun r p h => ?_⟩
  obtain ⟨s, rfl, rfl, hs⟩ := u.finished_of_resolve h
  exact hs.sound.closed hs.typed

/-- A unit that declares everything twice. -/
def Counter.twice : CompilationUnit := ⟨Counter.unit.decls ++ Counter.unit.decls, .nowhere⟩

set_option maxRecDepth 100000 in
theorem Counter.twice_isOk : (Counter.twice.resolve .standard).isOk = false := by
  decide +kernel

theorem Counter.counts_closed :
    (∃ r p, Counter.unit.resolve .standard = .ok (r, p) ∧ p.Closed r) ∧
      ∃ fault, Counter.twice.resolve .standard = .error fault ∧
        fault.cause.isInternal = false := by
  obtain ⟨⟨r, p⟩, h⟩ := exists_ok Counter.resolve_isOk
  obtain ⟨fault, hfault⟩ := exists_error Counter.twice_isOk
  exact ⟨⟨r, p, h, (CompilationUnit.resolve_closed .standard Counter.unit).2 r p h⟩,
    fault, hfault, (CompilationUnit.resolve_closed .standard Counter.twice).1 fault hfault⟩

/-! ## Resolution decides the type rules -/

/-- **A unit is resolved if and only if it is well typed**: resolution refuses nothing that the type
rules allow, and lets nothing through that they forbid. -/
theorem CompilationUnit.resolve_ok_iff (d : Dialect) (u : CompilationUnit) :
    (∃ x, u.resolve d = .ok x) ↔ u.WellTyped d := by
  constructor
  · rintro ⟨⟨r, p⟩, h⟩
    obtain ⟨s, -, -, hs⟩ := u.finished_of_resolve h
    exact hs.wellTyped
  · intro hu
    cases h : u.resolve d with
    | ok x => exact ⟨x, rfl⟩
    | error fault => exact absurd hu (u.refused_of_resolve h).2

/-- A class with a method that is called `+`, and a function that gives the sum of two of its values.
No text of a program can name a method so, but a tree can. -/
def Vector.unit : CompilationUnit :=
  let sp := Span.nowhere
  let vec := TypeName.named "Vec" sp
  ⟨[.ofClass ⟨"Vec", [.method ⟨"+", [⟨"other", vec, sp⟩], some vec,
      some (.mk [.ret (some (.symbol "other" sp)) sp] sp), sp⟩], sp⟩,
    .ofFunction ⟨"add", [⟨"a", vec, sp⟩, ⟨"b", vec, sp⟩], some vec,
      some (.mk [.ret (some (.binary .add (.symbol "a" sp) (.symbol "b" sp) sp)) sp] sp), sp⟩], sp⟩

/-- What surrounds the sum, and the names it can use. -/
def Vector.context : Context × Blocks :=
  (⟨.standard, Vector.unit, none, .ofClass "Vec"⟩,
    [[("a", ⟨.ofClass "Vec", false⟩), ("b", ⟨.ofClass "Vec", false⟩)]])

set_option maxRecDepth 100000 in
theorem Vector.resolve_isOk : (Vector.unit.resolve .standard).isOk = true := by
  decide +kernel

/-- **Operators are not for native types alone**: the sum of two vectors is resolved, although its
left operand has no native type. -/
theorem Vector.sum_resolves : (∃ x, Vector.unit.resolve .standard = .ok x) ∧
    ∀ f k, ¬ HasType Vector.context.1 Vector.context.2 (.symbol "a" .nowhere) f (.native k) := by
  refine ⟨exists_ok Vector.resolve_isOk, fun f k hk => ?_⟩
  have ha : HasType Vector.context.1 Vector.context.2 (.symbol "a" .nowhere) .place
      (.ofClass "Vec") := .var rfl
  cases (ha.unique hk).2

end ClassLang
