import ClassLang.Proofs.Headers
import ClassLang.Proofs.Resolution

/-!
# The order of declarations does not matter

The declarations of a unit may stand in any order.

* `CompilationUnit.declarable_perm`: the first pass accepts all orders or none.
* `CompilationUnit.elaborate_perm`: elaboration gives the same in every order, as names find the same
  declarations and everything is taken in the order of names.
* `CompilationUnit.resolve_perm`: so does resolution, up to the numbers it gives out.
-/

namespace ClassLang

section

variable {α : Type} {name : α → String} {l l' : List α}

/-- What a name finds among things with distinct names. -/
theorem find?_name_iff {κ : Type} [DecidableEq κ] {name : α → κ} (hl : (l.map name).Nodup) {n : κ}
    {a : α} : l.find? (fun b => name b = n) = some a ↔ a ∈ l ∧ name a = n := by
  constructor
  · intro h
    exact ⟨List.mem_of_find?_eq_some h, by simpa using List.find?_some h⟩
  · rintro ⟨ha, rfl⟩
    exact Resolver.find?_of_nodup hl ha

theorem find?_name_perm (hl : (l.map name).Nodup) (h : l.Perm l') (n : String) :
    l.find? (fun b => name b = n) = l'.find? fun b => name b = n := by
  have hl' : (l'.map name).Nodup := (h.map name).nodup_iff.1 hl
  refine Option.ext fun a => ?_
  rw [find?_name_iff hl, find?_name_iff hl', h.mem_iff]

/-- Things by name are the same in whatever order they are given. -/
theorem byName_perm (hl : (l.map name).Nodup) (h : l.Perm l') : byName name l = byName name l' := by
  have hl' : (l'.map name).Nodup := (h.map name).nodup_iff.1 hl
  have hvalues := byName_eq_of_find? hl (f := id)
    (t := Std.TreeMap.ofList (l'.map fun a => (name a, a))) fun n => by
      rw [getElem?_ofList_name hl', find?_name_perm hl h, Option.map_id]; rfl
  rw [hvalues, List.map_id]
  rfl

end

namespace CompilationUnit

variable {d : Dialect} {u v : CompilationUnit}

theorem classes_perm (h : u.decls.Perm v.decls) : u.classes.Perm v.classes := h.filterMap _

theorem functions_perm (h : u.decls.Perm v.decls) : u.functions.Perm v.functions := h.filterMap _

theorem DistinctNames.perm (hu : u.DistinctNames d) (h : u.decls.Perm v.decls) :
    v.DistinctNames d where
  classes := ((classes_perm h).map _).nodup_iff.1 hu.classes
  notNative c hc := hu.notNative c ((classes_perm h).mem_iff.2 hc)
  functions := ((functions_perm h).map _).nodup_iff.1 hu.functions

theorem declarable_perm (h : u.decls.Perm v.decls) : u.Declarable d ↔ v.Declarable d := by
  rw [declarable_iff, declarable_iff]
  exact ⟨fun hu => hu.perm h, fun hv => hv.perm h.symm⟩

theorem DistinctNames.sameHeaders (hu : u.DistinctNames d) (h : u.decls.Perm v.decls) :
    u.SameHeaders v where
  classes n := congrArg _ (find?_name_perm hu.classes (classes_perm h) n)
  functions n := congrArg _ (find?_name_perm hu.functions (functions_perm h) n)

/-- **Elaboration does not depend on the order of the declarations.** -/
theorem elaborate_perm (hu : u.DistinctNames d) (h : u.decls.Perm v.decls) :
    u.elaborate d = v.elaborate d := by
  have hI : u.interface d = v.interface d := interface_congr (hu.sameHeaders h)
  have hclasses := byName_perm hu.classes (classes_perm h)
  have hfunctions := byName_perm hu.functions (functions_perm h)
  unfold elaborate elaborateSignatures inOrder
  rw [hI, hclasses, hfunctions]

/-- **The order of the declarations of a unit does not matter.** The first pass accepts a unit in
every order or in none. When it does, all orders give the same fault, or all give a program, and
these programs read the same by names: the same classes with the same layout, the same signatures and
linkage names, and the same bodies. -/
theorem resolve_perm {p q : CompilationUnit} (d : Dialect) (h : p.decls.Perm q.decls) :
    (p.Declarable d ↔ q.Declarable d) ∧
      (p.Declarable d →
        (∃ fault, p.resolve d = .error fault ∧ q.resolve d = .error fault) ∨
        ∃ rp rq N, p.resolve d = .ok rp ∧ q.resolve d = .ok rq ∧
          rp.2.named? rp.1 = some N ∧ rq.2.named? rq.1 = some N) := by
  refine ⟨declarable_perm h, fun hp => ?_⟩
  obtain ⟨x, hx⟩ : ∃ x, p.resolve d = x := ⟨_, rfl⟩
  obtain ⟨y, hy⟩ : ∃ y, q.resolve d = y := ⟨_, rfl⟩
  have hpx := resolve_agrees hp hx
  have hqy := resolve_agrees ((declarable_perm h).1 hp) hy
  rw [elaborate_perm (declarable_iff.1 hp) h] at hpx
  rw [hx, hy]
  cases hN : q.elaborate d with
  | error fault =>
    rw [hN] at hpx hqy
    exact .inl ⟨fault, hpx.eq_error, hqy.eq_error⟩
  | ok N =>
    rw [hN] at hpx hqy
    obtain ⟨rp, rfl, hrp⟩ := hpx.eq_ok
    obtain ⟨rq, rfl, hrq⟩ := hqy.eq_ok
    exact .inr ⟨rp, rq, N, rfl, rfl, hrp, hrq⟩

end CompilationUnit

/-- Two classes that use each other, and a function that comes after them:
```
class Node
  graphs: Graph[];
  weight(): Integer do return graphs[0].root.total + step; end
  total: Integer;
end
class Graph
  root: Node;
  grow(by: Integer) do
    var total: Integer := root.weight();
    root.total := total + by;
  end
end
step(): Integer do return 1; end
``` -/
def Graph.unit : CompilationUnit :=
  let sp := Span.nowhere
  let integer := TypeName.named "Integer" sp
  let weight : List Stmt :=
    [.ret (some (.binary .add (.member (.member (.index (.symbol "graphs" sp) (.number 0 sp) sp)
      "root" sp) "total" sp) (.symbol "step" sp) sp)) sp]
  let grow : List Stmt :=
    [.varDecl "total" integer (some (.send (.symbol "root" sp) "weight" [] sp)) sp,
     .assignment (.member (.symbol "root" sp) "total" sp)
       (.binary .add (.symbol "total" sp) (.symbol "by" sp) sp) sp]
  ⟨[.ofClass ⟨"Node",
      [.field ⟨"graphs", .array (.named "Graph" sp) sp, sp⟩,
       .method ⟨"weight", [], some integer, some (.mk weight sp), sp⟩,
       .field ⟨"total", integer, sp⟩], sp⟩,
    .ofClass ⟨"Graph",
      [.field ⟨"root", .named "Node" sp, sp⟩,
       .method ⟨"grow", [⟨"by", integer, sp⟩], none, some (.mk grow sp), sp⟩], sp⟩,
    .ofFunction ⟨"step", [], some integer, some (.mk [.ret (some (.number 1 sp)) sp] sp), sp⟩], sp⟩

/-- The same declarations from the last to the first. -/
def Graph.reversed : CompilationUnit := ⟨Graph.unit.decls.reverse, .nowhere⟩

set_option maxRecDepth 100000 in
theorem Graph.resolve_isOk : (Graph.unit.resolve .standard).isOk = true := by
  decide +kernel

theorem Graph.distinctNames : Graph.unit.DistinctNames .standard where
  classes := by decide
  notNative := by decide
  functions := by decide

theorem Graph.reads_the_same : Graph.unit.decls.Perm Graph.reversed.decls ∧
    Graph.unit.Declarable .standard ∧ Graph.reversed.Declarable .standard ∧
    ∃ rp rq N, Graph.unit.resolve .standard = .ok rp ∧ Graph.reversed.resolve .standard = .ok rq ∧
      rp.2.named? rp.1 = some N ∧ rq.2.named? rq.1 = some N := by
  have hperm : Graph.unit.decls.Perm Graph.reversed.decls := (List.reverse_perm _).symm
  have hdecl := CompilationUnit.declarable_iff.2 Graph.distinctNames
  obtain ⟨hiff, hsame⟩ := CompilationUnit.resolve_perm .standard hperm
  refine ⟨hperm, hdecl, hiff.1 hdecl, ?_⟩
  obtain ⟨x, hx⟩ := exists_ok Graph.resolve_isOk
  rcases hsame hdecl with ⟨fault, hfault, -⟩ | h
  · rw [hx] at hfault
    cases hfault
  · exact h

end ClassLang
