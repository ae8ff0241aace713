import ClassLang.Proofs.BodyOrder

/-!
# A unit with one body left

`CompilationUnit.isolate` leaves one body of a unit and takes the statements out of all others. The
declarations are the same then, so the signatures of the unit are too.

* `Block.emptied`, `CompilationUnit.isolate`: the unit with one body left.
* `MethodDecl.elaborate_isolate_other`: a body without statements has no fault.
* `CompilationUnit.elaborateSignatures_isolate`: the signatures are those of the whole unit.
* `CompilationUnit.inOrder_isolate`: the bodies are taken in the same order.
-/

namespace ClassLang

open Resolver Resolve

/-! ## One body alone -/

/-- A block without its statements. -/
def Block.emptied : Block → Block
  | .mk _ span => .mk [] span

/-- A method of the class `owner`, or a function: its body is emptied if it does not have the
key. -/
def MethodDecl.isolate (k : MethodKey) (owner : Option String) (m : MethodDecl) : MethodDecl :=
  if (owner, m.name) = k then m else { m with body := m.body.map Block.emptied }

/-- What a class declares, with at most one body left. -/
def Feature.isolate (k : MethodKey) (owner : String) : Feature → Feature
  | .field f => .field f
  | .method m => .method (m.isolate k (some owner))

/-- A class with at most one body left. -/
def ClassDecl.isolate (k : MethodKey) (c : ClassDecl) : ClassDecl :=
  { c with features := c.features.map (Feature.isolate k c.name) }

/-- A declaration with at most one body left. -/
def Decl.isolate (k : MethodKey) : Decl → Decl
  | .ofClass c => .ofClass (c.isolate k)
  | .ofFunction f => .ofFunction (f.isolate k none)

/-- **A unit in which all bodies but one are empty.** -/
def CompilationUnit.isolate (u : CompilationUnit) (k : MethodKey) : CompilationUnit :=
  { u with decls := u.decls.map (Decl.isolate k) }

namespace MethodDecl

variable {I : Interface} {k : MethodKey} {owner : Option String} {m : MethodDecl}

theorem isolate_self (h : (owner, m.name) = k) : m.isolate k owner = m := if_pos h

theorem isolate_name (k : MethodKey) (owner : Option String) (m : MethodDecl) :
    (m.isolate k owner).name = m.name := by
  unfold isolate; split <;> rfl

theorem isolate_span (k : MethodKey) (owner : Option String) (m : MethodDecl) :
    (m.isolate k owner).span = m.span := by
  unfold isolate; split <;> rfl

theorem isolate_header (k : MethodKey) (owner : Option String) (m : MethodDecl) :
    (m.isolate k owner).header = m.header := by
  unfold isolate; split <;> rfl

/-- Signatures do not see bodies. -/
theorem elaborateSignature_isolate (I : Interface) (k : MethodKey) (owner owner' : Option String)
    (m : MethodDecl) :
    (m.isolate k owner').elaborateSignature I owner = m.elaborateSignature I owner := by
  unfold isolate
  split
  · rfl
  · cases hbody : m.body <;> simp only [elaborateSignature, hbody] <;> rfl

/-- A method is elaborated once its signature and its body are. -/
theorem elaborate_eq {g : NamedMethod} (h : m.elaborateSignature I owner = .ok g) :
    m.elaborate I owner = (fun b => { g with body := b }) <$> m.elaborateBody I owner g := by
  unfold elaborate
  rw [h]
  cases hb : m.elaborateBody I owner g with
  | ok b | error e => show (m.elaborateBody I owner g >>= _) = _; rw [hb]; rfl

/-- Nothing is wrong with a body that is empty or missing. -/
theorem elaborate_ok_of_no_statements {g : NamedMethod}
    (h : m.elaborateSignature I owner = .ok g) (hb : ∀ b ∈ m.body, ∃ span, b = .mk [] span) :
    ∃ N, m.elaborate I owner = .ok N := by
  rw [elaborate_eq h]
  unfold elaborateBody
  cases hbody : m.body with
  | none => exact ⟨_, rfl⟩
  | some b =>
    obtain ⟨span, rfl⟩ := hb b hbody
    exact ⟨_, rfl⟩

theorem elaborate_isolate_other {g : NamedMethod} (h : m.elaborateSignature I owner = .ok g)
    (hk : (owner, m.name) ≠ k) : ∃ N, (m.isolate k owner).elaborate I owner = .ok N := by
  refine elaborate_ok_of_no_statements ((elaborateSignature_isolate I k owner owner m).trans h) ?_
  intro b hb
  rw [isolate, if_neg hk] at hb
  obtain ⟨⟨body, span⟩, -, rfl⟩ := Option.map_eq_some_iff.1 hb
  exact ⟨span, rfl⟩

end MethodDecl

namespace ClassDecl

theorem isolate_fields (k : MethodKey) (c : ClassDecl) : (c.isolate k).fields = c.fields := by
  unfold fields isolate
  rw [List.filterMap_map]
  exact congrArg (c.features.filterMap ·) (funext fun f => by cases f <;> rfl)

theorem isolate_methods (k : MethodKey) (c : ClassDecl) :
    (c.isolate k).methods = c.methods.map (MethodDecl.isolate k (some c.name)) := by
  unfold methods isolate
  rw [List.filterMap_map, List.map_filterMap]
  exact congrArg (c.features.filterMap ·) (funext fun f => by cases f <;> rfl)

theorem isolate_header (k : MethodKey) (c : ClassDecl) : (c.isolate k).header = c.header := by
  unfold header isolate
  rw [List.map_map]
  refine congrArg (fun fs => ClassDecl.mk c.name fs c.span) (List.map_congr_left fun f _ => ?_)
  cases f with
  | field f => rfl
  | method m => exact congrArg Feature.method (m.isolate_header k _)

/-- Classes are elaborated alike. -/
theorem elaborate_isolate (I : Interface) (k : MethodKey) (c : ClassDecl) :
    (c.isolate k).elaborate I = c.elaborate I := by
  have hmethods : inTurn (MethodDecl.elaborateMember I c.name) []
      (c.methods.map (MethodDecl.isolate k (some c.name))) =
      inTurn (MethodDecl.elaborateMember I c.name) [] c.methods := by
    refine inTurn_map (fun before m => ?_) [] c.methods
    have hnames : (before.map (MethodDecl.isolate k (some c.name))).map MethodDecl.name =
        before.map MethodDecl.name := by
      rw [List.map_map]
      exact List.map_congr_left fun b _ => b.isolate_name k _
    unfold MethodDecl.elaborateMember
    rw [hnames, m.isolate_name, m.isolate_span, m.elaborateSignature_isolate]
  unfold elaborate
  rw [c.isolate_fields, c.isolate_methods]
  show (inTurn (FieldDecl.elaborate I c.name) [] c.fields >>= fun fields =>
    inTurn (MethodDecl.elaborateMember I c.name) []
      (c.methods.map (MethodDecl.isolate k (some c.name))) >>= fun _ => _) = _
  rw [hmethods]
  rfl

end ClassDecl

namespace CompilationUnit

variable {d : Dialect} {u : CompilationUnit} {k : MethodKey}

theorem isolate_classes (u : CompilationUnit) (k : MethodKey) :
    (u.isolate k).classes = u.classes.map (ClassDecl.isolate k) := by
  unfold classes isolate
  rw [List.filterMap_map, List.map_filterMap]
  exact congrArg (u.decls.filterMap ·) (funext fun f => by cases f <;> rfl)

theorem isolate_functions (u : CompilationUnit) (k : MethodKey) :
    (u.isolate k).functions = u.functions.map (MethodDecl.isolate k none) := by
  unfold functions isolate
  rw [List.filterMap_map, List.map_filterMap]
  exact congrArg (u.decls.filterMap ·) (funext fun f => by cases f <;> rfl)

theorem isolate_sameHeaders (u : CompilationUnit) (k : MethodKey) :
    (u.isolate k).SameHeaders u where
  classes n := by
    unfold classNamed?
    rw [u.isolate_classes, List.find?_map, Option.map_map]
    exact congrArg (Option.map · _) (funext fun c => c.isolate_header k)
  functions n := by
    unfold functionNamed?
    rw [u.isolate_functions, List.find?_map, Option.map_map]
    have hname : ((fun f : MethodDecl => decide (f.name = n)) ∘ MethodDecl.isolate k none) =
        fun f => decide (f.name = n) :=
      funext fun f => by rw [Function.comp, f.isolate_name]
    rw [hname]
    exact congrArg (Option.map · _) (funext fun f => f.isolate_header k none)

theorem DistinctNames.isolate (hu : u.DistinctNames d) (k : MethodKey) :
    (u.isolate k).DistinctNames d where
  classes := by rw [u.isolate_classes, List.map_map]; exact hu.classes
  notNative c hc := by
    rw [u.isolate_classes] at hc
    obtain ⟨c', hc', rfl⟩ := List.mem_map.1 hc
    exact hu.notNative c' hc'
  functions := by
    have hnames : (u.functions.map (MethodDecl.isolate k none)).map MethodDecl.name =
        u.functions.map MethodDecl.name := by
      rw [List.map_map]
      exact List.map_congr_left fun f _ => f.isolate_name k none
    rw [u.isolate_functions, hnames]
    exact hu.functions

theorem isolate_interface (u : CompilationUnit) (k : MethodKey) :
    (u.isolate k).interface d = u.interface d := interface_congr (u.isolate_sameHeaders k)

/-- The declarations of a unit with one body left are elaborated as before, -/
theorem elaborateSignatures_isolate (hu : u.DistinctNames d) (k : MethodKey) :
    (u.isolate k).elaborateSignatures d = u.elaborateSignatures d := by
  unfold elaborateSignatures
  rw [u.isolate_interface, u.isolate_classes, u.isolate_functions,
    byName_map (q := ClassDecl.isolate k) hu.classes fun c => rfl,
    byName_map hu.functions fun f => f.isolate_name k none, List.mapM_map, List.mapM_map]
  have hclass : ((fun c : ClassDecl => c.elaborate (u.interface d)) ∘ ClassDecl.isolate k) =
      fun c => c.elaborate (u.interface d) := funext fun c => c.elaborate_isolate _ k
  have hfunction : ((fun f : MethodDecl => f.elaborateSignature (u.interface d) none) ∘
      MethodDecl.isolate k none) = fun f => f.elaborateSignature (u.interface d) none :=
    funext fun f => f.elaborateSignature_isolate _ k none none
  rw [hclass, hfunction]

/-- and the bodies are taken in the same order. -/
theorem inOrder_isolate (hu : u.WellDeclared d) (k : MethodKey) :
    (u.isolate k).inOrder = u.inOrder.map fun a => (a.1, a.2.isolate k a.1) := by
  have hmethods : ∀ c ∈ byName ClassDecl.name u.classes,
      (byName MethodDecl.name (c.isolate k).methods).map (fun m => (some c.name, m)) =
      (byName MethodDecl.name c.methods).map fun m =>
        (some c.name, m.isolate k (some c.name)) := by
    intro c hc
    rw [mem_byName hu.classNames] at hc
    rw [c.isolate_methods, byName_map (hu.classes c hc).methodNames
      fun m => m.isolate_name k (some c.name), List.map_map]
    rfl
  unfold inOrder
  rw [u.isolate_classes, u.isolate_functions,
    byName_map (q := ClassDecl.isolate k) hu.classNames fun c => rfl,
    byName_map hu.functionNames fun f => f.isolate_name k none, List.map_append, List.flatMap_map,
    List.map_flatMap, List.map_map, List.map_map]
  rw [List.flatMap_def, List.flatMap_def]
  refine congrArg (fun ls => List.flatten ls ++ _) (List.map_congr_left fun c hc => ?_)
  rw [List.map_map]
  exact hmethods c hc

end CompilationUnit

end ClassLang
