import ClassLang.Proofs.MirrorBodies

/-!
# What an interface is read from

A header is a declaration without its bodies. The interface of a unit is read from what the names of
its classes and functions find, and of that from the headers only (`interface_congr`).
-/

namespace ClassLang

/-- A method without its body. -/
def MethodDecl.header (m : MethodDecl) : MethodDecl := { m with body := none }

/-- What a class declares, without bodies. -/
def Feature.header : Feature → Feature
  | field f => .field f
  | method m => .method m.header

/-- A class without its bodies. -/
def ClassDecl.header (c : ClassDecl) : ClassDecl := { c with features := c.features.map Feature.header }

namespace ClassDecl

variable {c c' : ClassDecl}

theorem fields_header (c : ClassDecl) : c.header.fields = c.fields := by
  unfold fields header
  rw [List.filterMap_map]
  exact congrArg (c.features.filterMap ·) (funext fun f => by cases f <;> rfl)

theorem methods_header (c : ClassDecl) : c.header.methods = c.methods.map MethodDecl.header := by
  unfold methods header
  rw [List.filterMap_map, List.map_filterMap]
  exact congrArg (c.features.filterMap ·) (funext fun f => by cases f <;> rfl)

theorem methodNamed?_header (c : ClassDecl) (n : String) :
    c.header.methodNamed? n = (c.methodNamed? n).map MethodDecl.header := by
  unfold methodNamed?
  rw [c.methods_header, List.find?_map]
  rfl

/-- Classes with the same header have the same fields, -/
theorem fields_congr (h : c.header = c'.header) : c.fields = c'.fields := by
  rw [← c.fields_header, h, c'.fields_header]

/-- and the same methods up to their bodies. -/
theorem methodNamed?_congr (h : c.header = c'.header) (n : String) :
    (c.methodNamed? n).map MethodDecl.header = (c'.methodNamed? n).map MethodDecl.header := by
  rw [← c.methodNamed?_header, h, c'.methodNamed?_header]

end ClassDecl

/-- Two units have the same headers under the same names. -/
structure CompilationUnit.SameHeaders (u v : CompilationUnit) : Prop where
  classes : ∀ n, (u.classNamed? n).map ClassDecl.header = (v.classNamed? n).map ClassDecl.header
  functions : ∀ n,
    (u.functionNamed? n).map MethodDecl.header = (v.functionNamed? n).map MethodDecl.header

section

variable {d : Dialect} {u v : CompilationUnit}

theorem TypeName.denoted?_congr (h : u.SameHeaders v) (t : TypeName) :
    t.denoted? d u = t.denoted? d v := by
  induction t with
  | named name span =>
    have hname := congrArg (Option.map fun c : ClassDecl => Ty.ofClass c.name) (h.classes name)
    rw [Option.map_map, Option.map_map] at hname
    unfold denoted?
    cases d.catalog.find? name with
    | some k => rfl
    | none => exact hname
  | pointer target span ih | array element span ih => rw [denoted?, denoted?, ih]

theorem MethodDecl.callee?_congr {m m' : MethodDecl} (h : u.SameHeaders v) (hm : m.header = m'.header)
    (owner : Option String) : m.callee? d u owner = m'.callee? d v owner := by
  have hheader : m.header.callee? d u owner = m'.header.callee? d v owner := by
    rw [hm]
    unfold callee? signature? result?
    simp only [TypeName.denoted?_congr h]
  exact hheader

theorem ClassDecl.namedField?_congr {c c' : ClassDecl} (h : u.SameHeaders v)
    (hc : c.header = c'.header) (n : String) : c.namedField? d u n = c'.namedField? d v n := by
  have hname : c.header.name = c'.header.name := by rw [hc]
  change c.name = c'.name at hname
  unfold namedField? FieldDecl.named?
  simp only [fields_congr hc, hname, TypeName.denoted?_congr h]

/-- What a name finds goes on alike where it is alike. -/
theorem bind_congr_of_map {α β γ : Type} {f : α → β} {a b : Option α} {k l : α → Option γ}
    (h : a.map f = b.map f) (hkl : ∀ x y, f x = f y → k x = l y) : a.bind k = b.bind l := by
  cases a <;> cases b
  · rfl
  · cases h
  · cases h
  · exact hkl _ _ (Option.some.inj h)

/-- **The interface depends on headers only.** -/
theorem CompilationUnit.interface_congr (h : u.SameHeaders v) : u.interface d = v.interface d := by
  unfold interface
  congr 1
  · funext name
    exact TypeName.denoted?_congr h _
  · funext c name
    exact bind_congr_of_map (h.classes c) fun x y hxy => ClassDecl.namedField?_congr h hxy name
  · funext c name
    refine bind_congr_of_map (h.classes c) fun x y hxy => ?_
    exact bind_congr_of_map (ClassDecl.methodNamed?_congr hxy name) fun m m' hm =>
      MethodDecl.callee?_congr h hm _
  · funext name
    exact bind_congr_of_map (h.functions name) fun f f' hf => MethodDecl.callee?_congr h hf _

end

end ClassLang
