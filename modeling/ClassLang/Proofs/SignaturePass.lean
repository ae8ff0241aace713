import ClassLang.Proofs.Members

/-!
# The second pass

The second pass resolves the members of every class and then the signature of every function, in the
order of their names. While it is under way, some classes and functions are resolved and the others
are as the first pass has left them (`Resolver.Signing`). One step resolves one class
(`Signing.class_leads`) or one function (`Signing.function_leads`).

`resolveSignatures_leads`: the pass fails only if the declarations are not in order; and afterwards
the state represents the unit, and every method is ready for its body.
-/

namespace ClassLang

open Resolver Resolve

/-- A unit declares a method, in a class or as a function. -/
def CompilationUnit.Declares (u : CompilationUnit) : Option ClassDecl → MethodDecl → Prop
  | some c, m => c ∈ u.classes ∧ m ∈ c.methods
  | none, m => m ∈ u.functions

namespace Resolver

variable {s s' s₀ : Resolver} {d : Dialect} {u : CompilationUnit} {known : Declarations}
  {bodies : List (MethodId × MethodDecl)}

/-- **The second pass is under way**: the classes `cs` and the functions `fs` are resolved, and
`bodies` are the methods of these classes. -/
structure Signing (s : Resolver) (d : Dialect) (u : CompilationUnit) (known : Declarations)
    (cs : List (ClassId × ClassDecl)) (fs bodies : List (MethodId × MethodDecl)) : Prop where
  grounded : s.Grounded u
  bodyless : ∀ m g, s.program.methodAt? m = some g → g.body = none
  listed : ∀ c i, s.program.classAt? c = some i → ∃ decl, (c, decl) ∈ known.classes.values
  classes : ∀ v ∈ cs, v.2.Declared d u ∧ ∃ i, s.program.classAt? v.1 = some i ∧
    u.classNamed? i.name = some v.2 ∧ s.ClassHolds d u i v.2.fields v.2.methods
  blank : ∀ v ∈ known.classes.values, v ∉ cs → ∃ i, s.program.classAt? v.1 = some i ∧
    u.classNamed? i.name = some v.2 ∧ s.ClassBlank i
  functions : ∀ v ∈ fs, v.2.Declared d u false ∧ ∃ g j, s.Ready d u none v.1 v.2 g j
  announced : ∀ v ∈ known.functions.values, v ∉ fs →
    s.program.methodAt? v.1 = some (v.2.announce none)
  global : ∀ sc, s.program.scopeAt? ScopeTree.globalId = some sc → ∀ n : String,
    sc.methods[n]? = (known.functions[n]?).map Prod.fst
  written : ∀ b ∈ bodies, ∃ v ∈ cs, b.2 ∈ v.2.methods ∧
    ∃ g j, s.Ready d u (some v.2) b.1 b.2 g j
  all : ∀ v ∈ cs, ∀ m ∈ v.2.methods, ∃ l, (l, m) ∈ bodies ∧
    ∃ g j, s.Ready d u (some v.2) l m g j
  distinct : (bodies.map Prod.fst).Nodup

/-! ## Before the pass -/

theorem Announced.class_of_value (h : s.Announced d u known) {v : ClassId × ClassDecl}
    (hv : v ∈ known.classes.values) : ∃ i, s.program.classAt? v.1 = some i ∧
      known.classes[i.name]? = some v ∧ u.classNamed? i.name = some v.2 ∧ s.ClassBlank i := by
  obtain ⟨n, hn⟩ := mem_values.1 hv
  obtain ⟨i, hi, rfl, hb⟩ := h.blank n v.1 v.2 hn
  exact ⟨i, hi, hn, by rw [h.classes, hn]; rfl, hb⟩

/-- A class has one number. -/
theorem Announced.classes_distinct (h : s.Announced d u known) :
    known.classes.values.Pairwise fun v w => v.1 ≠ w.1 := by
  refine values_pairwise fun n n' v w hv hw hne heq => hne ?_
  obtain ⟨i, hi, hn, -⟩ := h.blank n v.1 v.2 hv
  obtain ⟨i', hi', hn', -⟩ := h.blank n' w.1 w.2 hw
  rw [heq, hi'] at hi
  cases hi
  exact hn.symm.trans hn'

/-- A function has one number. -/
theorem Announced.functions_distinct (h : s.Announced d u known) :
    known.functions.values.Pairwise fun v w => v.1 ≠ w.1 := by
  have hname : ∀ (n : String) v, known.functions[n]? = some v → v.2.name = n := by
    intro n v hv
    have hfind := h.functions n
    rw [hv] at hfind
    simpa using List.find?_some hfind
  refine values_pairwise fun n n' v w hv hw hne heq => hne ?_
  have hm := h.announced n v.1 v.2 hv
  rw [heq, h.announced n' w.1 w.2 hw] at hm
  have hnames : w.2.name = v.2.name := congrArg Method.name (Option.some.inj hm)
  rw [← hname n v hv, ← hname n' w hw, hnames]

/-- Nothing has been passed at first. -/
theorem Announced.signing (h : s.Announced d u known) : s.Signing d u known [] [] [] where
  grounded := ⟨h.sound, h.natives, h.types⟩
  bodyless m g hg := (h.unresolved m g hg).2
  listed c i hi := by
    obtain ⟨decl, hd⟩ := h.listed c i hi
    exact ⟨decl, mem_values.2 ⟨i.name, hd⟩⟩
  classes := nofun
  blank v hv _ := by
    obtain ⟨i, hi, -, hd, hb⟩ := h.class_of_value hv
    exact ⟨i, hi, hd, hb⟩
  functions := nofun
  announced v hv _ := by
    obtain ⟨n, hn⟩ := mem_values.1 hv
    exact h.announced n v.1 v.2 hn
  global := h.global
  written := nofun
  all := nofun
  distinct := List.nodup_nil

/-! ## What the steps leave alone -/

theorem Frame.bodyless {c : Option ClassId} {m : Option MethodId} {l : Option ScopeId}
    (hf : Frame s s' c m l) (h : ∀ m g, s.program.methodAt? m = some g → g.body = none) :
    ∀ m g, s'.program.methodAt? m = some g → g.body = none := by
  intro m g hg
  rcases hf.noBody m g hg with hb | ⟨g₀, hg₀, hb⟩
  · exact hb
  · rw [← hb]
    exact h m g₀ hg₀

theorem Frame.class_of_class {c : Option ClassId} {m : Option MethodId} {l : Option ScopeId}
    (hf : Frame s s' c m l) {k : ClassId} {i : ClassInfo} (hi : s'.program.classAt? k = some i) :
    ∃ i₀, s.program.classAt? k = some i₀ := by
  have hlt := (Array.getElem?_eq_some_iff.1 hi).1
  rw [hf.noClass] at hlt
  exact ⟨_, Array.getElem?_eq_getElem hlt⟩

/-- What belongs to another class stays when a class is resolved. -/
theorem Frame.otherClass {c c' : ClassId} {i i' : ClassInfo}
    (hf : Frame s s' (some c) none (some i.scope)) (hs : s.Sound)
    (hi : s.program.classAt? c = some i) (hi' : s.program.classAt? c' = some i') (hne : c' ≠ c) :
    s'.program.classAt? c' = some i' ∧
      (∀ sc, s.program.scopeAt? i'.scope = some sc → s'.program.scopeAt? i'.scope = some sc) ∧
      ∀ e, s.registry.entry? i'.ty = some e → s'.registry.entry? i'.ty = some e := by
  refine ⟨hf.sameClasses c' i' hi' fun heq => hne (Option.some.inj heq).symm, fun sc hsc => ?_,
    fun e he => hf.sameTypes _ e he fun k hk hkind => ?_⟩
  · -- two classes do not share a scope
    refine hf.sameScopes _ sc hsc fun heq => hne ?_
    obtain ⟨sc₁, hsc₁, hk₁⟩ := (hs.classes c i hi).scope
    obtain ⟨sc₂, hsc₂, hk₂⟩ := (hs.classes c' i' hi').scope
    rw [Option.some.inj heq, hsc₂] at hsc₁
    cases hsc₁
    rw [hk₁] at hk₂
    cases hk₂; rfl
  · have hk' := (hs.classes c' i' hi').kind
    unfold Registry.kind? at hk'
    rw [he, Option.map_some, hkind] at hk'
    cases hk
    cases hk'
    exact hne rfl

/-- The scope of a method is not that of a class. -/
theorem Ready.scope_ne_class {owner : Option ClassDecl} {l : MethodId} {m : MethodDecl} {g : Method}
    {j : ScopeId} (h : s.Ready d u owner l m g j) (hs : s.Sound) {c : ClassId} {i : ClassInfo}
    (hi : s.program.classAt? c = some i) : i.scope ≠ j := by
  intro heq
  obtain ⟨sc, -, hsc, hblock, -⟩ := (hs.methods l g h.method).scope j h.scope
  obtain ⟨sc', hsc', hk⟩ := (hs.classes c i hi).scope
  rw [heq, hsc] at hsc'
  cases hsc'
  rw [hblock] at hk
  cases hk

/-! ## One class -/

theorem classNamed?_mem {n : String} {decl : ClassDecl} (h : u.classNamed? n = some decl) :
    decl ∈ u.classes ∧ decl.name = n :=
  ⟨List.mem_of_find?_eq_some h, by simpa using List.find?_some h⟩

/-- **Resolving one class** of the pass. -/
theorem Signing.class_leads {cs : List (ClassId × ClassDecl)} (h : s.Signing d u known cs [] bodies)
    (hnative : ∀ c ∈ u.classes, d.catalog.contains c.name = false) {v : ClassId × ClassDecl}
    (hv : v ∈ known.classes.values) (hnew : v ∉ cs) (hcs : ∀ w ∈ cs, w.1 ≠ v.1)
    (hrest : ∀ w ∈ known.classes.values, w ≠ v → w.1 ≠ v.1) :
    Leads (resolveClass d v.1 v.2) s
      (fun new s' => s'.Signing d u known (cs ++ [v]) [] (bodies ++ new))
      (Refused (v.2.Declared d u)) := by
  have hs := h.grounded.sound
  obtain ⟨i, hi, hd, hb⟩ := h.blank v hv hnew
  refine (resolveClass_leads h.grounded hi hb hd).post ?_
  rintro new s' ⟨hF, hdeclared, hnewBodies⟩
  have hf := hF.frame
  have hs' := hF.sound
  have hready : ∀ {owner l m g j}, s.Ready d u owner l m g j → s'.Ready d u owner l m g j :=
    fun hr => hr.frame hf hs hs' nofun fun heq => hr.scope_ne_class hs hi (Option.some.inj heq)
  obtain ⟨i', hi', hname, -, -, hholds, -⟩ := hF.holds
  have hd' : u.classNamed? i'.name = some v.2 := by rw [hname]; exact hd
  refine
    { grounded := hF.grounded hi h.grounded, bodyless := hf.bodyless h.bodyless
      listed := ?_, classes := ?_, blank := ?_, functions := nofun
      announced := fun w hw hn => hf.keepsMethod (h.announced w hw hn)
      global := ?_, written := ?_, all := ?_, distinct := ?_ }
  · intro c k hk
    obtain ⟨k₀, hk₀⟩ := hf.class_of_class hk
    exact h.listed c k₀ hk₀
  · intro w hw
    rcases List.mem_append.1 hw with hw | hw
    · obtain ⟨hdecl, k, hk, hdk, hc⟩ := h.classes w hw
      obtain ⟨hk', hsc, he⟩ := hf.otherClass hs hi hk (hcs w hw)
      refine ⟨hdecl, k, hk', hdk, hc.mono hf.toGrows hs hs' hk hsc he ?_⟩
      intro sc n l sig _ _ hsig
      exact hf.signatureOf? hs hs' (by simp) hsig
    · cases List.mem_singleton.1 hw
      exact ⟨⟨hnative _ (classNamed?_mem hd).1, hholds.fieldTypes, hF.fieldNames, hdeclared,
        hF.methodNames⟩, i', hi', hd', hholds⟩
  · intro w hw hnot
    have hwv : w ≠ v := fun heq => hnot (by rw [heq]; simp)
    obtain ⟨k, hk, hdk, hbk⟩ := h.blank w hw fun hmem => hnot (List.mem_append_left _ hmem)
    obtain ⟨hk', hsc, he⟩ := hf.otherClass hs hi hk (hrest w hw hwv)
    exact ⟨k, hk', hdk, hbk.mono hs hk hsc he⟩
  · intro sc hsc
    obtain ⟨sc₀, hsc₀⟩ := hs.global
    have hsame := hf.sameScopes _ sc₀ hsc₀ fun heq =>
      hs.scope_ne_global hi (Option.some.inj heq)
    rw [hsame] at hsc
    cases hsc
    exact h.global sc hsc₀
  · intro b hb
    rcases List.mem_append.1 hb with hb | hb
    · obtain ⟨w, hw, hm, g, j, hr⟩ := h.written b hb
      exact ⟨w, List.mem_append_left _ hw, hm, g, j, hready hr⟩
    · obtain ⟨g, j, -, hr⟩ := hnewBodies.ready b hb
      exact ⟨v, by simp, hnewBodies.written b hb, g, j, hr⟩
  · intro w hw m hm
    rcases List.mem_append.1 hw with hw | hw
    · obtain ⟨l, hl, g, j, hr⟩ := h.all w hw m hm
      exact ⟨l, List.mem_append_left _ hl, g, j, hready hr⟩
    · cases List.mem_singleton.1 hw
      obtain ⟨l, hl⟩ := hnewBodies.all m hm
      obtain ⟨g, j, -, hr⟩ := hnewBodies.ready _ hl
      exact ⟨l, List.mem_append_right _ hl, g, j, hr⟩
  · rw [List.map_append, List.nodup_append]
    refine ⟨h.distinct, hnewBodies.distinct, fun l hl l' hl' heq => ?_⟩
    -- a method of two classes would make them one
    obtain ⟨b, hb, rfl⟩ := List.mem_map.1 hl
    obtain ⟨b', hb', rfl⟩ := List.mem_map.1 hl'
    obtain ⟨w, hw, -, g, j, hr⟩ := h.written b hb
    obtain ⟨g', j', -, hr'⟩ := hnewBodies.ready b' hb'
    rw [← heq] at hr'
    have howner := ((hready hr).unique hr').2
    obtain ⟨-, k, hk, hdk, -⟩ := h.classes w hw
    refine hcs w hw (hs.class_unique hk hi ?_)
    rw [← (classNamed?_mem hdk).2, ← (classNamed?_mem hd).2, Option.some.inj howner]

/-! ## One function -/

/-- **Resolving one function** of the pass. -/
theorem Signing.function_leads {cs : List (ClassId × ClassDecl)} {fs : List (MethodId × MethodDecl)}
    (h : s.Signing d u known cs fs bodies) {v : MethodId × MethodDecl}
    (hv : v ∈ known.functions.values) (hnew : v ∉ fs)
    (hrest : ∀ w ∈ known.functions.values, w ≠ v → w.1 ≠ v.1) :
    Leads (resolveSignature d v.1 v.2) s
      (fun _ s' => s'.Signing d u known cs (fs ++ [v]) bodies)
      (Refused (v.2.Declared d u false)) := by
  have hs := h.grounded.sound
  have hm := h.announced v hv hnew
  have howns : s.Owns u none none := trivial
  refine (resolveSignature_leads h.grounded hm howns).post ?_
  rintro _ s' ⟨hf, hs', hdeclared, g, j, -, hr⟩
  -- what is ready has a scope, and `v` had none before
  have hready : ∀ {owner l m g j}, s.Ready d u owner l m g j → s'.Ready d u owner l m g j := by
    intro owner l m g j hr
    refine hr.frame hf hs hs' (fun heq => ?_) nofun
    cases heq
    have hscope := hr.scope
    rw [show g = _ from Option.some.inj (hr.method.symm.trans hm)] at hscope
    cases hscope
  have hclass : ∀ {c i}, s.program.classAt? c = some i → s'.program.classAt? c = some i ∧
      (∀ sc, s.program.scopeAt? i.scope = some sc → s'.program.scopeAt? i.scope = some sc) ∧
      ∀ e, s.registry.entry? i.ty = some e → s'.registry.entry? i.ty = some e :=
    fun hi => ⟨hf.keepsClass hi, fun _ => hf.keepsScope, fun _ => hf.keepsType⟩
  refine
    { grounded := h.grounded.frame hf hs' ?_ nofun, bodyless := hf.bodyless h.bodyless
      listed := ?_, classes := ?_, blank := ?_, functions := ?_, announced := ?_
      global := ?_, written := ?_, all := ?_, distinct := h.distinct }
  · intro l g' heq hg'
    cases heq
    rw [hm] at hg'
    cases hg'
    exact MethodDecl.isOperator_announce
  · intro c k hk
    obtain ⟨k₀, hk₀⟩ := hf.class_of_class hk
    exact h.listed c k₀ hk₀
  · intro w hw
    obtain ⟨hdecl, k, hk, hdk, hc⟩ := h.classes w hw
    obtain ⟨hk', hsc, he⟩ := hclass hk
    refine ⟨hdecl, k, hk', hdk, hc.mono hf.toGrows hs hs' hk hsc he ?_⟩
    intro sc n l sig hsc hl hsig
    refine hf.signatureOf? hs hs' (fun heq => ?_) hsig
    cases heq
    obtain ⟨g', hg', howner⟩ := hs.owner_of_class hk hsc hl
    rw [hm] at hg'
    cases hg'
    cases howner
  · intro w hw hnot
    obtain ⟨k, hk, hdk, hbk⟩ := h.blank w hw hnot
    obtain ⟨hk', hsc, he⟩ := hclass hk
    exact ⟨k, hk', hdk, hbk.mono hs hk hsc he⟩
  · intro w hw
    rcases List.mem_append.1 hw with hw | hw
    · obtain ⟨hdecl, g', j', hr'⟩ := h.functions w hw
      exact ⟨hdecl, g', j', hready hr'⟩
    · cases List.mem_singleton.1 hw
      exact ⟨hdeclared, g, j, hr⟩
  · intro w hw hnot
    have hwv : w ≠ v := fun heq => hnot (by rw [heq]; simp)
    refine hf.sameMethods _ _ (h.announced w hw fun hmem => hnot (List.mem_append_left _ hmem)) ?_
    exact fun heq => hrest w hw hwv (Option.some.inj heq).symm
  · intro sc hsc
    obtain ⟨sc₀, hsc₀⟩ := hs.global
    rw [hf.keepsScope hsc₀] at hsc
    cases hsc
    exact h.global sc hsc₀
  · intro b hb
    obtain ⟨w, hw, hmem, g', j', hr'⟩ := h.written b hb
    exact ⟨w, hw, hmem, g', j', hready hr'⟩
  · intro w hw m hmem
    obtain ⟨l, hl, g', j', hr'⟩ := h.all w hw m hmem
    exact ⟨l, hl, g', j', hready hr'⟩

/-! ## The whole pass -/

/-- **After the second pass**: the state represents the unit, and `bodies` are all methods that it
declares, each ready for its body. -/
structure Signed (s : Resolver) (d : Dialect) (u : CompilationUnit)
    (bodies : List (MethodId × MethodDecl)) : Prop where
  sound : s.Sound
  represents : s.Represents d u
  declared : u.WellDeclared d
  bodyless : ∀ m g, s.program.methodAt? m = some g → g.body = none
  ready : ∀ b ∈ bodies, ∃ owner g j, u.Declares owner b.2 ∧ s.Ready d u owner b.1 b.2 g j
  all : ∀ owner m, u.Declares owner m → ∃ l, (l, m) ∈ bodies ∧
    ∃ g j, s.Ready d u owner l m g j
  distinct : (bodies.map Prod.fst).Nodup

/-- Where names are different, each of them finds what has it. -/
theorem find?_of_nodup {α κ : Type} [DecidableEq κ] {l : List α} {f : α → κ} {a : α}
    (hl : (l.map f).Nodup) (ha : a ∈ l) : l.find? (fun b => f b = f a) = some a := by
  induction l with
  | nil => cases ha
  | cons b l ih =>
    rw [List.map_cons, List.nodup_cons] at hl
    rcases List.mem_cons.1 ha with rfl | ha
    · simp
    · have hne : f b ≠ f a := fun heq => hl.1 (heq ▸ List.mem_map_of_mem ha)
      rw [List.find?_cons_of_neg (by simpa using hne)]
      exact ih hl.2 ha

theorem Announced.value_of_class (h : s₀.Announced d u known) {c : ClassDecl} (hc : c ∈ u.classes) :
    ∃ id, (id, c) ∈ known.classes.values := by
  have hfind : u.classNamed? c.name = some c := find?_of_nodup h.classNames hc
  rw [h.classes] at hfind
  obtain ⟨v, hv, rfl⟩ := Option.map_eq_some_iff.1 hfind
  exact ⟨v.1, mem_values.2 ⟨_, hv⟩⟩

theorem Announced.value_of_function (h : s₀.Announced d u known) {f : MethodDecl}
    (hf : f ∈ u.functions) : ∃ id, (id, f) ∈ known.functions.values := by
  have hfind : u.functionNamed? f.name = some f := find?_of_nodup h.functionNames hf
  rw [h.functions] at hfind
  obtain ⟨v, hv, rfl⟩ := Option.map_eq_some_iff.1 hfind
  exact ⟨v.1, mem_values.2 ⟨_, hv⟩⟩

/-- When all classes and functions are resolved, the state represents the unit. -/
theorem Signing.represents (h₀ : s₀.Announced d u known)
    (h : s.Signing d u known known.classes.values known.functions.values bodies) :
    s.Represents d u where
  natives := h.grounded.natives
  types := h.grounded.types
  functions sc hsc n := by
    rw [h.global sc hsc, h₀.functions]
    cases hn : known.functions[n]? with
    | none => rfl
    | some v =>
      obtain ⟨-, g, j, hr⟩ := h.functions v (mem_values.2 ⟨n, hn⟩)
      obtain ⟨-, sig, -, hsig, hsig', -⟩ := hr.signature
      rw [Option.map_some, Option.map_some, Option.bind_some, Option.bind_some, hsig, hsig']
  classes c i hi := by
    obtain ⟨decl, hv⟩ := h.listed c i hi
    obtain ⟨-, k, hk, hd, hc⟩ := h.classes (c, decl) hv
    rw [hi] at hk
    cases hk
    exact ⟨decl, hd, hc⟩

/-- The pass is over when nothing is left to be passed. -/
theorem Signing.signed (h₀ : s₀.Announced d u known)
    (h : s.Signing d u known known.classes.values known.functions.values bodies) :
    s.Signed d u (bodies ++ known.functions.values) where
  sound := h.grounded.sound
  represents := h.represents h₀
  declared :=
    { classNames := h₀.classNames
      classes := by
        intro c hc
        obtain ⟨id, hv⟩ := h₀.value_of_class hc
        exact (h.classes (id, c) hv).1
      functionNames := h₀.functionNames
      functions := by
        intro f hf
        obtain ⟨id, hv⟩ := h₀.value_of_function hf
        exact (h.functions (id, f) hv).1 }
  bodyless := h.bodyless
  ready b hb := by
    rcases List.mem_append.1 hb with hb | hb
    · obtain ⟨v, hv, hm, g, j, hr⟩ := h.written b hb
      obtain ⟨-, i, -, hd, -⟩ := h.classes v hv
      exact ⟨some v.2, g, j, ⟨(classNamed?_mem hd).1, hm⟩, hr⟩
    · obtain ⟨-, g, j, hr⟩ := h.functions b hb
      obtain ⟨n, hn⟩ := mem_values.1 hb
      have hfind := h₀.functions n
      rw [hn] at hfind
      exact ⟨none, g, j, List.mem_of_find?_eq_some hfind, hr⟩
  all owner m hm := by
    match owner, hm with
    | some c, ⟨hc, hm⟩ =>
      obtain ⟨id, hv⟩ := h₀.value_of_class hc
      obtain ⟨l, hl, hr⟩ := h.all (id, c) hv m hm
      exact ⟨l, List.mem_append_left _ hl, hr⟩
    | none, hf =>
      obtain ⟨l, hv⟩ := h₀.value_of_function hf
      exact ⟨l, List.mem_append_right _ hv, (h.functions (l, m) hv).2⟩
  distinct := by
    rw [List.map_append, List.nodup_append]
    refine ⟨h.distinct, List.pairwise_map.2 h₀.functions_distinct, fun l hl l' hl' heq => ?_⟩
    -- a method of a class is no function
    obtain ⟨b, hb, rfl⟩ := List.mem_map.1 hl
    obtain ⟨b', hb', rfl⟩ := List.mem_map.1 hl'
    obtain ⟨v, -, -, g, j, hr⟩ := h.written b hb
    obtain ⟨-, g', j', hr'⟩ := h.functions b' hb'
    rw [← heq] at hr'
    cases (hr.unique hr').2

end Resolver

/-- In a list with different numbers, the number of one entry is that of no other. -/
theorem distinct_split {α β : Type} {l pre post : List (α × β)} {v : α × β}
    (h : l.Pairwise fun v w => v.1 ≠ w.1) (hl : l = pre ++ v :: post) :
    (∀ w ∈ pre, w.1 ≠ v.1) ∧ ∀ w ∈ l, w ≠ v → w.1 ≠ v.1 := by
  rw [hl, List.pairwise_append, List.pairwise_cons] at h
  obtain ⟨-, ⟨hpost, -⟩, hpre⟩ := h
  have hpre' : ∀ w ∈ pre, w.1 ≠ v.1 := fun w hw => hpre w hw v List.mem_cons_self
  refine ⟨hpre', fun w hw hne => ?_⟩
  rw [hl] at hw
  rcases List.mem_append.1 hw with hw | hw
  · exact hpre' w hw
  · rcases List.mem_cons.1 hw with rfl | hw
    · exact absurd rfl hne
    · exact (hpost w hw).symm

/-- **The second pass makes all methods ready**, or the declarations are not in order. -/
theorem resolveSignatures_leads {s : Resolver} {d : Dialect} {u : CompilationUnit}
    {known : Declarations} (h : s.Announced d u known) :
    Leads (resolveSignatures d known) s (fun bodies s' => s'.Signed d u bodies)
      (Refused (u.WellDeclared d)) := by
  unfold resolveSignatures
  -- what one class or function is refused for, the whole unit is
  have classes := Leads.mapM (l := known.classes.values) (s := s)
    (f := fun (v : ClassId × ClassDecl) => resolveClass d v.1 v.2)
    (E := Refused (u.WellDeclared d))
    (fun pre answers s' => s'.Signing d u known pre [] answers.flatten) h.signing ?_
  · refine classes.seq fun answers s₁ h₁ => ?_
    have functions := Leads.mapM (l := known.functions.values) (s := s₁)
      (f := fun (v : MethodId × MethodDecl) => do
        resolveSignature d v.1 v.2
        return (v.1, v.2))
      (E := Refused (u.WellDeclared d))
      (fun pre fs s' => fs = pre ∧
        s'.Signing d u known known.classes.values pre answers.flatten) ⟨rfl, h₁⟩ ?_
    · refine functions.seq ?_
      rintro _ s₂ ⟨rfl, h₂⟩
      exact Leads.pure (h₂.signed h)
    · rintro pre v post _ s₂ hl ⟨rfl, hI⟩
      have hv : v ∈ known.functions.values := by rw [hl]; simp
      obtain ⟨hpre, hrest⟩ := distinct_split h.functions_distinct hl
      refine (hI.function_leads hv (fun hmem => hpre v hmem rfl) hrest).seq_imp
        (fun _ hr => hr.imp fun hu => ?_) fun _ s₃ h₃ => Leads.pure ⟨rfl, h₃⟩
      obtain ⟨n, hn⟩ := mem_values.1 hv
      have hfind := h.functions n
      rw [hn] at hfind
      exact hu.functions v.2 (List.mem_of_find?_eq_some hfind)
  · intro pre v post answers s₁ hl hI
    have hv : v ∈ known.classes.values := by rw [hl]; simp
    obtain ⟨hpre, hrest⟩ := distinct_split h.classes_distinct hl
    refine (hI.class_leads h.notNative hv (fun hmem => hpre v hmem rfl) hpre hrest).imp ?_
      fun _ hf => hf.imp fun hu => ?_
    · intro new s₂ h₂
      rw [List.flatten_append, List.flatten_singleton]
      exact h₂
    · obtain ⟨i, -, -, hd, -⟩ := h.class_of_value hv
      exact hu.classes v.2 (classNamed?_mem hd).1

end ClassLang
