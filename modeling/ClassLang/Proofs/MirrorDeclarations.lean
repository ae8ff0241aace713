import ClassLang.Proofs.MirrorMembers

/-!
# The second pass mirrors the elaboration of declarations

`resolveSignatures_mirrors`: after the declarations of a unit have been announced, the second pass
resolves them as they are elaborated. Afterwards everything that has been entered can be read back
without numbers (`Resolver.Readied`), and the bodies wait in the order in which they are elaborated.
-/

namespace ClassLang

open Resolver Resolve

/-! ## Things in the order of their names -/

section Order

variable {α β : Type} {name : α → String} {l : List α}

/-- What a name finds in the table of things by name. -/
theorem getElem?_ofList_name (hl : (l.map name).Nodup) (n : String) :
    (Std.TreeMap.ofList (l.map fun a => (name a, a)))[n]? = l.find? fun a => name a = n := by
  have hkeys : ((l.map fun a => (name a, a)).map Prod.fst).Nodup := by
    rw [List.map_map]; exact hl
  rw [getElem?_ofList_eq_lookup hkeys]
  clear hl hkeys
  induction l with
  | nil => rfl
  | cons a l ih =>
    rw [List.map_cons, List.lookup_cons, List.find?_cons, ih]
    by_cases hn : name a = n
    · simp [hn]
    · have hne : (n == name a) = false := beq_eq_false_iff_ne.2 fun h => hn h.symm
      simp [hn, hne]

/-- Things by name are the values of any table in which a name finds the same. -/
theorem byName_eq_of_find? (hl : (l.map name).Nodup) {t : Std.TreeMap String β} {f : β → α}
    (h : ∀ n, l.find? (fun a => name a = n) = (t[n]?).map f) : byName name l = t.values.map f :=
  values_eq_of_lookup fun n => by rw [getElem?_ofList_name hl, h n]

/-- Two lists that go along with each other are spread out alike. -/
theorem flatMap_eq_of_zip {γ : Type} {l' : List β} {f : α → List γ} {g : β → List γ}
    (hlen : l.length = l'.length) (h : ∀ q ∈ l.zip l', f q.1 = g q.2) :
    l.flatMap f = l'.flatMap g := by
  induction l generalizing l' with
  | nil => rw [List.length_eq_zero_iff.1 hlen.symm]; rfl
  | cons a l ih =>
    cases l' with
    | nil => cases hlen
    | cons b l' =>
      rw [List.flatMap_cons, List.flatMap_cons, h (a, b) List.mem_cons_self,
        ih (Nat.succ.inj hlen) fun q hq => h q (List.mem_cons_of_mem _ hq)]

/-- All of a list is elaborated if each of it is. -/
theorem exceptMapM_eq_ok_iff {ε : Type} {f : α → Except ε β} {bs : List β} :
    l.mapM f = .ok bs ↔ l.map f = bs.map .ok := by
  induction l generalizing bs with
  | nil => cases bs <;> simp [pure, Except.pure]
  | cons a l ih =>
    rw [List.mapM_cons, List.map_cons]
    cases ha : f a with
    | error e => cases bs <;> simp [bind, Except.bind]
    | ok b =>
      cases hl : l.mapM f with
      | error e =>
        have hne : ∀ bs : List β, l.map f ≠ bs.map .ok := fun bs h => by rw [ih.2 h] at hl; cases hl
        cases bs with
        | nil => simp [bind, Except.bind]
        | cons b' bs => simp [bind, Except.bind, hne bs]
      | ok cs =>
        have hcs := ih.1 hl
        cases bs with
        | nil => simp [bind, Except.bind, pure, Except.pure]
        | cons b' bs =>
          rw [hcs]
          simp only [bind, Except.bind, pure, Except.pure, Except.ok.injEq, List.cons.injEq,
            List.map_cons]
          refine and_congr_right fun _ => ⟨fun h => by rw [h], fun h => ?_⟩
          exact List.map_inj_right (fun _ _ h => Except.ok.inj h) |>.1 h

end Order

/-- What a signature says of the method: its names, and its arguments one after the other. -/
theorem MethodDecl.elaborateSignature_facts {I : Interface} {owner : Option String} {m : MethodDecl}
    {N : NamedMethod} (h : m.elaborateSignature I owner = .ok N) :
    N.method.owner = owner ∧ N.method.name = m.name ∧
      inTurn (ArgumentDecl.elaborate I (owner.toList.map fun _ => "this")) [] m.arguments =
        .ok N.arguments := by
  obtain ⟨ys, hargs, h⟩ := exists_of_bind_eq_ok h
  obtain ⟨T, -, ⟨⟩⟩ := exists_of_bind_eq_ok h
  exact ⟨rfl, rfl, hargs⟩

namespace Resolver

variable {s s' : Resolver} {d : Dialect} {u : CompilationUnit} {known : Declarations}
  {xs : List (List (MethodId × MethodDecl))} {cs : List (ClassId × ClassDecl)}

/-- A method as it stands in the order of elaboration: its owner's name and its declaration. -/
def entry (s : Resolver) (b : MethodId × MethodDecl) : Option String × MethodDecl :=
  ((s.callee? b.1).bind fun k => k.method.owner, b.2)

theorem Readable.entry_eq {owner : Option String} {b : MethodId × MethodDecl}
    (h : s.Readable d u owner b) : s.entry b = (owner, b.2) := by
  obtain ⟨g, j, N, hN, hp⟩ := h
  rw [entry, hp.callee, Option.bind_some, (MethodDecl.elaborateSignature_facts hN).1]

/-! ## What stays -/

/-- A class stays readable as long as it, its scope and its methods are left alone. -/
theorem ClassShown.mono {c : ClassId} {decl : ClassDecl} {bodies : List (MethodId × MethodDecl)}
    {i : ClassInfo} (h : s.ClassShown d u c decl bodies i) (hg : s.Grows s') (hs : s.Sound)
    (hs' : s'.Sound) (hi : s'.program.classAt? c = some i)
    (hsc : ∀ sc, s.program.scopeAt? i.scope = some sc → s'.program.scopeAt? i.scope = some sc)
    (hb : ∀ b ∈ bodies, s'.Readable d u (some decl.name) b) :
    s'.ClassShown d u c decl bodies i where
  info := hi
  view := by
    obtain ⟨N, hN, hview⟩ := h.view
    obtain ⟨i₀, hi₀, hn, hsp, hys⟩ := class?_eq_some_iff.1 hview
    rw [h.info] at hi₀
    cases hi₀
    exact ⟨N, hN, class?_eq_some_iff.2 ⟨i, hi, hn, hsp, hg.map_namedVar? hs hs' hys⟩⟩
  fields n := by
    rw [← h.fields n]
    cases hv : i.fields[n]? with
    | none => rfl
    | some v =>
      obtain ⟨x, -, hx, -⟩ := (hs.classes c i h.info).field n v hv
      obtain ⟨y, hy⟩ := hs.namedVar?_isSome hx
      rw [Option.bind_some, Option.bind_some, hy, hg.namedVar? hs hs' hy]
  scope sc hsc' n := by
    obtain ⟨sc₀, hsc₀, -⟩ := (hs.classes c i h.info).scope
    rw [hsc sc₀ hsc₀] at hsc'
    cases hsc'
    exact h.scope sc hsc₀ n
  numbers := h.numbers
  decls := h.decls
  readable := hb

/-- The scope of a class is not a block. -/
theorem Sound.class_scope_ne_block (hs : s.Sound) {c : ClassId} {i : ClassInfo}
    (hi : s.program.classAt? c = some i) {j : ScopeId} {sc : Scope} (hj : some i.scope = some j)
    (hsc : s.program.scopeAt? j = some sc) : sc.kind ≠ .block := by
  cases hj
  obtain ⟨sc', hsc', hk⟩ := (hs.classes c i hi).scope
  rw [hsc] at hsc'
  cases hsc'
  rw [hk]
  nofun

/-! ## The pass under way -/

/-- **The second pass is under way**: the classes `cs` can be read back, each with its methods in
`xs`, and so can the functions `fs`. -/
structure PartRead (s : Resolver) (d : Dialect) (u : CompilationUnit) (known : Declarations)
    (cs : List (ClassId × ClassDecl)) (xs : List (List (MethodId × MethodDecl)))
    (fs : List (MethodId × MethodDecl)) : Prop where
  length_eq : cs.length = xs.length
  classes : ∀ q ∈ cs.zip xs, ∃ i, s.ClassShown d u q.1.1 q.1.2 q.2 i
  functions : ∀ b ∈ fs, s.Readable d u none b
  spans : ∀ v ∈ known.classes.values, v ∉ cs → ∀ i, s.program.classAt? v.1 = some i →
    i.span = v.2.span
  classTable : ∀ n : String, s.program.classNames[n]? = (known.classes[n]?).map Prod.fst
  functionTable : ∀ n : String, s.program.functions[n]? = (known.functions[n]?).map Prod.fst

theorem Announced.partRead (h : s.Announced d u known) : s.PartRead d u known [] [] [] where
  length_eq := rfl
  classes := nofun
  functions := nofun
  spans v hv _ i hi := by
    obtain ⟨n, hn⟩ := mem_values.1 hv
    exact h.spans n v.1 v.2 i hn hi
  classTable := h.classTable
  functionTable := h.functionTable

/-- A class that has been resolved is one of those that can be read back. -/
theorem PartRead.class_of_mem {fs : List (MethodId × MethodDecl)}
    (h : s.PartRead d u known cs xs fs) {v : ClassId × ClassDecl} (hv : v ∈ cs) :
    ∃ new i, s.ClassShown d u v.1 v.2 new i := by
  have hmem : v ∈ (cs.zip xs).map Prod.fst := by
    rw [List.map_fst_zip (Nat.le_of_eq h.length_eq)]
    exact hv
  obtain ⟨q, hq, rfl⟩ := List.mem_map.1 hmem
  obtain ⟨i, hi⟩ := h.classes q hq
  exact ⟨q.2, i, hi⟩

/-- **One class more.** -/
theorem Signing.class_mirrors (h : s.Signing d u known cs [] xs.flatten)
    (hread : s.PartRead d u known cs xs [])
    (hnative : ∀ c ∈ u.classes, d.catalog.contains c.name = false) {v : ClassId × ClassDecl}
    (hv : v ∈ known.classes.values) (hnew : v ∉ cs) (hcs : ∀ w ∈ cs, w.1 ≠ v.1)
    (hrest : ∀ w ∈ known.classes.values, w ≠ v → w.1 ≠ v.1) :
    Mirrors (resolveClass d v.1 v.2) s
      (fun new s' _ => s'.Signing d u known (cs ++ [v]) [] (xs ++ [new]).flatten ∧
        s'.PartRead d u known (cs ++ [v]) (xs ++ [new]) [])
      (v.2.elaborate (u.interface d)) := by
  have hs := h.grounded.sound
  obtain ⟨i, hi, hd, hb⟩ := h.blank v hv hnew
  refine ((resolveClass_mirrors h.grounded hi hb hd (hread.spans v hv hnew i hi)).and
    ((resolveClass_leads h.grounded hi hb hd).and
      (h.class_leads hnative hv hnew hcs hrest))).imp ?_
  rintro new s' _ ⟨⟨⟨hF, -⟩, hsigning⟩, i', hshown⟩
  have hf := hF.frame
  have hs' := hF.sound
  rw [List.flatten_append, List.flatten_singleton]
  refine ⟨hsigning, ?_, fun q hq => ?_, nofun, fun w hw hnot k hk => ?_, ?_, ?_⟩
  · rw [List.length_append, List.length_append, hread.length_eq]; rfl
  · -- classes passed before stay as they read, and this one is shown
    rw [List.zip_append hread.length_eq] at hq
    rcases List.mem_append.1 hq with hq | hq
    · obtain ⟨k, hk⟩ := hread.classes q hq
      obtain ⟨hk', hsc, -⟩ := hf.otherClass hs hi hk.info (hcs q.1 (List.of_mem_zip hq).1)
      refine ⟨k, hk.mono hf.toGrows hs hs' hk' hsc fun b hb => ?_⟩
      exact (hk.readable b hb).frame hf hs hs' nofun fun j sc => hs.class_scope_ne_block hi
    · cases List.mem_singleton.1 hq
      exact ⟨i', hshown⟩
  · have hwv : w ≠ v := fun heq => hnot (by rw [heq]; simp)
    obtain ⟨k₀, hk₀⟩ := hf.class_of_class hk
    obtain ⟨hk', -⟩ := hf.otherClass hs hi hk₀ (hrest w hw hwv)
    rw [hk] at hk'
    cases hk'
    exact hread.spans w hw (fun hmem => hnot (List.mem_append_left _ hmem)) k hk₀
  · rw [hf.tables.1]; exact hread.classTable
  · rw [hf.tables.2]; exact hread.functionTable

/-- **One function more.** -/
theorem Signing.function_mirrors {fs bodies : List (MethodId × MethodDecl)}
    (h : s.Signing d u known cs fs bodies) (hread : s.PartRead d u known cs xs fs)
    {v : MethodId × MethodDecl} (hv : v ∈ known.functions.values) (hnew : v ∉ fs)
    (hrest : ∀ w ∈ known.functions.values, w ≠ v → w.1 ≠ v.1) :
    Mirrors (resolveSignature d v.1 v.2) s
      (fun _ s' _ => s'.Signing d u known cs (fs ++ [v]) bodies ∧
        s'.PartRead d u known cs xs (fs ++ [v]))
      (v.2.elaborateSignature (u.interface d) none) := by
  have hs := h.grounded.sound
  have hm := h.announced v hv hnew
  have howns : s.Owns u none none := trivial
  refine ((resolveSignature_mirrors h.grounded hm howns).known.and
    ((resolveSignature_leads h.grounded hm howns).and (h.function_leads hv hnew hrest))).imp ?_
  rintro _ s' N ⟨⟨⟨hf, hs', -⟩, hsigning⟩, hN, g, j, hp⟩
  -- what is readable has a scope, and `v` had none before
  have hkeep : ∀ {owner b}, s.Readable d u owner b → s'.Readable d u owner b := by
    intro owner b hb
    refine hb.frame hf hs hs' (fun heq => ?_) nofun
    obtain ⟨g', j', N', -, hp'⟩ := hb
    have hscope := hp'.scope
    rw [← Option.some.inj heq] at hp'
    rw [show g' = _ from Option.some.inj (hp'.method.symm.trans hm)] at hscope
    cases hscope
  refine ⟨hsigning, hread.length_eq, fun q hq => ?_, fun b hb => ?_, fun w hw hnot k hk => ?_, ?_,
    ?_⟩
  · obtain ⟨k, hk⟩ := hread.classes q hq
    exact ⟨k, hk.mono hf.toGrows hs hs' (hf.keepsClass hk.info)
      (fun _ => hf.keepsScope) fun b hb => hkeep (hk.readable b hb)⟩
  · rcases List.mem_append.1 hb with hb | hb
    · exact hkeep (hread.functions b hb)
    · cases List.mem_singleton.1 hb
      exact ⟨g, j, N, hN, hp⟩
  · obtain ⟨k₀, hk₀⟩ := hf.class_of_class hk
    rw [hf.keepsClass hk₀] at hk
    cases hk
    exact hread.spans w hw hnot k hk₀
  · rw [hf.tables.1]; exact hread.classTable
  · rw [hf.tables.2]; exact hread.functionTable

/-! ## After the pass -/

/-- **Everything that has been entered can be read back**: the classes are `classes`, and `bodies`
are the declared methods in the order of elaboration. -/
structure Readied (s : Resolver) (d : Dialect) (u : CompilationUnit)
    (bodies : List (MethodId × MethodDecl)) (classes : List NamedClass) : Prop where
  published : s.Published d u
  classes : s.program.classNames.values.map s.class? = classes.map some
  declared : s.program.declared = bodies.map Prod.fst
  order : bodies.map s.entry = u.inOrder
  readable : ∀ b ∈ bodies, s.Readable d u (s.entry b).1 b
  members : ∀ c i sc, s.program.classAt? c = some i → s.program.scopeAt? i.scope = some sc →
    ∀ n : String, sc.methods[n]? = i.methods[n]?
  functions : ∀ sc, s.program.scopeAt? ScopeTree.globalId = some sc →
    ∀ n : String, sc.methods[n]? = s.program.functions[n]?

/-- The classes of a unit in the order of their names. -/
theorem Announced.classes_byName (h : s.Announced d u known) :
    byName ClassDecl.name u.classes = known.classes.values.map Prod.snd :=
  byName_eq_of_find? h.classNames h.classes

/-- The functions of a unit in the order of their names. -/
theorem Announced.functions_byName (h : s.Announced d u known) :
    byName MethodDecl.name u.functions = known.functions.values.map Prod.snd :=
  byName_eq_of_find? h.functionNames h.functions

/-- The tables then publish the interface of the unit. -/
theorem PartRead.published {s₀ : Resolver} (h₀ : s₀.Announced d u known)
    (h : s.Signing d u known known.classes.values known.functions.values xs.flatten)
    (hread : s.PartRead d u known known.classes.values xs known.functions.values) :
    s.Published d u where
  fields c i hi n := by
    -- every class has been passed, with the fields that its declaration has
    obtain ⟨decl, hv⟩ := h.listed c i hi
    obtain ⟨new, i', hshown⟩ := hread.class_of_mem hv
    have hinfo : s.program.classAt? c = some i' := hshown.info
    rw [hi] at hinfo
    cases hinfo
    obtain ⟨-, i', hi', hd, -⟩ := h.classes (c, decl) hv
    have hi'' : s.program.classAt? c = some i' := hi'
    rw [hi] at hi''
    cases hi''
    rw [hshown.fields n]
    show _ = (u.classNamed? i.name).bind fun decl => decl.namedField? d u n
    rw [hd]
    rfl
  functionNames sc hsc n m g hm hg := by
    rw [h.global sc hsc n] at hm
    obtain ⟨v, hv, rfl⟩ := Option.map_eq_some_iff.1 hm
    obtain ⟨-, g', j, hr⟩ := h.functions v (mem_values.2 ⟨n, hv⟩)
    have hfind := h₀.functions n
    rw [hv] at hfind
    have hname : v.2.name = n := by simpa using List.find?_some hfind
    rw [show g = g' from Option.some.inj (hg.symm.trans hr.method), hr.name, hname]
  signatures f hf := by
    obtain ⟨id, hv⟩ := h₀.value_of_function hf
    obtain ⟨-, g, j, hr⟩ := h.functions (id, f) hv
    obtain ⟨-, sig, -, hsig, -⟩ := hr.signature
    rw [hsig]; rfl

/-- **After the second pass** every class and method reads as its declaration. -/
theorem PartRead.readied {s₀ : Resolver} {classes : List NamedClass} (h₀ : s₀.Announced d u known)
    (h : s.Signing d u known known.classes.values known.functions.values xs.flatten)
    (hread : s.PartRead d u known known.classes.values xs known.functions.values)
    (hclasses : (byName ClassDecl.name u.classes).mapM (fun c => c.elaborate (u.interface d)) =
      .ok classes) : s.Readied d u (xs.flatten ++ known.functions.values) classes := by
  have hnames : s.program.classNames.values = known.classes.values.map Prod.fst :=
    values_eq_of_lookup hread.classTable
  have hfunctions : s.program.functions.values = known.functions.values.map Prod.fst :=
    values_eq_of_lookup hread.functionTable
  -- the methods of each class, by number and as they are written
  have hnumbers : ∀ q ∈ known.classes.values.zip xs,
      ((s.program.classAt? q.1.1).elim [] fun i => i.methods.values) = q.2.map Prod.fst := by
    intro q hq
    obtain ⟨i, hi⟩ := hread.classes q hq
    rw [hi.info]
    exact hi.numbers
  have hentries : ∀ q ∈ known.classes.values.zip xs,
      ((byName MethodDecl.name q.1.2.methods).map fun m => (some q.1.2.name, m)) =
        q.2.map s.entry := by
    intro q hq
    obtain ⟨i, hi⟩ := hread.classes q hq
    rw [← hi.decls, List.map_map]
    exact List.map_congr_left fun b hb => ((hi.readable b hb).entry_eq).symm
  refine
    { published := hread.published h₀ h, classes := ?_, declared := ?_, order := ?_, readable := ?_
      members := ?_, functions := ?_ }
  · rw [h₀.classes_byName] at hclasses
    rw [hnames, List.map_map]
    have hread' : known.classes.values.map (s.class? ∘ Prod.fst) =
        (known.classes.values.map fun v => v.2.elaborate (u.interface d)).map Except.toOption := by
      rw [List.map_map]
      refine List.map_congr_left fun v hv => ?_
      obtain ⟨new, i, hi⟩ := hread.class_of_mem hv
      obtain ⟨N, hN, hview⟩ := hi.view
      show s.class? v.1 = (v.2.elaborate _).toOption
      rw [hview, hN]; rfl
    have hok := exceptMapM_eq_ok_iff.1 hclasses
    rw [List.map_map] at hok
    rw [hread', show known.classes.values.map (fun v => v.2.elaborate (u.interface d)) = _ from hok,
      List.map_map]
    rfl
  · unfold Program.declared
    rw [hnames, hfunctions, List.flatMap_map, flatMap_eq_of_zip hread.length_eq hnumbers,
      List.map_append, List.map_flatten, ← List.flatMap_def]
  · unfold CompilationUnit.inOrder
    rw [h₀.classes_byName, h₀.functions_byName, List.flatMap_map,
      flatMap_eq_of_zip hread.length_eq hentries, List.map_append, List.map_flatten,
      ← List.flatMap_def, List.map_map]
    congr 1
    exact List.map_congr_left fun b hb => (hread.functions b hb).entry_eq
  · intro b hb
    rcases List.mem_append.1 hb with hb | hb
    · obtain ⟨new, hnew, hmem⟩ := List.mem_flatten.1 hb
      rw [← List.map_snd_zip (Nat.le_of_eq hread.length_eq.symm)] at hnew
      obtain ⟨q, hq, rfl⟩ := List.mem_map.1 hnew
      obtain ⟨i, hi⟩ := hread.classes q hq
      rw [(hi.readable b hmem).entry_eq]
      exact hi.readable b hmem
    · rw [(hread.functions b hb).entry_eq]
      exact hread.functions b hb
  · intro c i sc hi hsc n
    obtain ⟨decl, hv⟩ := h.listed c i hi
    obtain ⟨new, i', hshown⟩ := hread.class_of_mem hv
    have hinfo : s.program.classAt? c = some i' := hshown.info
    rw [hi] at hinfo
    cases hinfo
    exact hshown.scope sc hsc n
  · intro sc hsc n
    rw [h.global sc hsc, hread.functionTable]

end Resolver

/-- **The second pass mirrors the elaboration of the declarations.** -/
theorem resolveSignatures_mirrors {s : Resolver} {d : Dialect} {u : CompilationUnit}
    {known : Declarations} (h : s.Announced d u known) :
    Mirrors (resolveSignatures d known) s
      (fun bodies s' classes => s'.Signed d u bodies ∧ s'.Readied d u bodies classes)
      (u.elaborateSignatures d) := by
  unfold resolveSignatures CompilationUnit.elaborateSignatures
  have classes := Mirrors.mapM (l := known.classes.values) (q := Prod.snd) (s := s)
    (f := fun (v : ClassId × ClassDecl) => resolveClass d v.1 v.2)
    (g := fun _ c => c.elaborate (u.interface d))
    (fun pre xs _ s' => s'.Signing d u known pre [] xs.flatten ∧ s'.PartRead d u known pre xs [])
    ⟨h.signing, h.partRead⟩ ?_
  · -- classes are elaborated in the order of their names, as the table lists them
    rw [inTurn_const, ← h.classes_byName] at classes
    refine classes.known.seq ?_
    rintro xs s₁ Ns ⟨hNs, h₁, hread₁⟩
    have functions := Mirrors.mapM (l := known.functions.values) (q := Prod.snd) (s := s₁)
      (f := fun (v : MethodId × MethodDecl) => do
        resolveSignature d v.1 v.2
        return (v.1, v.2))
      (g := fun _ f => f.elaborateSignature (u.interface d) none)
      (fun pre fs _ s' => fs = pre ∧ s'.Signing d u known known.classes.values pre xs.flatten ∧
        s'.PartRead d u known known.classes.values xs pre) ⟨rfl, h₁, hread₁⟩ ?_
    · rw [inTurn_const, ← h.functions_byName] at functions
      refine functions.seq ?_
      rintro _ s₂ _ ⟨rfl, h₂, hread₂⟩
      exact Mirrors.pure ⟨h₂.signed h, hread₂.readied h h₂ hNs⟩
    · rintro pre v post _ _ s₂ hl ⟨rfl, hI, hread⟩
      have hv : v ∈ known.functions.values := by rw [hl]; simp
      obtain ⟨hpre, hrest⟩ := distinct_split h.functions_distinct hl
      rw [← bind_pure (v.2.elaborateSignature _ _)]
      refine (hI.function_mirrors hread hv (fun hmem => hpre v hmem rfl) hrest).seq ?_
      rintro _ s₃ _ ⟨h₃, hread₃⟩
      exact Mirrors.pure ⟨rfl, h₃, hread₃⟩
  · rintro pre v post xs _ s₁ hl ⟨hI, hread⟩
    have hv : v ∈ known.classes.values := by rw [hl]; simp
    obtain ⟨hpre, hrest⟩ := distinct_split h.classes_distinct hl
    exact hI.class_mirrors hread h.notNative hv (fun hmem => hpre v hmem rfl) hpre hrest

end ClassLang
