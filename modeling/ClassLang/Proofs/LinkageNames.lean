import ClassLang.Proofs.LinkageCode
import ClassLang.Proofs.Provenance
import ClassLang.Proofs.Resolution

/-!
# Linkage names of programs

What is named in a program is named by words, since its names come from identifiers of the text. So
linkage names can be read back, across programs too; and within a program a method is told by its
owner and its name.

* `CompilationUnit.roster_of_resolve`: the methods of a program, in the order of their numbers.
* `CompilationUnit.method_unique`: a method is told by its owner and its name.
* `Program.linkageName_eq_iff`: when two methods, of whatever programs, have the same linkage name.
* `Program.linkageName_eq_iff_foreign`: within a program, only a function that is defined elsewhere
  can have the linkage name of another method. Its name is kept as it is, so it can be spelled like
  any linkage name.
-/

namespace ClassLang

open Resolver Resolve

/-! ## The methods of a program -/

/-- The heading of a declared method. -/
def MethodDecl.heading (owner : Option ClassId) (m : MethodDecl) : Heading := ⟨owner, m.name, m.kind⟩

/-- The headings of the native operators. -/
def Native.operatorHeadings : List Heading :=
  Native.operatorAnnouncements.filterMap Announcement.heading?

/-- An operator, not a method of the text. -/
def Heading.isOperator (h : Heading) : Bool :=
  match h.kind with
  | .operator _ _ => true
  | _ => false

theorem Native.isOperator_of_mem {h : Heading} (hh : h ∈ operatorHeadings) :
    h.isOperator = true := by
  obtain ⟨a, ha, hhead⟩ := List.mem_filterMap.1 hh
  obtain ⟨k, -, hk⟩ := List.mem_flatMap.1 ha
  obtain ⟨op, -, rfl⟩ := List.mem_map.1 hk
  cases hhead
  rfl

theorem MethodDecl.isOperator_heading (owner : Option ClassId) (m : MethodDecl) :
    (m.heading owner).isOperator = false := by
  unfold heading Heading.isOperator MethodDecl.kind
  cases m.body <;> rfl

/-- The heading of a method stands in the roster at its number. -/
theorem Program.roster_getElem {p : Program} {m : MethodId} {g : Method}
    (hg : p.methodAt? m = some g) :
    ∃ h : m.index < p.roster.length, p.roster[m.index] = g.heading := by
  obtain ⟨hlt, rfl⟩ := Array.getElem?_eq_some_iff.1 hg
  refine ⟨by simpa [roster] using hlt, ?_⟩
  simp [roster]

namespace CompilationUnit

variable {d : Dialect} {u : CompilationUnit} {r : Registry} {p : Program}

/-- The declarations that announce methods are the functions. -/
theorem filterMap_announcement (u : CompilationUnit) :
    (u.decls.map Decl.announcement).filterMap Announcement.heading? =
      u.functions.map (MethodDecl.heading none) := by
  unfold functions
  rw [List.filterMap_map, List.map_filterMap]
  refine congrArg (List.filterMap · u.decls) (funext fun decl => ?_)
  cases decl <;> rfl

/-- A path that announces the operators, the declarations and the methods of some classes leads to
these methods, in that order. -/
theorem roster_of_announced {s : Resolver} {log : List Event} {classes : List (ClassId × ClassDecl)}
    (hpath : Path d .initial log s)
    (hannounced : announcedIn log = Native.operatorAnnouncements ++ u.decls.map Decl.announcement ++
      classes.flatMap fun v => v.2.methods.map (MethodDecl.announcement (some v.1))) :
    s.program.roster = Native.operatorHeadings ++ u.functions.map (MethodDecl.heading none) ++
      classes.flatMap fun v => v.2.methods.map (MethodDecl.heading (some v.1)) := by
  have hmethods : (classes.flatMap fun v =>
      v.2.methods.map (MethodDecl.announcement (some v.1))).filterMap Announcement.heading? =
      classes.flatMap fun v => v.2.methods.map (MethodDecl.heading (some v.1)) := by
    rw [List.filterMap_flatMap]
    refine congrArg (List.flatMap · classes) (funext fun v => ?_)
    rw [List.filterMap_map]
    show v.2.methods.filterMap (some ∘ MethodDecl.heading (some v.1)) = _
    rw [List.filterMap_eq_map]
  rw [hpath.roster_eq, hannounced, List.filterMap_append, List.filterMap_append,
    filterMap_announcement, hmethods]
  rfl

/-- **The methods of a program**: the operators, the functions as they are written, and the methods
of one class after the other as they are written there. -/
theorem roster_of_resolve (h : u.resolve d = .ok (r, p)) : ∃ classes : List (ClassId × ClassDecl),
    p.roster = Native.operatorHeadings ++ u.functions.map (MethodDecl.heading none) ++
      classes.flatMap (fun v => v.2.methods.map (MethodDecl.heading (some v.1))) ∧
    (∀ v ∈ classes, v.2 ∈ u.classes) ∧ classes.Pairwise fun v w => v.1 ≠ w.1 := by
  obtain ⟨s, log, -, rfl, hpath, hlogged⟩ := path_of_resolve h
  obtain ⟨classes, hannounced, hmem, hdistinct⟩ := hlogged.announced
  exact ⟨classes, roster_of_announced hpath hannounced, hmem, hdistinct⟩

/-- Every method of a program that is no operator is declared. -/
theorem methodName_of_resolve (h : u.resolve d = .ok (r, p)) {m : MethodId} {g : Method}
    (hg : p.methodAt? m = some g) (ho : g.isOperator = false) :
    (∃ f ∈ u.functions, f.name = g.name) ∨ ∃ c ∈ u.classes, ∃ f ∈ c.methods, f.name = g.name := by
  obtain ⟨classes, hroster, hmem, -⟩ := roster_of_resolve h
  obtain ⟨hlt, hat⟩ := Program.roster_getElem hg
  have hin : g.heading ∈ p.roster := hat ▸ List.getElem_mem hlt
  rw [hroster, List.mem_append, List.mem_append] at hin
  rcases hin with (hin | hin) | hin
  · have hop : g.isOperator = true := Native.isOperator_of_mem hin
    rw [ho] at hop
    cases hop
  · obtain ⟨f, hf, hheading⟩ := List.mem_map.1 hin
    exact .inl ⟨f, hf, congrArg Heading.name hheading⟩
  · obtain ⟨v, hv, hin⟩ := List.mem_flatMap.1 hin
    obtain ⟨f, hf, hheading⟩ := List.mem_map.1 hin
    exact .inr ⟨v.2, hmem v hv, f, hf, congrArg Heading.name hheading⟩

/-- Every class of a program is declared. -/
theorem className_of_resolve (h : u.resolve d = .ok (r, p)) {c : ClassId} {n : String}
    (hn : r.className? c = some n) : ∃ cl ∈ u.classes, cl.name = n := by
  obtain ⟨s, log, rfl, -, hpath, hlogged⟩ := path_of_resolve h
  obtain ⟨classes, hannounced, -, -⟩ := hlogged.announced
  rcases hpath.className_announced hn with hinitial | hin
  · cases hinitial
  · rw [hannounced, List.mem_append, List.mem_append] at hin
    rcases hin with (hin | hin) | hin
    · obtain ⟨k, -, hk⟩ := List.mem_flatMap.1 hin
      obtain ⟨op, -, hop⟩ := List.mem_map.1 hk
      cases hop
    · obtain ⟨decl, hdecl, hclass⟩ := List.mem_map.1 hin
      cases decl with
      | ofFunction f => cases hclass
      | ofClass cl =>
        cases hclass
        exact ⟨cl, mem_classes.2 hdecl, rfl⟩
    · obtain ⟨v, -, hv⟩ := List.mem_flatMap.1 hin
      obtain ⟨m, -, hm⟩ := List.mem_map.1 hv
      cases hm

/-- Without the operators, the methods that are declared are left. -/
theorem filter_headings (u : CompilationUnit) (classes : List (ClassId × ClassDecl)) :
    ((Native.operatorHeadings ++ u.functions.map (MethodDecl.heading none) ++
      classes.flatMap fun v => v.2.methods.map (MethodDecl.heading (some v.1))).filter
        fun a => !a.isOperator) =
      u.functions.map (MethodDecl.heading none) ++
        classes.flatMap fun v => v.2.methods.map (MethodDecl.heading (some v.1)) := by
  have hkeep : ∀ (o : Option ClassId) (ms : List MethodDecl),
      (ms.map (MethodDecl.heading o)).filter (fun a => !a.isOperator) =
        ms.map (MethodDecl.heading o) := by
    intro o ms
    refine List.filter_eq_self.2 fun a ha => ?_
    obtain ⟨m, -, rfl⟩ := List.mem_map.1 ha
    rw [m.isOperator_heading]
    rfl
  have hops : Native.operatorHeadings.filter (fun a => !a.isOperator) = [] := by
    refine List.filter_eq_nil_iff.2 fun a ha => ?_
    rw [Native.isOperator_of_mem ha]
    decide
  rw [List.filter_append, List.filter_append, hops, hkeep, List.nil_append, List.filter_flatMap]
  simp only [hkeep]

/-- No two methods of a program have the same owner and the same name, operators apart. -/
theorem roster_pairwise (h : u.resolve d = .ok (r, p)) :
    (p.roster.filter fun a => !a.isOperator).Pairwise fun a b =>
      ¬ (a.owner = b.owner ∧ a.name = b.name) := by
  obtain ⟨classes, hroster, hmem, hdistinct⟩ := roster_of_resolve h
  obtain ⟨s, -, -, hs⟩ := u.finished_of_resolve h
  have hu := hs.wellTyped.declared
  have hnames : ∀ {o : Option ClassId} {ms : List MethodDecl}, (ms.map MethodDecl.name).Nodup →
      (ms.map (MethodDecl.heading o)).Pairwise fun a b => ¬ (a.owner = b.owner ∧ a.name = b.name) := by
    intro o ms hnodup
    rw [List.Nodup, List.pairwise_map] at hnodup
    rw [List.pairwise_map]
    exact hnodup.imp fun hne hsame => hne hsame.2
  rw [hroster, filter_headings]
  refine List.pairwise_append.2 ⟨hnames hu.functionNames, List.pairwise_flatMap.2 ⟨?_, ?_⟩, ?_⟩
  · exact fun v hv => hnames (hu.classes v.2 (hmem v hv)).methodNames
  · refine hdistinct.imp fun hne a ha b hb hsame => hne ?_
    obtain ⟨m, -, rfl⟩ := List.mem_map.1 ha
    obtain ⟨m', -, rfl⟩ := List.mem_map.1 hb
    exact Option.some.inj hsame.1
  · intro a ha b hb hsame
    obtain ⟨f, -, rfl⟩ := List.mem_map.1 ha
    obtain ⟨v, -, hv⟩ := List.mem_flatMap.1 hb
    obtain ⟨m, -, rfl⟩ := List.mem_map.1 hv
    cases hsame.1

/-- **A method is told by its owner and its name.** -/
theorem method_unique (h : u.resolve d = .ok (r, p)) {m m' : MethodId} {g g' : Method}
    (hg : p.methodAt? m = some g) (hg' : p.methodAt? m' = some g') (ho : g.isOperator = false)
    (ho' : g'.isOperator = false) (howner : g.owner = g'.owner) (hname : g.name = g'.name) :
    m = m' := by
  have hpairs := List.pairwise_filter.1 (roster_pairwise h)
  rw [List.pairwise_iff_getElem] at hpairs
  obtain ⟨hlt, hat⟩ := Program.roster_getElem hg
  obtain ⟨hlt', hat'⟩ := Program.roster_getElem hg'
  have hop : (!g.heading.isOperator) = true := congrArg not ho
  have hop' : (!g'.heading.isOperator) = true := congrArg not ho'
  -- Neither number can be less than the other.
  have h₁ : ¬ m.index < m'.index := fun hless => by
    have hne := hpairs _ _ hlt hlt' hless
    rw [hat, hat'] at hne
    exact hne hop hop' ⟨howner, hname⟩
  have h₂ : ¬ m'.index < m.index := fun hless => by
    have hne := hpairs _ _ hlt' hlt hless
    rw [hat, hat'] at hne
    exact hne hop' hop ⟨howner.symm, hname.symm⟩
  have hindex : m.index = m'.index := by omega
  exact congrArg MethodId.mk hindex

end CompilationUnit

/-! ## Words -/

/-- An identifier is a word. -/
theorem NamedIn.isWord {file source : String} {ts : List Token} {n : String}
    (hscan : Token.ofText file source = .ok ts) (h : NamedIn ts n) : IsWord n := by
  obtain ⟨t, ht, hkind, rfl⟩ := h
  exact (Token.stands_of_ofText hscan ht).2 hkind

/-- The classes of a type are named as the classes of the registry are. -/
theorem Shape.worded {classes : ClassId → Option String}
    (hclasses : ∀ c n, classes c = some n → IsWord n) {sh : Shape} {T : Ty}
    (h : sh.ty? classes = some T) : T.Worded := by
  induction sh generalizing T with
  | native k => cases h; trivial
  | ofClass c =>
    obtain ⟨n, hn, rfl⟩ := Option.map_eq_some_iff.1 h
    exact hclasses c n hn
  | pointer t ih | array t ih =>
    obtain ⟨T', hT, rfl⟩ := Option.map_eq_some_iff.1 h
    have hworded : T'.Worded := ih hT
    exact hworded
  | unknown id => cases h

/-- Which method a number stands for in a resolved program. -/
def Program.methodName? (p : Program) (r : Registry) (m : MethodId) : Option MethodName :=
  (⟨r, p, none⟩ : Resolver).methodName? m

/-- Whether a method is a function that is defined elsewhere, and so keeps its name. -/
def Method.isForeign (g : Method) : Bool := g.owner.isNone && g.isExternal

/-- The linkage name of a method and what it is made from. -/
structure Program.Linked (p : Program) (r : Registry) (m : MethodId) (g : Method) (n : MethodName) :
    Prop where
  named : p.methodName? r m = some n
  worded : n.Worded
  name : n.name = g.name
  owner : (⟨r, p, none⟩ : Resolver).ownerName? g.owner = some n.owner
  linkage : p.linkageName r m = .ok (if g.isForeign then g.name else n.code)

/-- **Every method of a text has a linkage name**, and all names in it are words. -/
theorem Program.exists_linked {file source : String} {r : Registry} {p : Program}
    (h : compile file source = .ok (r, p)) {m : MethodId} {g : Method}
    (hg : p.methodAt? m = some g) (ho : g.isOperator = false) : ∃ n, p.Linked r m g n := by
  obtain ⟨ts, u, hscan, hparse, hresolve⟩ := compile_eq_ok h
  have hfrom := CompilationUnit.ofTokens_yields file ts
  rw [hparse] at hfrom
  -- names are words, since they come from tokens
  have hclasses : ∀ c n, r.className? c = some n → IsWord n := by
    intro c n hn
    obtain ⟨cl, hcl, rfl⟩ := CompilationUnit.className_of_resolve hresolve hn
    exact (hfrom.classes cl hcl).1.isWord hscan
  have hname : IsWord g.name := by
    rcases CompilationUnit.methodName_of_resolve hresolve hg ho with
      ⟨f, hf, hfn⟩ | ⟨c, hc, f, hf, hfn⟩
    · exact hfn ▸ (hfrom.functions f hf).isWord hscan
    · exact hfn ▸ ((hfrom.classes c hc).2 f hf).isWord hscan
  obtain ⟨s, rfl, rfl, hs⟩ := u.finished_of_resolve hresolve
  obtain ⟨sig, tys, hsig, -, hps, -⟩ := hs.sound.signatureOf?_isSome hg
  obtain ⟨o, howner, hword, hnone⟩ : ∃ o, s.ownerName? g.owner = some o ∧
      (∀ n, o = some n → IsWord n) ∧ o.isNone = g.owner.isNone := by
    cases hc : g.owner with
    | none => exact ⟨none, rfl, nofun, rfl⟩
    | some c =>
      obtain ⟨i, hi⟩ := (hs.sound.methods m g hg).owner c hc
      refine ⟨some i.name, by simp [ownerName?, Resolver.className?, hi], ?_, rfl⟩
      rintro n ⟨⟩
      exact hclasses c i.name (hs.sound.classes c i hi).named
  have hcallee : s.callee? m = some ⟨⟨o, g.name, sig.parameters⟩, sig.result⟩ :=
    callee?_eq_some_iff.2 ⟨g, hg, howner, rfl, hsig⟩
  refine ⟨⟨o, g.name, sig.parameters⟩, methodName?_of_callee? hcallee, ⟨hword, hname, ?_⟩, rfl,
    howner, ?_⟩
  · intro T hT
    have hmem : some T ∈ tys.map s.registry.meaning? := by
      rw [hps]
      exact List.mem_map_of_mem hT
    obtain ⟨ty, -, hty⟩ := List.mem_map.1 hmem
    exact Shape.worded hclasses hty
  · rw [hs.sound.linkageName_eq hg hcallee]
    show Except.ok (if (o.isNone && g.isExternal) = true then g.name else _) = _
    rw [hnone]
    rfl

/-! ## Equal linkage names -/

/-- Whether a text is compiled and its method `m`, which is no operator and is defined elsewhere or not
as `foreign` says, has the linkage name `text`. -/
def linksAs (file source : String) (m : MethodId) (foreign : Bool) (text : String) : Bool :=
  match compile file source with
  | .ok (r, p) => (p.methodAt? m).any fun g =>
      !g.isOperator && g.isForeign == foreign && (p.linkageName r m).toOption == some text
  | .error _ => false

theorem exists_of_linksAs {file source text : String} {m : MethodId} {foreign : Bool}
    (h : linksAs file source m foreign text = true) : ∃ r p g, compile file source = .ok (r, p) ∧
      p.methodAt? m = some g ∧ g.isOperator = false ∧ g.isForeign = foreign ∧
      p.linkageName r m = .ok text := by
  unfold linksAs at h
  split at h
  · rename_i r p hcompile
    obtain ⟨g, hg, hcheck⟩ := (Option.any_eq_true _ _).1 h
    simp only [Bool.and_eq_true, Bool.not_eq_true', beq_iff_eq] at hcheck
    obtain ⟨⟨hop, hforeign⟩, hlink⟩ := hcheck
    refine ⟨r, p, g, hcompile, hg, hop, hforeign, ?_⟩
    cases hname : p.linkageName r m with
    | error f => rw [hname] at hlink; cases hlink
    | ok text' =>
      rw [hname] at hlink
      cases hlink
      rfl
  · cases h

/-- **When linkage names are the same.** Two methods, of one text or of two, that do not just keep
their names have the same linkage name if and only if their owners have the same name, they have
the same name, and they take the same types, where taking nothing and taking a single `Void` are
the same. All these names are words. -/
theorem Program.linkageName_eq_iff {file file' source source' : String} {r r' : Registry}
    {p p' : Program} {m m' : MethodId} {g g' : Method} (h : compile file source = .ok (r, p))
    (h' : compile file' source' = .ok (r', p')) (hg : p.methodAt? m = some g)
    (hg' : p'.methodAt? m' = some g') (ho : g.isOperator = false) (ho' : g'.isOperator = false)
    (hf : g.isForeign = false) (hf' : g'.isForeign = false) :
    ∃ n n' text text', p.methodName? r m = some n ∧ p'.methodName? r' m' = some n' ∧
      n.Worded ∧ n'.Worded ∧ p.linkageName r m = .ok text ∧ p'.linkageName r' m' = .ok text' ∧
      (text = text' ↔ n.owner = n'.owner ∧ n.name = n'.name ∧ n.taken = n'.taken) := by
  obtain ⟨n, hn⟩ := exists_linked h hg ho
  obtain ⟨n', hn'⟩ := exists_linked h' hg' ho'
  refine ⟨n, n', n.code, n'.code, hn.named, hn'.named, hn.worded, hn'.worded, ?_, ?_,
    MethodName.code_eq_iff hn.worded hn'.worded⟩
  · rw [hn.linkage, hf]
    rfl
  · rw [hn'.linkage, hf']
    rfl

/-- Two functions of the same name, in two texts: one takes nothing, the other one a `Void`. -/
def Silent.sources : String × String := ("f() do end", "f(nothing: Void) do end")

set_option maxRecDepth 100000 in
theorem Silent.linksAs_sources : linksAs "a.cls" sources.1 ⟨65⟩ false "_M1fv" = true ∧
    linksAs "b.cls" sources.2 ⟨65⟩ false "_M1fv" = true := by
  decide +kernel

theorem Silent.same_linkageName : ∃ r p r' p' n n',
    compile "a.cls" Silent.sources.1 = .ok (r, p) ∧
    compile "b.cls" Silent.sources.2 = .ok (r', p') ∧
    p.methodName? r ⟨65⟩ = some n ∧ p'.methodName? r' ⟨65⟩ = some n' ∧
    p.linkageName r ⟨65⟩ = .ok "_M1fv" ∧ p'.linkageName r' ⟨65⟩ = .ok "_M1fv" ∧
    n.owner = n'.owner ∧ n.name = n'.name ∧ n.taken = n'.taken := by
  obtain ⟨r, p, g, h, hg, ho, hf, hlink⟩ := exists_of_linksAs Silent.linksAs_sources.1
  obtain ⟨r', p', g', h', hg', ho', hf', hlink'⟩ := exists_of_linksAs Silent.linksAs_sources.2
  obtain ⟨n, n', text, text', hn, hn', -, -, htext, htext', hiff⟩ :=
    Program.linkageName_eq_iff h h' hg hg' ho ho' hf hf'
  have hsame : text = text' :=
    (Except.ok.inj (htext.symm.trans hlink)).trans (Except.ok.inj (hlink'.symm.trans htext'))
  exact ⟨r, p, r', p', n, n', h, h', hn, hn', hlink, hlink', hiff.1 hsame⟩

/-- Owners of one name are one. -/
theorem Resolver.Sound.owner_unique {s : Resolver} (hs : s.Sound) {o o' : Option ClassId}
    {n : Option String} (h : s.ownerName? o = some n) (h' : s.ownerName? o' = some n) : o = o' := by
  cases o with
  | none =>
    cases h
    cases o' with
    | none => rfl
    | some c' =>
      obtain ⟨n', -, hn'⟩ := Option.map_eq_some_iff.1 h'
      cases hn'
  | some c =>
    obtain ⟨k, hk, rfl⟩ := Option.map_eq_some_iff.1 h
    cases o' with
    | none => cases h'
    | some c' =>
      obtain ⟨k', hk', heq⟩ := Option.map_eq_some_iff.1 h'
      cases heq
      obtain ⟨i, hi, hin⟩ := Option.map_eq_some_iff.1 hk
      obtain ⟨i', hi', hin'⟩ := Option.map_eq_some_iff.1 hk'
      exact congrArg some (hs.class_unique hi hi' (hin.trans hin'.symm))

/-- A linkage text starts with `_M` and a digit. -/
theorem MethodName.code_head (n : MethodName) :
    ∃ c cs, n.code.toList = '_' :: 'M' :: c :: cs ∧ c.isDigit = true := by
  rw [toList_code]
  cases n.owner with
  | none =>
    obtain ⟨c, cs, hcs, hc⟩ := sized_head n.name (n.taken.flatMap fun T => T.linkage.toList)
    exact ⟨c, cs, congrArg (fun x => '_' :: 'M' :: x) hcs, hc⟩
  | some o =>
    obtain ⟨c, cs, hcs, hc⟩ := sized_head o
      ((sized n.name).toList ++ n.taken.flatMap fun T => T.linkage.toList)
    exact ⟨c, cs, congrArg (fun x => '_' :: 'M' :: x) hcs, hc⟩

/-- A function that is defined elsewhere has no owner. -/
theorem Program.Linked.owner_eq_none {p : Program} {r : Registry} {m : MethodId} {g : Method}
    {n : MethodName} (h : p.Linked r m g n) (hf : g.isForeign = true) : n.owner = none := by
  have hnone : g.owner = none := Option.isNone_iff_eq_none.1 (Bool.and_eq_true_iff.1 hf).1
  have howner := h.owner
  rw [hnone] at howner
  exact (Option.some.inj howner).symm

/-- **Within a program**, two methods have the same linkage name if and only if one of them is a
function that is defined elsewhere, the other one is not, and the name of the first one is
spelled as the linkage name of the other, which starts with `_M` and a digit. -/
theorem Program.linkageName_eq_iff_foreign {file source : String} {r : Registry} {p : Program}
    {m m' : MethodId} {g g' : Method} (h : compile file source = .ok (r, p))
    (hg : p.methodAt? m = some g) (hg' : p.methodAt? m' = some g') (ho : g.isOperator = false)
    (ho' : g'.isOperator = false) (hne : m ≠ m') :
    ∃ n n' text text', p.methodName? r m = some n ∧ p.methodName? r m' = some n' ∧
      p.linkageName r m = .ok text ∧ p.linkageName r m' = .ok text' ∧
      (text = text' ↔ (g.isForeign = true ∧ g'.isForeign = false ∧ g.name = n'.code) ∨
        (g.isForeign = false ∧ g'.isForeign = true ∧ g'.name = n.code)) ∧
      (text = text' → ∃ c cs, text.toList = '_' :: 'M' :: c :: cs ∧ c.isDigit = true) := by
  obtain ⟨n, hn⟩ := exists_linked h hg ho
  obtain ⟨n', hn'⟩ := exists_linked h hg' ho'
  obtain ⟨ts, u, -, -, hresolve⟩ := compile_eq_ok h
  -- Different methods differ in their owners or their names.
  have hdiffer : n.owner = n'.owner → ¬ n.name = n'.name := by
    intro howner hname
    obtain ⟨s, rfl, rfl, hs⟩ := u.finished_of_resolve hresolve
    have hsame : g.owner = g'.owner := hs.sound.owner_unique hn.owner (howner ▸ hn'.owner)
    refine hne (CompilationUnit.method_unique hresolve hg hg' ho ho' hsame ?_)
    rw [← hn.name, ← hn'.name, hname]
  have hiff : (if g.isForeign then g.name else n.code) =
      (if g'.isForeign then g'.name else n'.code) ↔
      (g.isForeign = true ∧ g'.isForeign = false ∧ g.name = n'.code) ∨
        (g.isForeign = false ∧ g'.isForeign = true ∧ g'.name = n.code) := by
    cases hf : g.isForeign with
    | true =>
      cases hf' : g'.isForeign with
      | true =>
        -- Both keep their names, and have no owners.
        have howner : n.owner = n'.owner := (hn.owner_eq_none hf).trans (hn'.owner_eq_none hf').symm
        have hnames := hdiffer howner
        rw [hn.name, hn'.name] at hnames
        simpa using hnames
      | false => simp
    | false =>
      cases hf' : g'.isForeign with
      | true => simp [eq_comm]
      | false =>
        -- Both are coded, and what they are coded from can be read back.
        have hcodes : n.code ≠ n'.code := fun hcode =>
          have hsame := (MethodName.code_eq_iff hn.worded hn'.worded).1 hcode
          hdiffer hsame.1 hsame.2.1
        simpa using hcodes
  refine ⟨n, n', _, _, hn.named, hn'.named, hn.linkage, hn'.linkage, hiff, fun heq => ?_⟩
  rcases hiff.1 heq with ⟨hf, -, hname⟩ | ⟨hf, -, -⟩
  · rw [hf, if_pos rfl, hname]
    exact n'.code_head
  · rw [hf]
    exact n.code_head

/-- A function that is defined elsewhere, and a method that is linked by the name of the function. -/
def Impostor.source : String := "_M1A1fv();\nclass A\n  f() do end\nend\n"

set_option maxRecDepth 100000 in
theorem Impostor.linksAs_source : linksAs "a.cls" source ⟨65⟩ true "_M1A1fv" = true ∧
    linksAs "a.cls" source ⟨66⟩ false "_M1A1fv" = true := by
  decide +kernel

theorem Impostor.spelled_as_code : ∃ r p g n', compile "a.cls" Impostor.source = .ok (r, p) ∧
    p.methodAt? ⟨65⟩ = some g ∧ g.isForeign = true ∧ p.methodName? r ⟨66⟩ = some n' ∧
    p.linkageName r ⟨65⟩ = p.linkageName r ⟨66⟩ ∧ g.name = n'.code := by
  obtain ⟨r, p, g, h, hg, ho, hf, hlink⟩ := exists_of_linksAs Impostor.linksAs_source.1
  obtain ⟨r', p', g', h', hg', ho', hf', hlink'⟩ := exists_of_linksAs Impostor.linksAs_source.2
  cases h.symm.trans h'
  obtain ⟨n, n', text, text', -, hn', htext, htext', hiff, -⟩ :=
    Program.linkageName_eq_iff_foreign h hg hg' ho ho' (by decide)
  have hsame : text = text' :=
    (Except.ok.inj (htext.symm.trans hlink)).trans (Except.ok.inj (hlink'.symm.trans htext'))
  refine ⟨r, p, g, n', h, hg, hf, hn', hlink.trans hlink'.symm, ?_⟩
  rcases hiff.1 hsame with ⟨-, -, hname⟩ | ⟨hnot, -, -⟩
  · exact hname
  · rw [hf] at hnot
    cases hnot

/-- Two functions, of which the first is defined elsewhere. -/
def Forged.source : String := "_M1fv();\nf() do end\n"

set_option maxRecDepth 100000 in
theorem Forged.linksAs_source : linksAs "a.cls" source ⟨65⟩ true "_M1fv" = true ∧
    linksAs "a.cls" source ⟨66⟩ false "_M1fv" = true := by
  decide +kernel

/-- Different methods can have the same linkage name. -/
theorem Forged.linkageName_collides : ∃ r p m m' g g' text,
    compile "a.cls" Forged.source = .ok (r, p) ∧ m ≠ m' ∧
    p.methodAt? m = some g ∧ g.isOperator = false ∧ p.linkageName r m = .ok text ∧
    p.methodAt? m' = some g' ∧ g'.isOperator = false ∧ p.linkageName r m' = .ok text := by
  obtain ⟨r, p, g, h, hg, ho, -, hlink⟩ := exists_of_linksAs Forged.linksAs_source.1
  obtain ⟨r', p', g', h', hg', ho', -, hlink'⟩ := exists_of_linksAs Forged.linksAs_source.2
  cases h.symm.trans h'
  exact ⟨r, p, ⟨65⟩, ⟨66⟩, g, g', "_M1fv", h, by decide, hg, ho, hlink, hg', ho', hlink'⟩

end ClassLang
