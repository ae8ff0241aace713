import ClassLang.Proofs.ClassTables

/-!
# The listing of the methods

The command line lists the methods of a program in the order of their numbers. Methods get their
numbers in three passes: first the operators, then the functions as they are declared, and last the
methods of the classes, which are taken in the order of their names.

* `resolveUnit_lists`: what all passes together enter, and in which order (`Enters`).
* `Program.EntryOf`: the method that belongs to a declaration. There is one (`Enters.exists_entry`)
  and no other (`EntryOf.unique`).
* `IsWord.byteBefore`: words, and so the names of classes, are compared by their bytes.
* `CommandLine.runText_lists`: **every declared method is listed exactly once**, and no operator.
-/

namespace ClassLang

open Resolver Resolve

/-! ## Names of classes along a path -/

namespace Resolver

variable {d : Dialect} {s s' : Resolver} {log : List Event}

/-- A step that announces no class leaves the names of classes as they are. -/
theorem Step.className?_eq {events : List Event} (h : Step d s events s')
    (hno : ∀ n, .ofClass n ∉ announcedIn events) (c : ClassId) :
    s'.registry.className? c = s.registry.className? c := by
  cases h with
  | @type _ n j id h =>
    have hp := n.resolve_program d j s
    rw [h] at hp
    exact hp.2.className? c
  | method hkeep _ => rw [hkeep.registry]
  | ofClass c' n => exact absurd (List.mem_singleton_self _) (hno n)
  | @part k t hk => exact (s.registry.intern_extends k).className? c
  | named hregistry _ _ => rw [hregistry]
  | member h =>
    obtain ⟨e, -, rfl⟩ := Registry.addMember_eq_ok h
    rfl
  | quiet hkeep _ => rw [hkeep.registry]

theorem Path.className?_eq (h : Path d s log s') (hno : ∀ n, .ofClass n ∉ announcedIn log)
    (c : ClassId) : s'.registry.className? c = s.registry.className? c := by
  induction h with
  | done s => rfl
  | next hstep _ ih =>
    simp only [announcedIn_append, List.mem_append, not_or] at hno
    rw [ih fun n => (hno n).2, hstep.className?_eq fun n => (hno n).1]

end Resolver

/-! ## The methods in the order of their numbers -/

theorem Traces.leads {α : Type} {d : Dialect} {m : Resolve α} {s : Resolver} {spans : List Span}
    {Q : α → List Event → Prop} (h : Traces d m s spans Q) :
    Gives m s (fun a s' => ∃ log, Path d s log s' ∧ Q a log) := by
  unfold Traces at h
  unfold Gives Leads
  cases hm : m s with
  | ok a s' =>
    rw [hm] at h
    exact h
  | error f s' => trivial

/-- **The methods of a unit, in the order of their numbers**: the operators, the functions as they
are written, and the methods of the classes, which come in the order of their names. -/
structure CompilationUnit.Enters (u : CompilationUnit) (r : Registry) (p : Program)
    (classes : List (ClassId × ClassDecl)) : Prop where
  roster : p.roster = Native.operatorHeadings ++ u.functions.map (MethodDecl.heading none) ++
    classes.flatMap fun v => v.2.methods.map (MethodDecl.heading (some v.1))
  order : classes.map Prod.snd = byName ClassDecl.name u.classes
  named : ∀ v ∈ classes, r.className? v.1 = some v.2.name

/-- **The tables of a resolved unit** have its declarations and no others. -/
theorem resolveUnit_lists (d : Dialect) (u : CompilationUnit) {s₀ : Resolver}
    (h₀ : s₀ = .initial) : Gives (resolveUnit d u) s₀
      (fun _ s => ∃ classes, u.Enters s.registry s.program classes) := by
  unfold resolveUnit
  have hoperators : Traces d installOperators s₀ u.spans _ := installOperators_traces
  refine (hoperators.leads.and (installOperators_leads h₀)).seq ?_
  rintro _ s₁ ⟨⟨log₁, hpath₁, hlog₁⟩, hinstalled⟩
  have hdecls : ∀ decl ∈ u.decls, decl.spans ⊆ u.spans :=
    fun decl hdecl _ hsp => List.mem_flatMap.2 ⟨decl, hdecl, hsp⟩
  have hdeclare : Traces d (declare d u) s₁ u.spans _ :=
    declareAll_traces u.decls .empty s₁ hdecls
  refine (hdeclare.leads.and (declare_leads hinstalled)).seq ?_
  rintro known s₂ ⟨⟨log₂, hpath₂, hlog₂⟩, hannounced⟩
  have hsign : Traces d (resolveSignatures d known) s₂ u.spans _ :=
    resolveSignatures_traces (fun v hv => u.class_spans (hannounced.class_mem hv))
      fun v hv => u.function_spans (hannounced.function_mem hv)
  refine (hsign.leads.and (resolveSignatures_leads hannounced)).seq ?_
  rintro bodies s₃ ⟨⟨log₃, hpath₃, hlog₃⟩, hsigned⟩
  refine (resolveBodies_traces hsigned.body_spans).leads.post ?_
  rintro _ s₄ ⟨log₄, hpath₄, hlog₄⟩
  have hrest : Path d s₂ (log₃ ++ log₄) s₄ := hpath₃.trans hpath₄
  have hnotes := hlog₃.append hlog₄
  refine ⟨known.classes.values, ?_, hannounced.classes_byName.symm, fun v hv => ?_⟩
  · refine CompilationUnit.roster_of_announced (h₀ ▸ (hpath₁.trans hpath₂).trans hrest) ?_
    rw [((hlog₁.append hlog₂).append hnotes).announced, List.append_nil]
  · -- the later passes announce no class
    have hno : ∀ n, .ofClass n ∉ announcedIn (log₃ ++ log₄) := by
      intro n hn
      rw [hnotes.announced, List.append_nil] at hn
      obtain ⟨w, -, hw⟩ := List.mem_flatMap.1 hn
      obtain ⟨m, -, hm⟩ := List.mem_map.1 hw
      cases hm
    obtain ⟨i, hi, -, hnamed, -⟩ := hannounced.class_of_value hv
    have hname : v.2.name = i.name := (classNamed?_mem hnamed).2
    rw [hrest.className?_eq hno, (hannounced.sound.classes v.1 i hi).named, hname]

/-- What is resolved has been entered in order. -/
theorem CompilationUnit.enters_of_resolve {d : Dialect} {u : CompilationUnit} {r : Registry}
    {p : Program} (h : u.resolve d = .ok (r, p)) : ∃ classes, u.Enters r p classes :=
  yields_of_leads (P := fun r p => ∃ classes, u.Enters r p classes)
    (fun _ h₀ => resolveUnit_lists d u h₀) h

/-! ## Declarations and their entries -/

/-- The name of a method behind that of its class. -/
def MethodDecl.qualifiedName (owner : Option ClassDecl) (m : MethodDecl) : String :=
  match owner with
  | some c => c.name ++ "." ++ m.name
  | none => m.name

/-- The functions of a unit, and after them the methods of some classes, as they are written. -/
def CompilationUnit.listed (u : CompilationUnit) (cs : List ClassDecl) :
    List (Option ClassDecl × MethodDecl) :=
  u.functions.map (fun f => (none, f)) ++ cs.flatMap fun c => c.methods.map fun m => (some c, m)

/-- **The method of a declaration**: it has the name of the declaration, and its owner has the name
of the class. -/
def Program.EntryOf (p : Program) (r : Registry) (owner : Option ClassDecl) (m : MethodDecl)
    (l : MethodId) : Prop :=
  ∃ g n, p.methodAt? l = some g ∧ g.isOperator = false ∧ p.Linked r l g n ∧
    n.owner = owner.map ClassDecl.name ∧ n.name = m.name

section

variable {file source : String} {d : Dialect} {u : CompilationUnit} {r : Registry} {p : Program}
  {classes : List (ClassId × ClassDecl)} {m : MethodDecl} {l l' : MethodId} {g : Method}

/-- A declaration has one method. -/
theorem Program.EntryOf.unique {owner : Option ClassDecl} (hu : u.resolve d = .ok (r, p))
    (h : p.EntryOf r owner m l) (h' : p.EntryOf r owner m l') : l = l' := by
  obtain ⟨g, n, hg, hop, hn, hnowner, hnname⟩ := h
  obtain ⟨g', n', hg', hop', hn', hnowner', hnname'⟩ := h'
  have hname : g.name = g'.name := by rw [← hn.name, ← hn'.name, hnname, hnname']
  have hown := hn.owner
  have hown' := hn'.owner
  rw [hnowner] at hown
  rw [hnowner'] at hown'
  obtain ⟨s, rfl, rfl, hs⟩ := u.finished_of_resolve hu
  have howner : g.owner = g'.owner := hs.sound.owner_unique hown hown'
  exact CompilationUnit.method_unique hu hg hg' hop hop' howner hname

/-- A method with the heading of a declaration is the method of the declaration, and it is called
as the declaration is. -/
theorem CompilationUnit.Enters.entryOf (henters : u.Enters r p classes)
    (h : compile file source = .ok (r, p)) (hg : p.methodAt? l = some g)
    (hop : g.isOperator = false) {v : Option (ClassId × ClassDecl)} (hv : ∀ w ∈ v, w ∈ classes)
    (hheading : g.heading = m.heading (v.map Prod.fst)) :
    p.EntryOf r (v.map Prod.snd) m l ∧
      p.qualifiedName g = .ok (m.qualifiedName (v.map Prod.snd)) := by
  obtain ⟨n, hn⟩ := Program.exists_linked h hg hop
  have hname : g.name = m.name := congrArg Heading.name hheading
  have howner : g.owner = v.map Prod.fst := congrArg Heading.owner hheading
  have hown := hn.owner
  rw [howner] at hown
  cases v with
  | none =>
    have hnone : n.owner = none := (Option.some.inj hown).symm
    refine ⟨⟨g, n, hg, hop, hn, hnone, hn.name.trans hname⟩, ?_⟩
    rw [Program.qualifiedName, howner, hname]
    rfl
  | some w =>
    obtain ⟨ts, u', -, -, hresolve⟩ := compile_eq_ok h
    obtain ⟨s, rfl, rfl, hs⟩ := u'.finished_of_resolve hresolve
    obtain ⟨k, hk, hnk⟩ := Option.map_eq_some_iff.1 hown
    obtain ⟨i, hi, rfl⟩ := Option.map_eq_some_iff.1 hk
    -- the class is named alike in the registry and in the program
    have hclass : i.name = w.2.name := by
      have hnamed := henters.named w (hv w rfl)
      rw [(hs.sound.classes w.1 i hi).named] at hnamed
      exact Option.some.inj hnamed
    refine ⟨⟨g, n, hg, hop, hn, ?_, hn.name.trans hname⟩, ?_⟩
    · rw [← hnk, hclass]
      rfl
    · rw [Program.qualifiedName, howner, hname]
      show (do return (← s.program.getClass w.1).name ++ "." ++ m.name) = _
      rw [Program.getClass_eq hi]
      show Except.ok (i.name ++ "." ++ m.name) = _
      rw [hclass]
      rfl

end

/-! ## The lines -/

/-- **The lines for some methods** are those for what they are told by, if each of them that is no
operator has the line for it. -/
theorem Program.listingOf_eq {α : Type} {p : Program} {r : Registry} {linkage : Bool}
    {key : α → Heading} {line : α → String} {ms : List (Method × Nat)} {es : List α}
    (hkeys : (ms.filter fun q => !q.1.isOperator).map (fun q => q.1.heading) = es.map key)
    (hline : ∀ q ∈ ms, q.1.isOperator = false → ∀ e ∈ es, q.1.heading = key e →
      p.listingLine r linkage ⟨q.2⟩ q.1 = .ok (line e)) :
    p.listingOf r linkage ms = (es.map line, none) := by
  induction ms generalizing es with
  | nil =>
    have hnil : es = [] := by simpa using hkeys.symm
    rw [hnil]
    rfl
  | cons q ms ih =>
    have hrest := fun q' hq' => hline q' (List.mem_cons_of_mem q hq')
    rw [listingOf]
    by_cases hop : q.1.isOperator = true
    · rw [if_pos hop]
      refine ih ?_ hrest
      simpa [List.filter_cons, hop] using hkeys
    · have hop' : q.1.isOperator = false := by simpa using hop
      rw [if_neg hop]
      simp only [List.filter_cons, hop', Bool.not_false, if_true, List.map_cons] at hkeys
      cases es with
      | nil => cases hkeys
      | cons e es =>
        obtain ⟨hhead, htail⟩ := List.cons.inj hkeys
        have hlines := ih htail fun q' hq' hop e' he' =>
          hrest q' hq' hop e' (List.mem_cons_of_mem e he')
        rw [hline q List.mem_cons_self hop' e List.mem_cons_self hhead, hlines]
        rfl

/-! ## Byte order -/

/-- **Byte order**: the first byte that differs decides, and a text comes before those that go on
after it. -/
def ByteBefore (n n' : String) : Prop :=
  List.Lex (fun a b => a.toNat < b.toNat) n.toUTF8.data.toList n'.toUTF8.data.toList

theorem toNat_lt_of_isWordPart {c : Char} (h : isWordPart c = true) : c.toNat < 128 := by
  unfold isWordPart Char.isAlphanum Char.isAlpha Char.isUpper Char.isLower Char.isDigit at h
  unfold Char.toNat
  simp only [Bool.or_eq_true, Bool.and_eq_true, decide_eq_true_eq, UInt32.le_iff_toNat_le,
    ge_iff_le, Char.reduceVal, UInt32.reduceToNat] at h
  rcases h with h | rfl
  · omega
  · decide

theorem IsWord.toNat_lt {n : String} (h : IsWord n) : ∀ c ∈ n.toList, c.toNat < 128 := by
  obtain ⟨c, cs, hn, hstart, hpart⟩ := h
  have hfirst : isWordPart c = true := isWordPart_of_isWordStart hstart
  rw [hn, List.forall_mem_cons]
  exact ⟨toNat_lt_of_isWordPart hfirst, fun x hx => toNat_lt_of_isWordPart (hpart x hx)⟩

/-- A text of small characters has a byte for each of them. -/
theorem bytes_eq {n : String} (h : ∀ c ∈ n.toList, c.toNat < 128) :
    n.toUTF8.data.toList = n.toList.map fun c => c.val.toUInt8 := by
  have hencode : n.toUTF8 = n.toList.utf8Encode := String.utf8Encode_toList.symm
  rw [hencode, List.utf8Encode, List.data_toByteArray, List.toList_toArray]
  generalize n.toList = cs at h
  induction cs with
  | nil => rfl
  | cons c cs ih =>
    rw [List.forall_mem_cons] at h
    have hc : c.utf8Size = 1 := by
      rw [Char.utf8Size_eq_one_iff, UInt32.le_iff_toNat_le]
      exact Nat.le_of_lt_succ h.1
    rw [List.flatMap_cons, String.utf8EncodeChar_eq_singleton hc, ih h.2, List.map_cons]
    rfl

/-- The order of words is byte order. -/
theorem IsWord.byteBefore {n n' : String} (hn : IsWord n) (hn' : IsWord n') (hlt : n < n') :
    ByteBefore n n' := by
  have hlex : List.Lex (· < ·) n.toList n'.toList := String.lt_iff.1 hlt
  have hsmall := hn.toNat_lt
  have hsmall' := hn'.toNat_lt
  rw [ByteBefore, bytes_eq hsmall, bytes_eq hsmall']
  generalize n.toList = cs at hlex hsmall
  generalize n'.toList = cs' at hlex hsmall'
  induction hlex with
  | nil => exact .nil
  | @rel c cs c' cs' hc =>
    have hless : c.val.toNat < c'.val.toNat := hc
    have hc₁ : c.val.toNat < 128 := hsmall c List.mem_cons_self
    have hc₂ : c'.val.toNat < 128 := hsmall' c' List.mem_cons_self
    refine .rel ?_
    rw [UInt32.toNat_toUInt8, UInt32.toNat_toUInt8]
    omega
  | @cons c cs cs' hrest ih =>
    rw [List.forall_mem_cons] at hsmall hsmall'
    exact .cons (ih hsmall.2 hsmall'.2)

/-! ## The listing -/

/-- The entries of a unit whose classes have numbers. -/
def CompilationUnit.numbered (u : CompilationUnit) (classes : List (ClassId × ClassDecl)) :
    List (Option (ClassId × ClassDecl) × MethodDecl) :=
  u.functions.map (fun f => (none, f)) ++
    classes.flatMap fun v => v.2.methods.map fun m => (some v, m)

namespace CompilationUnit

variable {u : CompilationUnit} {r : Registry} {p : Program} {classes : List (ClassId × ClassDecl)}

theorem map_numbered (u : CompilationUnit) (classes : List (ClassId × ClassDecl)) :
    (u.numbered classes).map (fun e => (e.1.map Prod.snd, e.2)) =
      u.listed (classes.map Prod.snd) := by
  simp [numbered, listed, List.map_flatMap, List.flatMap_map, Function.comp_def]

theorem mem_of_numbered {e : Option (ClassId × ClassDecl) × MethodDecl}
    (he : e ∈ u.numbered classes) : ∀ w ∈ e.1, w ∈ classes := by
  unfold numbered at he
  rcases List.mem_append.1 he with hf | hm
  · obtain ⟨f, -, rfl⟩ := List.mem_map.1 hf
    intro w hw
    cases hw
  · obtain ⟨v, hv, hm⟩ := List.mem_flatMap.1 hm
    obtain ⟨m, -, rfl⟩ := List.mem_map.1 hm
    intro w hw
    cases hw
    exact hv

/-- The methods of a program without the operators have the headings of what is declared. -/
theorem Enters.headings (henters : u.Enters r p classes) :
    (p.methods.toList.zipIdx.filter fun q => !q.1.isOperator).map (fun q => q.1.heading) =
      (u.numbered classes).map fun e => e.2.heading (e.1.map Prod.fst) := by
  have hroster : (p.methods.toList.zipIdx.map fun q => q.1.heading) = p.roster := by
    calc (p.methods.toList.zipIdx.map fun q => q.1.heading)
        = (p.methods.toList.zipIdx.map Prod.fst).map Method.heading := by rw [List.map_map]; rfl
      _ = p.roster := by rw [List.zipIdx_map_fst, Program.roster]
  have hnumbered : ((u.numbered classes).map fun e => e.2.heading (e.1.map Prod.fst)) =
      u.functions.map (MethodDecl.heading none) ++
        classes.flatMap fun v => v.2.methods.map (MethodDecl.heading (some v.1)) := by
    simp [numbered, List.map_flatMap, Function.comp_def]
  have hfilter := List.filter_map (f := fun q : Method × Nat => q.1.heading)
    (p := fun a => !a.isOperator) (l := p.methods.toList.zipIdx)
  rw [hnumbered, ← filter_headings, ← henters.roster, ← hroster, hfilter]
  rfl

theorem methodAt?_of_mem {q : Method × Nat} (hq : q ∈ p.methods.toList.zipIdx) :
    p.methodAt? ⟨q.2⟩ = some q.1 := by
  rw [Program.methodAt?, ← Array.getElem?_toList]
  exact List.mem_zipIdx_iff_getElem?.1 hq

/-- What is declared has a method. -/
theorem Enters.exists_entry {file source : String} (henters : u.Enters r p classes)
    (h : compile file source = .ok (r, p)) {e : Option ClassDecl × MethodDecl}
    (he : e ∈ u.listed (classes.map Prod.snd)) : ∃ l, p.EntryOf r e.1 e.2 l := by
  rw [← map_numbered] at he
  obtain ⟨e, hnumbered, rfl⟩ := List.mem_map.1 he
  have hkey : e.2.heading (e.1.map Prod.fst) ∈
      (p.methods.toList.zipIdx.filter fun q => !q.1.isOperator).map fun q => q.1.heading := by
    rw [henters.headings]
    exact List.mem_map.2 ⟨e, hnumbered, rfl⟩
  obtain ⟨q, hq, hheading⟩ := List.mem_map.1 hkey
  obtain ⟨hq, hop⟩ := List.mem_filter.1 hq
  have hop' : q.1.isOperator = false := by simpa using hop
  have hentry := henters.entryOf h (methodAt?_of_mem hq) hop' (mem_of_numbered hnumbered) hheading
  exact ⟨⟨q.2⟩, hentry.1⟩

/-- **The lines of the listing**, in terms of the linkage names of what is declared. -/
theorem Enters.listing {file source : String} (henters : u.Enters r p classes)
    (h : compile file source = .ok (r, p)) (hresolve : u.resolve .standard = .ok (r, p))
    {link : Option ClassDecl × MethodDecl → String}
    (hlink : ∀ e ∈ u.listed (classes.map Prod.snd), ∃ l, p.EntryOf r e.1 e.2 l ∧
      p.linkageName r l = .ok (link e)) (linkage : Bool) :
    p.listing r linkage = ((u.listed (classes.map Prod.snd)).map fun e =>
      if linkage then e.2.qualifiedName e.1 ++ " " ++ link e else e.2.qualifiedName e.1, none) := by
  rw [← map_numbered] at hlink ⊢
  rw [List.map_map]
  refine Program.listingOf_eq henters.headings fun q hq hop e he hheading => ?_
  obtain ⟨hentry, hname⟩ :=
    henters.entryOf h (methodAt?_of_mem hq) hop (mem_of_numbered he) hheading
  obtain ⟨l, hl, htext⟩ := hlink _ (List.mem_map_of_mem he)
  cases hl.unique hresolve hentry
  unfold Program.listingLine
  rw [hname]
  cases linkage with
  | false => rfl
  | true =>
    show (do return e.2.qualifiedName (e.1.map Prod.snd) ++ " " ++ (← p.linkageName r ⟨q.2⟩)) = _
    rw [htext]
    rfl

end CompilationUnit

/-- **Every declared method is listed exactly once.** If a text is compiled, the command line
succeeds and writes one line for each function as it is written and then, class after class in byte
order of their names, one line for each method as it is written there. A line holds the name of the
method, behind that of its class if it has one, and on request the linkage name of the method. There
are no lines for operators. -/
theorem CommandLine.runText_lists {file source : String} {r : Registry} {p : Program}
    (h : compile file source = .ok (r, p)) :
    ∃ ts u cs, Token.ofText file source = .ok ts ∧ CompilationUnit.ofTokens file ts = .ok u ∧
      cs.Perm u.classes ∧ (cs.Pairwise fun c c' => ByteBefore c.name c'.name) ∧
      ∃ link : Option ClassDecl × MethodDecl → String,
        (∀ e ∈ u.listed cs, ∃ l, p.EntryOf r e.1 e.2 l ∧ p.linkageName r l = .ok (link e)) ∧
        ∀ linkage : Bool,
          let lines := (u.listed cs).map fun e =>
            if linkage then e.2.qualifiedName e.1 ++ " " ++ link e else e.2.qualifiedName e.1
          p.listing r linkage = (lines, none) ∧
            CommandLine.runText file source linkage = ⟨0, unlines lines, ""⟩ := by
  obtain ⟨ts, u, hscan, hparse, hresolve⟩ := compile_eq_ok h
  obtain ⟨classes, henters⟩ := CompilationUnit.enters_of_resolve hresolve
  obtain ⟨s, -, -, hs⟩ := u.finished_of_resolve hresolve
  have hnames : (u.classes.map ClassDecl.name).Nodup := hs.wellTyped.declared.classNames
  have hfrom := CompilationUnit.ofTokens_yields file ts
  rw [hparse] at hfrom
  have hword : ∀ c ∈ byName ClassDecl.name u.classes, IsWord c.name := by
    intro c hc
    exact (hfrom.classes c ((mem_byName hnames).1 hc)).1.isWord hscan
  -- every listed method has a linkage name; for others any text will do
  have hall : ∀ e : Option ClassDecl × MethodDecl, ∃ text,
      e ∈ u.listed (classes.map Prod.snd) →
        ∃ l, p.EntryOf r e.1 e.2 l ∧ p.linkageName r l = .ok text := by
    intro e
    by_cases he : e ∈ u.listed (classes.map Prod.snd)
    · obtain ⟨l, hentry⟩ := henters.exists_entry h he
      obtain ⟨g, n, hg, hop, hn, howner, hname⟩ := hentry
      exact ⟨_, fun _ => ⟨l, ⟨g, n, hg, hop, hn, howner, hname⟩, hn.linkage⟩⟩
    · exact ⟨"", fun he' => absurd he' he⟩
  obtain ⟨link, hlink⟩ := Classical.axiomOfChoice hall
  refine ⟨ts, u, classes.map Prod.snd, hscan, hparse, ?_, ?_, link, hlink, fun linkage => ?_⟩
  · rw [henters.order]
    exact byName_perm_self hnames
  · rw [henters.order]
    exact (byName_pairwise hnames).imp_of_mem fun hc hc' hlt =>
      (hword _ hc).byteBefore (hword _ hc') hlt
  · have hlisting := henters.listing h hresolve hlink linkage
    refine ⟨hlisting, ?_⟩
    simp only [runText, h, hlisting]

/-- Functions and classes in turn, the classes against the order of their names. -/
def Bundle.source : String :=
  "class B\n  g(): Integer do return 1; end\n  f() do end\nend\nputs(x: Int8*);\n" ++
    "class A\n  h(b: B) do end\nend\nmain() do end\n"

/-- What is listed with linkage names: the functions, and then the methods of `A` and of `B`. -/
def Bundle.lines : List String :=
  ["puts puts", "main _M4mainv", "A.h _M1A1hC1B", "B.g _M1B1gv", "B.f _M1B1fv"]

set_option maxRecDepth 100000 in
theorem Bundle.runText_true : CommandLine.runText "a.cls" Bundle.source true =
    ⟨0, CommandLine.unlines Bundle.lines, ""⟩ := by
  decide +kernel

theorem Bundle.methods_listed : ∃ (u : CompilationUnit) (cs : List ClassDecl), cs.Perm u.classes ∧
    (cs.Pairwise fun c c' => ByteBefore c.name c'.name) ∧
    CommandLine.runText "a.cls" Bundle.source false =
      ⟨0, CommandLine.unlines ((u.listed cs).map fun e => e.2.qualifiedName e.1), ""⟩ ∧
    CommandLine.runText "a.cls" Bundle.source true =
      ⟨0, CommandLine.unlines Bundle.lines, ""⟩ := by
  cases hcompile : compile "a.cls" Bundle.source with
  | error halt =>
    have hok : (compile "a.cls" Bundle.source).isOk = true := by decide +kernel
    rw [hcompile] at hok
    cases hok
  | ok x =>
    obtain ⟨ts, u, cs, -, -, hperm, horder, link, -, hrun⟩ := CommandLine.runText_lists hcompile
    exact ⟨u, cs, hperm, horder, (hrun false).2, Bundle.runText_true⟩

end ClassLang
