import ClassLang.Proofs.BodyIndependence
import ClassLang.Proofs.LinkageNames
import ClassLang.Proofs.ScopeMap

/-!
# The tables of a class agree

What a class has is entered in several places: in its own tables of fields and methods, in its scope,
and as members of its type. They are filled by separate steps and read by different ways of access.

* `Staged.field_order`: the fields in the order of the source. That they are numbered and typed as they
  are declared is known of the class as it reads without numbers; that they are those of the table is
  known because each variable is bound in one scope only.
* `Staged.declared`: what is entered for a declared method.
* `Staged.classAgrees`: all tables of a class agree with each other and with the declaration.
-/

namespace ClassLang

open Resolver Resolve

namespace Program

/-- **A declared method has been entered once**, as the method `l` of its owner: as a user's method
and with a body if one is written, and otherwise as an external one without. -/
structure DeclaredOnce (p : Program) (owner : Option ClassId) (m : MethodDecl) (l : MethodId) :
    Prop where
  entered : ∃ g, p.methodAt? l = some g ∧ g.owner = owner ∧ g.name = m.name ∧
    (g.kind = .user ↔ m.body.isSome = true) ∧ g.body.isSome = m.body.isSome
  once : ∀ l' g', p.methodAt? l' = some g' → g'.isOperator = false → g'.owner = owner →
    g'.name = m.name → l' = l

/-- **The tables of a class agree**, with each other and with the declaration. -/
structure ClassAgrees (p : Program) (r : Registry) (d : Dialect) (u : CompilationUnit) (c : ClassId)
    (i : ClassInfo) (decl : ClassDecl) : Prop where
  named : u.classNamed? i.name = some decl
  /-- The scope of the class has the methods and the fields of the class. -/
  scope : ∃ sc, p.scopeAt? i.scope = some sc ∧ (∀ n : String, sc.methods[n]? = i.methods[n]?) ∧
    ∀ n : String, sc.vars[n]? = i.fields[n]?
  /-- So has its type, with one candidate for each name of a method and none for others. -/
  type : ∃ e, r.entry? i.ty = some e ∧ ∀ n : String, e.candidates n = (i.methods[n]?).toList
  /-- What is under a name is a method of the class with this name, which is declared. -/
  members : ∀ (n : String) l, i.methods[n]? = some l → (∃ m ∈ decl.methods, m.name = n) ∧
    ∃ g, p.methodAt? l = some g ∧ g.owner = some c ∧ g.name = n
  /-- The fields are listed in the order of the source, each with its number, name and type. -/
  order : i.fieldOrder.length = decl.fields.length ∧ ∀ k f, decl.fields[k]? = some f →
    ∃ v x T, i.fieldOrder[k]? = some v ∧ p.varAt? v = some x ∧ x.kind = .field c k ∧
      x.name = f.name ∧ f.type.denoted? d u = some T ∧ r.meaning? x.ty = some T ∧
      i.fields[f.name]? = some v
  /-- There are no other fields. -/
  fields : ∀ (n : String) v, i.fields[n]? = some v → v ∈ i.fieldOrder
  methods : ∀ m ∈ decl.methods, ∃ l, i.methods[m.name]? = some l ∧ p.DeclaredOnce (some c) m l

end Program

/-! ## Declarations without numbers -/

/-- What is done in turn is done for each thing after those before it. -/
theorem inTurn_getElem? {α β ε : Type} {f : List α → α → Except ε β} {before l : List α}
    {bs : List β} (h : inTurn f before l = .ok bs) : bs.length = l.length ∧
      ∀ k a, l[k]? = some a → ∃ b, f (before ++ l.take k) a = .ok b ∧ bs[k]? = some b := by
  induction l generalizing before bs with
  | nil =>
    cases h
    exact ⟨rfl, by simp⟩
  | cons a l ih =>
    rw [inTurn] at h
    obtain ⟨b, hb, h⟩ := exists_of_bind_eq_ok h
    obtain ⟨cs, hcs, ⟨⟩⟩ := exists_of_bind_eq_ok h
    obtain ⟨hlen, hrest⟩ := ih hcs
    refine ⟨congrArg (· + 1) hlen, fun k a' ha' => ?_⟩
    cases k with
    | zero =>
      cases ha'
      exact ⟨b, by rw [List.take_zero, List.append_nil]; exact hb, rfl⟩
    | succ k =>
      obtain ⟨b', hb', hk⟩ := hrest k a' ha'
      rw [List.append_assoc, List.singleton_append] at hb'
      exact ⟨b', hb', hk⟩

theorem FieldDecl.elaborate_facts {I : Interface} {owner : String} {before : List FieldDecl}
    {f : FieldDecl} {y : NamedVariable} (h : f.elaborate I owner before = .ok y) :
    y.name = f.name ∧ y.role = .field owner before.length ∧ f.type.elaborate I = .ok y.ty := by
  unfold elaborate at h
  split at h
  · cases h
  · obtain ⟨T, hT, ⟨⟩⟩ := exists_of_bind_eq_ok h
    exact ⟨rfl, rfl, hT⟩

/-- The fields of a class without numbers. -/
theorem ClassDecl.elaborate_fields {I : Interface} {decl : ClassDecl} {N : NamedClass}
    (h : decl.elaborate I = .ok N) : N.name = decl.name ∧ N.fields.length = decl.fields.length ∧
      ∀ (k : Nat) (f : FieldDecl), decl.fields[k]? = some f → ∃ y, N.fields[k]? = some y ∧
        y.name = f.name ∧ y.role = .field decl.name k ∧ f.type.elaborate I = .ok y.ty := by
  obtain ⟨ys, hys, h⟩ := exists_of_bind_eq_ok h
  obtain ⟨ms, -, ⟨⟩⟩ := exists_of_bind_eq_ok h
  obtain ⟨hlen, hat⟩ := inTurn_getElem? hys
  refine ⟨rfl, hlen, fun k f hf => ?_⟩
  obtain ⟨y, hy, hk⟩ := hat k f hf
  obtain ⟨hname, hrole, htype⟩ := FieldDecl.elaborate_facts hy
  -- a field is numbered by how many are before it
  have hlt := (List.getElem?_eq_some_iff.1 hf).1
  rw [List.nil_append, List.length_take, Nat.min_eq_left (Nat.le_of_lt hlt)] at hrole
  exact ⟨y, hk, hname, hrole, htype⟩

namespace Resolver

variable {s s₁ : Resolver} {d : Dialect} {u : CompilationUnit} {c : ClassId} {i : ClassInfo}
  {decl : ClassDecl} {bodies : List (MethodId × MethodDecl)} {classes : List NamedClass}
  {Ns : List NamedMethod} {m : MethodDecl} {l : MethodId} {g : Method}

/-- **A class reads as its declaration is elaborated.** -/
theorem Staged.class_view (h : Staged s s₁ d u bodies classes Ns)
    (hi : s₁.program.classAt? c = some i) (hdecl : u.classNamed? i.name = some decl) :
    ∃ N, decl.elaborate (u.interface d) = .ok N ∧ s₁.class? c = some N := by
  have hs := h.laid.read.bodied.sound
  obtain ⟨hmem, hname⟩ := classNamed?_mem hdecl
  obtain ⟨Cs, hCs, hall⟩ := exists_of_bind_eq_ok h.elaborated
  obtain ⟨_, -, ⟨⟩⟩ := exists_of_bind_eq_ok hall
  have hCs' := exceptMapM_eq_ok_iff.1 hCs
  -- the declaration is elaborated to one of the classes
  have helaborate := List.mem_map_of_mem (f := fun c : ClassDecl => c.elaborate (u.interface d))
    ((mem_byName h.signed.declared.classNames).2 hmem)
  rw [hCs'] at helaborate
  obtain ⟨N, hN, heq⟩ := List.mem_map.1 helaborate
  -- which one of the program reads as
  have hview : some N ∈ s.program.classNames.values.map s.class? := by
    rw [h.readied.classes]
    exact List.mem_map_of_mem hN
  obtain ⟨c', -, hc'⟩ := List.mem_map.1 hview
  have hc₁ := h.laid.read.kept.class? h.signed.sound hs hc'
  refine ⟨N, heq.symm, ?_⟩
  obtain ⟨i', hi', hn, -⟩ := class?_eq_some_iff.1 hc₁
  have hNname := (ClassDecl.elaborate_fields heq.symm).1
  rw [hs.class_unique hi hi' (by rw [hn, hNname, hname])]
  exact hc₁

/-- A variable of a class is in the table of its fields. -/
theorem Staged.field_of_kind (h : Staged s s₁ d u bodies classes Ns)
    (hi : s₁.program.classAt? c = some i) {v : VariableId} {x : Variable} {k : Nat}
    (hx : s₁.program.varAt? v = some x) (hk : x.kind = .field c k) : i.fields[x.name]? = some v := by
  have hs := h.laid.read.bodied.sound
  rcases h.laid.placed.bound v x hx with hop | ⟨j, sc, hsc, hv⟩
  · obtain ⟨y, index, l, g, hy, hargument, -⟩ := hop
    rw [hx] at hy
    cases hy
    rw [hk] at hargument
    cases hargument
  · -- only the scope of its class binds a field
    have hok := hs.scopes j sc hsc
    obtain ⟨y, hy, hbinds⟩ := hok.var x.name v hv
    rw [hx] at hy
    cases hy
    rw [hk] at hbinds
    cases hkind : sc.kind with
    | global =>
      rw [hkind] at hbinds
      cases hbinds
    | block =>
      rw [hkind] at hbinds
      exact absurd rfl (hbinds c k)
    | ofClass c' =>
      rw [hkind] at hbinds
      obtain ⟨index, heq⟩ := hbinds
      cases heq
      obtain ⟨-, i', hi', rfl⟩ := hok.ofClass c hkind
      rw [hi] at hi'
      cases hi'
      obtain ⟨decl, -, hholds⟩ := h.laid.read.bodied.represents.classes c i hi
      rw [← hholds.scopeVars sc hsc]
      exact hv

/-- **The fields of a class in the order of the source.** -/
theorem Staged.field_order (h : Staged s s₁ d u bodies classes Ns)
    (hi : s₁.program.classAt? c = some i) (hdecl : u.classNamed? i.name = some decl) :
    i.fieldOrder.length = decl.fields.length ∧ ∀ k f, decl.fields[k]? = some f →
      ∃ v x T, i.fieldOrder[k]? = some v ∧ s₁.program.varAt? v = some x ∧ x.kind = .field c k ∧
        x.name = f.name ∧ f.type.denoted? d u = some T ∧ s₁.registry.meaning? x.ty = some T ∧
        i.fields[f.name]? = some v := by
  have hs := h.laid.read.bodied.sound
  obtain ⟨N, hN, hview⟩ := h.class_view hi hdecl
  obtain ⟨i', hi', -, -, hfields⟩ := class?_eq_some_iff.1 hview
  rw [hi] at hi'
  cases hi'
  obtain ⟨-, hlen, hat⟩ := ClassDecl.elaborate_fields hN
  refine ⟨?_, fun k f hf => ?_⟩
  · have hcount := congrArg List.length hfields
    rw [List.length_map, List.length_map] at hcount
    rw [hcount, hlen]
  · obtain ⟨y, hy, hname, hrole, htype⟩ := hat k f hf
    have hnamed := congrArg (fun l => l[k]?) hfields
    simp only [List.getElem?_map, hy, Option.map_some] at hnamed
    obtain ⟨v, hv, hvar⟩ := Option.map_eq_some_iff.1 hnamed
    obtain ⟨x, hx, hxname, hxrole, hxty, -⟩ := namedVar?_eq_some_iff.1 hvar
    have hkind : x.kind = .field c k := by
      rw [hrole] at hxrole
      cases hxk : x.kind with
      | field c' k' =>
        rw [hxk] at hxrole
        obtain ⟨n, hn, heq⟩ := Option.map_eq_some_iff.1 hxrole
        cases heq
        -- the class of this name is `c`
        obtain ⟨i', hi', hi'name⟩ := Option.map_eq_some_iff.1 hn
        rw [hs.class_unique hi hi' (by rw [hi'name]; exact (classNamed?_mem hdecl).2.symm)]
      | localVar | argument index | receiver => rw [hxk] at hxrole; cases hxrole
    have hfield := h.field_of_kind hi hx hkind
    rw [hxname, hname] at hfield
    exact ⟨v, x, y.ty, hv, hx, hkind, hxname.trans hname, TypeName.denoted?_of_elaborate htype, hxty,
      hfield⟩

/-- The table has no other fields. -/
theorem Staged.field_mem (h : Staged s s₁ d u bodies classes Ns)
    (hi : s₁.program.classAt? c = some i) (hdecl : u.classNamed? i.name = some decl) {n : String}
    {v : VariableId} (hv : i.fields[n]? = some v) : v ∈ i.fieldOrder := by
  have hs := h.laid.read.bodied.sound
  obtain ⟨decl', hdecl', hholds⟩ := h.laid.read.bodied.represents.classes c i hi
  rw [hdecl] at hdecl'
  cases hdecl'
  -- under the name stands a declared field
  have hfields := hholds.fields n
  obtain ⟨x, -, hx, -⟩ := (hs.classes c i hi).field n v hv
  obtain ⟨T, hT, -⟩ := hs.tyOf?_isSome hx
  rw [hv, Option.bind_some, hT] at hfields
  obtain ⟨f, hf, -⟩ := Option.bind_eq_some_iff.1 hfields.symm
  have hname : f.name = n := by simpa using List.find?_some hf
  obtain ⟨k, hk⟩ := List.mem_iff_getElem?.1 (List.mem_of_find?_eq_some hf)
  obtain ⟨w, -, -, hw, -, -, -, -, -, hfield⟩ := (h.field_order hi hdecl).2 k f hk
  rw [hname, hv] at hfield
  cases hfield
  exact List.mem_of_getElem? hw

/-! ## Methods -/

theorem Presents.kind_iff {j : ScopeId} {N : NamedMethod} {I : Interface} {owner : Option String}
    (h : s.Presents m l g j N) (hN : m.elaborateSignature I owner = .ok N)
    (hop : g.isOperator = false) : g.kind = .user ↔ m.body.isSome = true := by
  have hexternal : m.body.isSome = !g.isExternal := by
    rw [h.external]
    obtain ⟨ys, -, hN⟩ := exists_of_bind_eq_ok hN
    obtain ⟨T, -, ⟨⟩⟩ := exists_of_bind_eq_ok hN
    cases m.body <;> rfl
  rw [hexternal]
  unfold Method.isExternal
  cases hk : g.kind with
  | user => simp
  | external => simp
  | operator symbol operand =>
    rw [Method.isOperator, hk] at hop
    cases hop

/-- What gets a body is no operator: operators have no scopes. -/
theorem Staged.isOperator_of_mem (h : Staged s s₁ d u bodies classes Ns) {b : MethodId × MethodDecl}
    (hb : b ∈ bodies) (hg : s₁.program.methodAt? b.1 = some g) : g.isOperator = false := by
  rcases h.method_cases hg with ⟨hop, -⟩ | ⟨-, hnone, -⟩
  · exact hop
  · obtain ⟨owner, g₀, j, -, hr⟩ := h.signed.ready b hb
    obtain ⟨-, body, hbody, -⟩ := h.laid.read.bodied.done b hb owner g₀ j hr
    rw [hg] at hbody
    cases hbody
    exact absurd (hr.scope.symm.trans hnone) (Option.some_ne_none j)

/-- **What is entered for a declared method.** -/
theorem Staged.declared (h : Staged s s₁ d u bodies classes Ns) {owner : Option ClassDecl}
    (hm : u.Declares owner m) : ∃ l g, s₁.program.methodAt? l = some g ∧
      s₁.Owns u g.owner owner ∧ g.isOperator = false ∧ g.name = m.name ∧
      (g.kind = .user ↔ m.body.isSome = true) ∧ g.body.isSome = m.body.isSome := by
  obtain ⟨l, hl, g, j, hr⟩ := h.signed.all owner m hm
  obtain ⟨-, body, hbody, hsome⟩ := h.laid.read.bodied.done (l, m) hl owner g j hr
  obtain ⟨g', j', N, hN, hp⟩ := h.readied.readable (l, m) hl
  have hg : g' = g := Option.some.inj (hp.method.symm.trans hr.method)
  subst hg
  have hop := h.isOperator_of_mem hl hbody
  exact ⟨l, _, hbody, hr.owned.mono h.laid.read.bodied.grows, hop, hr.name, hp.kind_iff hN hop, hsome⟩

theorem Staged.tabled (h : Staged s s₁ d u bodies classes Ns) : s₁.Tabled :=
  (Tabled.mk h.readied.members h.readied.functions).mono h.laid.read.kept h.signed.sound

/-- The scope of a class has the methods and the fields of the class. -/
theorem Staged.class_scope (h : Staged s s₁ d u bodies classes Ns)
    (hi : s₁.program.classAt? c = some i) : ∃ sc, s₁.program.scopeAt? i.scope = some sc ∧
      (∀ n : String, sc.methods[n]? = i.methods[n]?) ∧ ∀ n : String, sc.vars[n]? = i.fields[n]? := by
  obtain ⟨decl, -, hholds⟩ := h.laid.read.bodied.represents.classes c i hi
  obtain ⟨sc, hsc, -⟩ := h.laid.read.bodied.sound.class_scope hi
  exact ⟨sc, hsc, h.tabled.members c i sc hi hsc, hholds.scopeVars sc hsc⟩

/-- The type of a class has the methods of the class as members. -/
theorem Staged.candidates (h : Staged s s₁ d u bodies classes Ns)
    (hi : s₁.program.classAt? c = some i) : ∃ e, s₁.registry.entry? i.ty = some e ∧
      ∀ n : String, e.candidates n = (i.methods[n]?).toList := by
  obtain ⟨decl, -, hholds⟩ := h.laid.read.bodied.represents.classes c i hi
  obtain ⟨sc, hsc, hmethods, -⟩ := h.class_scope hi
  obtain ⟨e, he, -⟩ := (h.laid.read.bodied.sound.classes c i hi).entry
  refine ⟨e, he, fun n => ?_⟩
  rw [← hmethods n]
  exact hholds.members sc e hsc he n

/-- Under the name of a declared method the class has one. -/
theorem Staged.method_listed (h : Staged s s₁ d u bodies classes Ns)
    (hi : s₁.program.classAt? c = some i) (hdecl : u.classNamed? i.name = some decl) (n : String) :
    (i.methods[n]?).isSome = true ↔ ∃ m ∈ decl.methods, m.name = n := by
  have hs := h.laid.read.bodied.sound
  obtain ⟨decl', hdecl', hholds⟩ := h.laid.read.bodied.represents.classes c i hi
  rw [hdecl] at hdecl'
  cases hdecl'
  obtain ⟨sc, hsc, hsame, -⟩ := h.class_scope hi
  have hmethods := hholds.methods sc hsc n
  rw [hsame n] at hmethods
  constructor
  · intro hsome
    -- what the table has is a method with a signature, so it was declared
    obtain ⟨l, hl⟩ := Option.isSome_iff_exists.1 hsome
    obtain ⟨g, hg, -⟩ := (hs.classes c i hi).method n l hl
    obtain ⟨sig, -, hsig, -⟩ := hs.signatureOf?_isSome hg
    rw [hl, Option.bind_some, hsig] at hmethods
    obtain ⟨m, hm, -⟩ := Option.bind_eq_some_iff.1 hmethods.symm
    exact ⟨m, List.mem_of_find?_eq_some hm, by simpa using List.find?_some hm⟩
  · rintro ⟨m, hm, rfl⟩
    obtain ⟨m', hm'⟩ : ∃ m', (decl.methods.find? fun m' => m'.name = m.name) = some m' := by
      rw [← Option.isSome_iff_exists, List.find?_isSome]
      exact ⟨m, hm, by simp⟩
    obtain ⟨sig, hsig⟩ := Option.isSome_iff_exists.1
      (hholds.signatures m' (List.mem_of_find?_eq_some hm'))
    rw [hm', Option.bind_some, hsig] at hmethods
    obtain ⟨l, hl, -⟩ := Option.bind_eq_some_iff.1 hmethods
    rw [hl]
    rfl

/-- A method of a class is the one under its name. -/
theorem Staged.method_under_name (h : Staged s s₁ d u bodies classes Ns)
    (hi : s₁.program.classAt? c = some i) {n : String} (hl : i.methods[n]? = some l) :
    ∃ g, s₁.program.methodAt? l = some g ∧ g.owner = some c ∧ g.name = n := by
  have hs := h.laid.read.bodied.sound
  obtain ⟨g, hg, howner⟩ := (hs.classes c i hi).method n l hl
  refine ⟨g, hg, howner, ?_⟩
  -- the method is also a member of the type, and those are listed by their names
  obtain ⟨e, he, hcandidates⟩ := h.candidates hi
  have hmem : l ∈ e.candidates n := by
    rw [hcandidates, hl]
    exact List.mem_singleton_self l
  obtain ⟨g', hg', hname, -⟩ := hs.lists_of_candidate he hmem
  rw [hg] at hg'
  cases hg'
  exact hname

theorem Sound.isOperator_of_owner (hs : s.Sound) (hg : s.program.methodAt? l = some g)
    (ho : g.owner = some c) : g.isOperator = false := by
  unfold Method.isOperator
  cases hk : g.kind with
  | user => rfl
  | external => rfl
  | operator symbol ty =>
    obtain ⟨-, hnone⟩ := (hs.methods l g hg).operand symbol ty hk
    rw [ho] at hnone
    cases hnone

/-- A declaration has one owner. -/
theorem Owns.owner_unique (hs : s.Sound) {o o' : Option ClassId} {owner : Option ClassDecl}
    (h : s.Owns u o owner) (h' : s.Owns u o' owner) : o = o' := by
  cases owner with
  | none =>
    cases o with
    | some c => cases h
    | none => cases o' with
      | some c => cases h'
      | none => rfl
  | some decl =>
    cases o with
    | none => cases h
    | some c => cases o' with
      | none => cases h'
      | some c' =>
        obtain ⟨i, hi, hdecl⟩ := h
        obtain ⟨i', hi', hdecl'⟩ := h'
        rw [hs.class_unique hi hi' ((classNamed?_mem hdecl).2.symm.trans (classNamed?_mem hdecl').2)]

/-- A method with the owner and the name of a declaration is what has been entered for it. -/
theorem Staged.declaredOnce (h : Staged s s₁ d u bodies classes Ns)
    (hu : u.resolve d = .ok (s₁.registry, s₁.program)) {owner : Option ClassDecl}
    (hm : u.Declares owner m) {o : Option ClassId} (ho : s₁.Owns u o owner)
    (hg : s₁.program.methodAt? l = some g) (howner : g.owner = o) (hop : g.isOperator = false)
    (hname : g.name = m.name) : s₁.program.DeclaredOnce o m l := by
  obtain ⟨l', g', hg', howns, hop', hname', hkind, hbody⟩ := h.declared hm
  have howner' : g'.owner = o := howns.owner_unique h.laid.read.bodied.sound ho
  -- no two methods that are no operators share both owner and name
  have hsame : l' = l := CompilationUnit.method_unique hu hg' hg hop' hop
    (howner'.trans howner.symm) (hname'.trans hname.symm)
  subst hsame
  refine ⟨⟨g', hg', howner', hname', hkind, hbody⟩, fun k gk hgk hopk hownk hnamek => ?_⟩
  exact CompilationUnit.method_unique hu hgk hg hopk hop (hownk.trans howner.symm)
    (hnamek.trans hname.symm)

/-- **All tables of a class agree.** -/
theorem Staged.classAgrees (h : Staged s s₁ d u bodies classes Ns)
    (hu : u.resolve d = .ok (s₁.registry, s₁.program)) (hi : s₁.program.classAt? c = some i) :
    ∃ decl, s₁.program.ClassAgrees s₁.registry d u c i decl := by
  have hs := h.laid.read.bodied.sound
  obtain ⟨decl, hdecl, -⟩ := h.laid.read.bodied.represents.classes c i hi
  have hmem := (classNamed?_mem hdecl).1
  refine ⟨decl, hdecl, h.class_scope hi, h.candidates hi, fun n l hl => ⟨?_, ?_⟩,
    h.field_order hi hdecl, fun n v hv => h.field_mem hi hdecl hv, fun m hm => ?_⟩
  · exact (h.method_listed hi hdecl n).1 (by rw [hl]; rfl)
  · exact h.method_under_name hi hl
  · obtain ⟨l, hl⟩ := Option.isSome_iff_exists.1 ((h.method_listed hi hdecl m.name).2 ⟨m, hm, rfl⟩)
    obtain ⟨g, hg, howner, hgname⟩ := h.method_under_name hi hl
    have hdeclares : u.Declares (some decl) m := ⟨hmem, hm⟩
    have howns : s₁.Owns u (some c) (some decl) := ⟨i, hi, hdecl⟩
    exact ⟨l, hl, h.declaredOnce hu hdeclares howns hg howner (hs.isOperator_of_owner hg howner) hgname⟩

/-- A declared class has been entered. -/
theorem Staged.class_entered (h : Staged s s₁ d u bodies classes Ns) (hdecl : decl ∈ u.classes) :
    ∃ c i, s₁.program.classAt? c = some i ∧ u.classNamed? i.name = some decl := by
  have hs := h.laid.read.bodied.sound
  obtain ⟨global, hglobal⟩ := hs.global
  have hnamed : u.classNamed? decl.name = some decl :=
    find?_of_nodup h.signed.declared.classNames hdecl
  -- its name stands for its type in the global scope
  have htype := h.laid.read.bodied.represents.types global hglobal decl.name
  rw [hnamed, Option.map_some] at htype
  obtain ⟨ty, -, hty⟩ := Option.bind_eq_some_iff.1 htype
  obtain ⟨c, i, -, hi, hname, -⟩ := hs.class_of_meaning? hty
  exact ⟨c, i, hi, by rw [hname]; exact hnamed⟩

/-- A declared function has been entered once, under its name. -/
theorem Staged.functionAgrees (h : Staged s s₁ d u bodies classes Ns)
    (hu : u.resolve d = .ok (s₁.registry, s₁.program)) (hm : m ∈ u.functions) :
    ∃ l, s₁.program.functions[m.name]? = some l ∧ s₁.program.DeclaredOnce none m l := by
  have hs := h.laid.read.bodied.sound
  obtain ⟨global, hglobal⟩ := hs.global
  have hsame := h.tabled.functions global hglobal m.name
  -- the name finds a function with a signature
  obtain ⟨m', hm'⟩ : ∃ m', u.functionNamed? m.name = some m' := by
    rw [← Option.isSome_iff_exists]
    exact List.find?_isSome.2 ⟨m, hm, by simp⟩
  obtain ⟨sig, hsig⟩ := Option.isSome_iff_exists.1
    (h.readied.published.signatures m' (List.mem_of_find?_eq_some hm'))
  have hfunctions := h.laid.read.bodied.represents.functions global hglobal m.name
  rw [hm', Option.bind_some, hsig] at hfunctions
  obtain ⟨l, hl, -⟩ := Option.bind_eq_some_iff.1 hfunctions
  obtain ⟨g, hg, howner⟩ := hs.owner_of_global hglobal hl
  have hgname := (h.readied.published.mono h.laid.read.kept h.signed.sound hs).functionNames global
    hglobal m.name l g hl hg
  rw [hsame] at hl
  -- what is listed as a function waits for a body, so it is no operator
  have hbodies : l ∈ bodies.map Prod.fst := by
    rw [← h.readied.declared, ← h.laid.read.kept.declared]
    exact List.mem_append_right _ (mem_values.2 ⟨m.name, hl⟩)
  have hop : g.isOperator = false := by
    obtain ⟨b, hb, rfl⟩ := List.mem_map.1 hbodies
    exact h.isOperator_of_mem hb hg
  have hdeclares : u.Declares none m := hm
  have howns : s₁.Owns u none none := trivial
  exact ⟨l, hl, h.declaredOnce hu hdeclares howns hg howner hop hgname⟩

end Resolver

end ClassLang
