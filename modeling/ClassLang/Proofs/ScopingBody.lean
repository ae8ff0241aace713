import ClassLang.Proofs.ScopingExpr

/-!
# What a name finds inside a body

The scopes of a program are kept in one table, which all bodies share and in which names are bound as
statements are resolved. What a name finds there is nevertheless what an environment says that is
passed along the text.

* `Inside`: the scope `j` stands in blocks that bind exactly `Δ`, and the members around it are `M`.
* `Inside.lexical`: what a name finds from such a scope.
-/

namespace ClassLang

namespace Resolver

variable {s s' s'' : Resolver} {x : Context} {g : Method} {this : Option TypeId} {j p : ScopeId}
  {B : Blocks} {M : Members} {Δ : List Locals} {o : Option ClassId} {n : String} {v : VariableId}

/-- The scopes of classes and the global scope bind the methods that the program lists. -/
structure Tabled (s : Resolver) : Prop where
  members : ∀ c i sc, s.program.classAt? c = some i → s.program.scopeAt? i.scope = some sc →
    ∀ n : String, sc.methods[n]? = i.methods[n]?
  functions : ∀ sc, s.program.scopeAt? ScopeTree.globalId = some sc →
    ∀ n : String, sc.methods[n]? = s.program.functions[n]?

/-- A variable that a name can stand for by itself: neither a field nor the receiver. -/
def Ordinary (s : Resolver) (v : VariableId) : Prop :=
  ∃ y, s.program.varAt? v = some y ∧ (y.kind = .localVar ∨ ∃ i, y.kind = .argument i)

/-- All that blocks bind stands for itself, apart from the receiver. -/
def Usable (s : Resolver) (Δ : List Locals) : Prop :=
  ∀ names ∈ Δ, ∀ n v, (n, v) ∈ names → n ≠ "this" → s.Ordinary v

/-- **Inside a body**: the scope `j` stands in blocks that bind `Δ`, and `M` are the members around
it. -/
structure Inside (s : Resolver) (x : Context) (g : Method) (this : Option TypeId) (j : ScopeId)
    (B : Blocks) (M : Members) (Δ : List Locals) : Prop where
  setting : s.Setting x g this j B
  tabled : s.Tabled
  nested : s.Nested g.owner j Δ
  usable : s.Usable Δ
  members : s.program.members g.owner = M

/-! ## What stays -/

theorem Extends.members (hx : s.Extends s') (o : Option ClassId) :
    s'.program.members o = s.program.members o := by
  have hclass : o.bind s'.program.classAt? = o.bind s.program.classAt? := by
    cases o with
    | none => rfl
    | some c => exact hx.classAt?_eq c
  unfold Program.members
  rw [hclass, hx.tables.2]

theorem Tabled.mono (h : s.Tabled) (hx : s.Extends s') (hs : s.Sound) : s'.Tabled where
  members c i sc hi hsc n := by
    rw [hx.classAt?_eq] at hi
    obtain ⟨sc₀, hsc₀, hk, -⟩ := hs.class_scope hi
    obtain ⟨sc', hsc', -, hsame⟩ := hx.scopes _ sc₀ hsc₀
    rw [hsc] at hsc'
    cases hsc'
    rw [hsame (by rw [hk]; nofun)]
    exact h.members c i sc₀ hi hsc₀ n
  functions sc hsc n := by
    obtain ⟨sc₀, hsc₀⟩ := hs.global
    obtain ⟨sc', hsc', -, hsame⟩ := hx.scopes _ sc₀ hsc₀
    rw [hsc] at hsc'
    cases hsc'
    rw [hsame (by rw [((hs.scopes _ sc₀ hsc₀).root).2 rfl]; nofun), hx.tables.2]
    exact h.functions sc₀ hsc₀ n

theorem Ordinary.mono (h : s.Ordinary v) (hg : s.Grows s') : s'.Ordinary v := by
  obtain ⟨y, hy, hk⟩ := h
  exact ⟨y, hg.vars v y hy, hk⟩

theorem Usable.mono (h : s.Usable Δ) (hg : s.Grows s') : s'.Usable Δ :=
  fun names hnames n v hv hn => (h names hnames n v hv hn).mono hg

/-- Inside a body after something that binds no names. -/
theorem Inside.frame (h : s.Inside x g this j B M Δ) (hf : Frame s s' none none none)
    (hs' : s'.Sound) : s'.Inside x g this j B M Δ where
  setting := h.setting.frame hf hs'
  tabled := h.tabled.mono hf.extends_of_none h.setting.sound
  nested := h.nested.mono hf.toGrows h.setting.sound fun _ _ _ hsc => hf.keepsScope hsc
  usable := h.usable.mono hf.toGrows
  members := (hf.extends_of_none.members _).trans h.members

/-- Inside a body after a block has been entered. -/
theorem Inside.enter (h : s.Inside x g this j B M Δ) {l : ScopeId} (hf : Frame s s' none none none)
    (hs' : s'.Sound) (hl : s'.program.scopeAt? l = some (.empty .block (some j))) :
    s'.Inside x g this l ([] :: B) M ([] :: Δ) := by
  have h' := h.frame hf hs'
  refine ⟨h.setting.enter hf hs' hl, h'.tabled, ?_, ?_, h'.members⟩
  · exact .block hl rfl rfl (fun n => by simp [Scope.empty]) h'.nested
  · intro names hnames n v hv hn
    rcases List.mem_cons.1 hnames with rfl | hnames
    · cases hv
    · exact h'.usable names hnames n v hv hn

/-- Inside a body after a variable has been bound: it is in front of what its block binds. -/
theorem Inside.bind {bs bs' : Bindings} {names : Locals} {sc : Scope} {y : Variable}
    (h : s.Inside x g this j (bs :: B) M (names :: Δ)) (hsc : s.program.scopeAt? j = some sc)
    (hf : Frame s s' none none (some j)) (h' : s'.Setting x g this j (bs' :: B))
    (hy : s'.program.varAt? v = some y) (hk : y.kind = .localVar)
    (hsc' : s'.program.scopeAt? j = some { sc with vars := sc.vars.insert n v }) :
    s'.Inside x g this j (bs' :: B) M (((n, v) :: names) :: Δ) := by
  have hs := h.setting.sound
  cases h.nested with
  | @block _ p sc₀ _ _ hsc₀ hblock hp hm hnested =>
    rw [hsc] at hsc₀
    cases hsc₀
    have hx : s.Extends s' := hf.extends_of_block hsc hblock
    have hlt := (hs.scopes j sc hsc).parent p hp
    refine ⟨h', h.tabled.mono hx hs, ?_, ?_, (hx.members _).trans h.members⟩
    · refine .block hsc' hblock hp (fun n' => ?_) (hnested.mono hf.toGrows hs fun l sc' hl hsl => ?_)
      · show (sc.vars.insert n v)[n']? = _
        rw [getElem?_insert_eq, List.lookup_cons, hm n']
        by_cases heq : n = n'
        · rw [if_pos heq, beq_iff_eq.2 heq.symm]
        · rw [if_neg heq, beq_eq_false_iff_ne.2 fun h => heq h.symm]
      · exact hf.sameScopes l sc' hsl fun h => by cases h; omega
    · have husable := h.usable.mono hf.toGrows
      intro names' hnames' n' v' hv' hn'
      rcases List.mem_cons.1 hnames' with rfl | hnames'
      · rcases List.mem_cons.1 hv' with heq | hv'
        · cases heq
          exact ⟨y, hy, .inl hk⟩
        · exact husable names List.mem_cons_self n' v' hv' hn'
      · exact husable names' (List.mem_cons_of_mem _ hnames') n' v' hv' hn'

/-! ## What a name finds -/

theorem mem_of_locals_find? (h : Locals.find? Δ n = some v) : ∃ names ∈ Δ, (n, v) ∈ names := by
  obtain ⟨names, hnames, hv⟩ := List.exists_of_findSome?_eq_some h
  obtain ⟨l₁, l₂, rfl, -⟩ := List.lookup_eq_some_iff.1 hv
  exact ⟨_, hnames, by simp⟩

/-- A name as a variable. -/
theorem Inside.findVariable? (h : s.Inside x g this j B M Δ) (n : String) :
    s.scopes.findVariable? j n = (Locals.find? Δ n).or (M.field? n) := by
  obtain ⟨p, hp, hfind⟩ := h.nested.findVariable? h.setting.sound n
  rw [hfind, h.setting.sound.findVariable?_home h.setting.represents hp, ← h.members]
  rfl

/-- A name as a method. -/
theorem Inside.findMethod? (h : s.Inside x g this j B M Δ) (n : String) :
    s.scopes.findMethod? j n = (M.method? n).or (M.function? n) := by
  have hs := h.setting.sound
  obtain ⟨p, hp, hfind⟩ := h.setting.reads.findMethod? hs n
  obtain ⟨global, hglobal⟩ := hs.global
  have hfunction := hs.findMethod?_global hglobal n
  rw [h.tabled.functions global hglobal n] at hfunction
  rw [hfind, ← h.members]
  unfold Program.members
  cases ho : g.owner with
  | none =>
    rw [ho] at hp
    rw [hp, hfunction]
    rfl
  | some c =>
    rw [ho] at hp
    obtain ⟨i, hi, rfl⟩ := hp
    obtain ⟨sc, hsc, -, hparent⟩ := hs.class_scope hi
    have hclass : s.scopes.findMethod? i.scope n = (sc.methods[n]?).or s.program.functions[n]? := by
      rw [← hfunction]
      unfold ScopeTree.findMethod?
      rw [ScopeTree.find_eq hs.rooted hsc, hparent]
      rfl
    rw [hclass, h.tabled.members c i sc hi hsc n, Option.bind_some, hi]
    rfl

/-- A method of the class around is called on the receiver, -/
theorem Inside.implicitReceiver_method (h : s.Inside x g this j B M Δ) {m : MethodId}
    (hm : M.method? n = some m) (span : Span) :
    Yields (s.implicitReceiver m span) (fun o => ∃ ty, o = some (.this ty span)) fun _ => True := by
  rw [← h.members] at hm
  obtain ⟨i, hi, hm⟩ := Option.bind_eq_some_iff.1 hm
  obtain ⟨c, -, hi⟩ := Option.bind_eq_some_iff.1 hi
  obtain ⟨f, hf, ho⟩ := (h.setting.sound.classes c i hi).method n m hm
  unfold implicitReceiver
  refine Yields.bind_ok (Program.getMethod_eq hf) ?_
  rw [ho]
  refine Yields.map ((s.receiver_form span).post ?_)
  rintro _ ⟨ty, rfl⟩
  exact ⟨ty, rfl⟩

/-- and a function on none. -/
theorem Inside.implicitReceiver_function (h : s.Inside x g this j B M Δ) {m : MethodId}
    (hm : M.function? n = some m) (span : Span) :
    Yields (s.implicitReceiver m span) (fun o => o = none) fun _ => True := by
  have hs := h.setting.sound
  obtain ⟨global, hglobal⟩ := hs.global
  rw [← h.members] at hm
  change s.program.functions[n]? = some m at hm
  rw [← h.tabled.functions global hglobal n] at hm
  obtain ⟨f, hf, ho⟩ := hs.owner_of_global hglobal hm
  unfold implicitReceiver
  refine Yields.bind_ok (Program.getMethod_eq hf) ?_
  rw [ho]
  exact Yields.pure rfl

/-- A local variable or an argument is used as it is, -/
theorem Ordinary.useOf (h : s.Ordinary v) (span : Span) :
    Yields (s.useOf v span) (fun t => ∃ ty, t = .var v ty span) fun _ => True := by
  obtain ⟨y, hy, hk⟩ := h
  unfold Resolver.useOf
  refine Yields.bind_ok (Program.getVariable_eq hy) ?_
  rcases hk with hk | ⟨i, hk⟩
  · rw [hk]
    exact Yields.pure ⟨_, rfl⟩
  · rw [hk]
    exact Yields.pure ⟨_, rfl⟩

/-- and a field through the receiver. -/
theorem Inside.useOf_field (h : s.Inside x g this j B M Δ) (hf : M.field? n = some v) (span : Span) :
    Yields (s.useOf v span) (fun t => ∃ own ty, t = .field (.this own span) v ty span)
      fun _ => True := by
  rw [← h.members] at hf
  obtain ⟨i, hi, hf⟩ := Option.bind_eq_some_iff.1 hf
  obtain ⟨c, -, hi⟩ := Option.bind_eq_some_iff.1 hi
  obtain ⟨y, k, hy, hk⟩ := (h.setting.sound.classes c i hi).field n v hf
  unfold useOf
  refine Yields.bind_ok (Program.getVariable_eq hy) ?_
  rw [hk]
  refine (s.receiver_form span).seq ?_
  rintro _ ⟨own, rfl⟩
  exact Yields.pure ⟨own, _, rfl⟩

/-- **Names mean what the environment says.** -/
theorem Inside.lexical (h : s.Inside x g this j B M Δ) : s.Lexical M j Δ where
  name n span hn := by
    unfold Resolver.name Members.target?
    rw [h.findVariable? n, h.findMethod? n]
    cases hv : Locals.find? Δ n with
    | some v =>
      obtain ⟨names, hnames, hmem⟩ := mem_of_locals_find? hv
      refine ((h.usable names hnames n v hmem hn).useOf span).post ?_
      rintro _ ⟨ty, rfl⟩
      exact ⟨_, rfl, .variable⟩
    | none =>
      -- no block binds the name
      cases hf : M.field? n with
      | some v =>
        refine (h.useOf_field hf span).post ?_
        rintro _ ⟨own, ty, rfl⟩
        exact ⟨_, rfl, .field⟩
      | none =>
        cases hm : M.method? n with
        | some m =>
          refine (h.implicitReceiver_method hm span).seq ?_
          rintro _ ⟨own, rfl⟩
          refine (s.callBare_form m _ span).post ?_
          rintro _ ⟨ty, rfl⟩
          exact ⟨_, rfl, .method⟩
        | none =>
          cases hm : M.function? n with
          | some m =>
            refine (h.implicitReceiver_function hm span).seq ?_
            rintro _ rfl
            refine (s.callBare_form m _ span).post ?_
            rintro _ ⟨ty, rfl⟩
            exact ⟨_, rfl, .function⟩
          | none => exact Yields.error trivial
  method n span := by
    unfold Resolver.method
    rw [h.findMethod? n]
    cases hm : M.method? n with
    | some m =>
      refine (h.implicitReceiver_method hm span).seq ?_
      rintro _ ⟨ty, rfl⟩
      exact Yields.pure (.inl ⟨rfl, ty, rfl⟩)
    | none =>
      cases hf : M.function? n with
      | some m =>
        refine (h.implicitReceiver_function hf span).seq ?_
        rintro _ rfl
        exact Yields.pure (.inr ⟨rfl, rfl, rfl⟩)
      | none => exact Yields.error trivial

end Resolver

end ClassLang
