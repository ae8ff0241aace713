import ClassLang.Proofs.Elaborate
import ClassLang.Proofs.SignaturePass

/-!
# A state and the interface of its unit

A state that represents a unit has entered its fields, methods and functions under numbers. Without
the numbers, what a name means from a scope inside a body is what the interface of the unit and an
environment say:

* `Tracks.findVariable?`: a variable of the blocks around, or else a field.
* `Published.findMethod?`: a method of the class around, or else a function.
* `Represents.callees`: the members that a type lists under a name.
* `Published.field?`: the field that a type has under a name.

`Resolver.Nested` says which variables, by number, the blocks around a scope bind.
-/

namespace ClassLang

/-- The names that a block binds, with the numbers of their variables. -/
abbrev Locals := List (String × VariableId)

/-- The variable that a name stands for in the nearest block that binds it. -/
def Locals.find? (Δ : List Locals) (name : String) : Option VariableId :=
  Δ.findSome? fun names => names.lookup name

/-- The context of a body as elaboration knows it. -/
def Context.body (x : Context) : BodyContext :=
  ⟨x.unit.interface x.dialect, x.owner.map ClassDecl.name, x.result⟩

theorem lookup_map_snd {α β : Type} (f : α → β) (names : List (String × α)) (n : String) :
    (names.map fun q => (q.1, f q.2)).lookup n = (names.lookup n).map f := by
  induction names with
  | nil => rfl
  | cons q names ih =>
    rw [List.map_cons, List.lookup_cons, List.lookup_cons, ih]
    cases n == q.1 <;> rfl

namespace Resolver

/-- **A scope inside blocks**: the scopes from it outward are blocks that bind exactly the names
`Δ`, up to the scope in which the members of `o` are named. -/
inductive Nested (s : Resolver) (o : Option ClassId) : ScopeId → List Locals → Prop where
  | home {j} : s.Home o j → Nested s o j []
  | block {j p sc names Δ} : s.program.scopeAt? j = some sc → sc.kind = .block →
      sc.parent = some p → (∀ n : String, sc.vars[n]? = names.lookup n) → Nested s o p Δ →
      Nested s o j (names :: Δ)

/-- Without their numbers, the variables `Δ` are `Γ`. -/
def Shows (s : Resolver) (Δ : List Locals) (Γ : Env) : Prop :=
  Δ.map (fun names => names.map fun q => (q.1, s.namedVar? q.2)) =
    Γ.map fun names => names.map fun q => (q.1, some q.2)

/-- **What is entered of fields and functions is what the interface says.** -/
structure Published (s : Resolver) (d : Dialect) (u : CompilationUnit) : Prop where
  fields : ∀ c i, s.program.classAt? c = some i → ∀ n : String,
    (i.fields[n]?).bind s.namedVar? = (u.interface d).field? i.name n
  functionNames : ∀ sc, s.program.scopeAt? ScopeTree.globalId = some sc → ∀ (n : String) m g,
    sc.methods[n]? = some m → s.program.methodAt? m = some g → g.name = n
  signatures : ∀ f ∈ u.functions, (f.signature? d u).isSome

/-- **Inside a body**: the scope `j` stands in blocks that show `Γ`. -/
structure Tracks (s : Resolver) (x : Context) (o : Option ClassId) (j : ScopeId) (Γ : Env) :
    Prop where
  published : s.Published x.dialect x.unit
  env : ∃ Δ, s.Nested o j Δ ∧ s.Shows Δ Γ

variable {s s' : Resolver} {d : Dialect} {u : CompilationUnit} {o : Option ClassId} {j p : ScopeId}
  {Δ : List Locals} {Γ : Env} {x : Context} {g : Method}

/-! ## What stays -/

theorem Nested.mono (hg : s.Grows s') (hs : s.Sound)
    (same : ∀ l sc, l.index ≤ j.index → s.program.scopeAt? l = some sc →
      s'.program.scopeAt? l = some sc) (h : s.Nested o j Δ) : s'.Nested o j Δ := by
  induction h with
  | home hh => exact .home (hh.mono hg)
  | @block j p sc names Δ hsc hk hp hm _ ih =>
    have hlt := (hs.scopes j sc hsc).parent p hp
    refine .block (same j sc (Nat.le_refl _) hsc) hk hp hm (ih ?_)
    exact fun l sc' hl hsc' => same l sc' (by omega) hsc'

theorem Shows.mono (hv : ∀ {v y}, s.namedVar? v = some y → s'.namedVar? v = some y)
    (h : s.Shows Δ Γ) : s'.Shows Δ Γ := by
  unfold Shows at *
  rw [← h]
  refine List.map_congr_left fun names hnames => List.map_congr_left fun q hq => ?_
  have hmem : (names.map fun q => (q.1, s.namedVar? q.2)) ∈
      Γ.map fun names => names.map fun q => (q.1, some q.2) := h ▸ List.mem_map_of_mem hnames
  obtain ⟨names', -, heq⟩ := List.mem_map.1 hmem
  have hq' : (q.1, s.namedVar? q.2) ∈ names'.map fun q => (q.1, some q.2) :=
    heq ▸ List.mem_map_of_mem (f := fun q : String × VariableId => (q.1, s.namedVar? q.2)) hq
  obtain ⟨q', -, hq''⟩ := List.mem_map.1 hq'
  have hy : s.namedVar? q.2 = some q'.2 := (congrArg Prod.snd hq'').symm
  rw [hv hy, hy]

/-- What is published stays so. -/
theorem Published.mono (h : s.Published d u) (hx : s.Extends s') (hs : s.Sound) (hs' : s'.Sound) :
    s'.Published d u where
  fields c i hi n := by
    -- there are no more classes than before
    have hlt := (Array.getElem?_eq_some_iff.1 hi).1
    rw [hx.noClass] at hlt
    have hi₀ : s.program.classAt? c = some s.program.classes[c.index] :=
      Array.getElem?_eq_getElem hlt
    have heq := hx.classes c _ hi₀
    rw [hi] at heq
    cases heq
    rw [← h.fields c _ hi₀ n]
    cases hv : (s.program.classes[c.index]).fields[n]? with
    | none => rfl
    | some v =>
      obtain ⟨y, -, hy, -⟩ := (hs.classes c _ hi₀).field n v hv
      obtain ⟨z, hz⟩ := hs.namedVar?_isSome hy
      rw [Option.bind_some, Option.bind_some, hz, hx.grows.namedVar? hs hs' hz]
  functionNames sc hsc n m g hm hg := by
    obtain ⟨sc₀, hsc₀⟩ := hs.global
    obtain ⟨sc', hsc', -, hsame⟩ := hx.scopes _ sc₀ hsc₀
    rw [hsc] at hsc'
    cases hsc'
    rw [hsame (by rw [((hs.scopes _ sc₀ hsc₀).root).2 rfl]; nofun)] at hm
    obtain ⟨g₀, hg₀, -⟩ := hs.owner_of_global hsc₀ hm
    obtain ⟨g', hg', hname, -⟩ := hx.grows.methods m g₀ hg₀
    rw [hg] at hg'
    cases hg'
    rw [hname]
    exact h.functionNames sc₀ hsc₀ n m g₀ hm hg₀
  signatures := h.signatures

theorem Tracks.mono (h : s.Tracks x o j Γ) (hx : s.Extends s') (hs : s.Sound) (hs' : s'.Sound)
    (same : ∀ l sc, l.index ≤ j.index → s.program.scopeAt? l = some sc →
      s'.program.scopeAt? l = some sc) : s'.Tracks x o j Γ where
  published := h.published.mono hx hs hs'
  env := by
    obtain ⟨Δ, hn, hshow⟩ := h.env
    exact ⟨Δ, hn.mono hx.grows hs same, hshow.mono fun hy => hx.grows.namedVar? hs hs' hy⟩

/-! ## Variables -/

theorem Shows.cons_inv {names : Locals} (h : s.Shows (names :: Δ) Γ) : ∃ names' Γ',
    Γ = names' :: Γ' ∧ names.map (fun q => (q.1, s.namedVar? q.2)) =
      names'.map (fun q => (q.1, some q.2)) ∧ s.Shows Δ Γ' := by
  unfold Shows at h
  cases Γ with
  | nil => cases h
  | cons names' Γ' =>
    rw [List.map_cons, List.map_cons, List.cons.injEq] at h
    exact ⟨names', Γ', rfl, h.1, h.2⟩

/-- A name in a block, by number and without. -/
theorem lookup_shows {names : Locals} {names' : Names}
    (h : names.map (fun q => (q.1, s.namedVar? q.2)) = names'.map fun q => (q.1, some q.2))
    (n : String) : (names.lookup n).map s.namedVar? = (names'.lookup n).map some := by
  rw [← lookup_map_snd, h, lookup_map_snd]

/-- A name means one variable in the tables and in the text. -/
theorem Shows.find? (h : s.Shows Δ Γ) (n : String) :
    (Locals.find? Δ n).map s.namedVar? = (Γ.find? n).map some := by
  induction Δ generalizing Γ with
  | nil =>
    cases Γ with
    | nil => rfl
    | cons names Γ => cases h
  | cons names Δ ih =>
    obtain ⟨names', Γ', rfl, hnames, hrest⟩ := h.cons_inv
    have hl := lookup_shows hnames n
    have ih := ih hrest
    unfold Locals.find? Env.find? at *
    rw [List.findSome?_cons, List.findSome?_cons]
    cases hv : names.lookup n <;> cases hy : names'.lookup n <;> rw [hv, hy] at hl
    · exact ih
    · cases hl
    · cases hl
    · exact hl

/-- A name as a variable: one of the blocks around, or else one of the scope in which members are
named. -/
theorem Nested.findVariable? (hs : s.Sound) (h : s.Nested o j Δ) (n : String) :
    ∃ p, s.Home o p ∧ s.scopes.findVariable? j n =
      (Locals.find? Δ n).or (s.scopes.findVariable? p n) := by
  induction h with
  | home hh => exact ⟨_, hh, rfl⟩
  | @block j p sc names Δ hsc _ hp hm _ ih =>
    obtain ⟨q, hq, heq⟩ := ih
    refine ⟨q, hq, ?_⟩
    have hfind : s.scopes.findVariable? j n =
        (names.lookup n).or (s.scopes.findVariable? p n) := by
      unfold ScopeTree.findVariable?
      rw [ScopeTree.find_eq hs.rooted hsc, hp, ← hm n]
      rfl
    rw [hfind, heq]
    unfold Locals.find?
    rw [List.findSome?_cons]
    cases names.lookup n <;> rfl

/-- Only a class names variables among its members: its fields. -/
theorem Sound.findVariable?_home (hs : s.Sound) (hR : s.Represents d u) (hp : s.Home o p)
    (n : String) : s.scopes.findVariable? p n =
      (o.bind s.program.classAt?).bind fun i => i.fields[n]? := by
  cases o with
  | none => rw [hp, hs.findVariable?_global n]; rfl
  | some c =>
    obtain ⟨i, hi, rfl⟩ := hp
    obtain ⟨sc, hsc, -, hparent⟩ := hs.class_scope hi
    obtain ⟨decl, -, hc⟩ := hR.classes c i hi
    have hglobal := hs.findVariable?_global n
    unfold ScopeTree.findVariable? at hglobal ⊢
    rw [ScopeTree.find_eq hs.rooted hsc, hparent]
    simp only [hglobal, Option.or_none, Option.bind_some, hi]
    exact hc.scopeVars sc hsc n

/-- The name of the class around, by number and as it is written. -/
theorem Within.owner_name (hw : s.Within x g) :
    x.owner.map ClassDecl.name = (g.owner.bind s.program.classAt?).map ClassInfo.name := by
  cases ho : g.owner with
  | none => rw [hw.function ho]; rfl
  | some c =>
    obtain ⟨i, decl, hi, hx, hd⟩ := hw.method c ho
    rw [hx, Option.bind_some, hi, Option.map_some, Option.map_some, (classNamed?_mem hd).2]

theorem Published.map_field (h : s.Published d u) (hs : s.Sound) {c : ClassId} {i : ClassInfo}
    (hi : s.program.classAt? c = some i) (n : String) :
    (i.fields[n]?).map s.namedVar? = ((u.interface d).field? i.name n).map some := by
  rw [← h.fields c i hi n]
  cases hv : i.fields[n]? with
  | none => rfl
  | some v =>
    obtain ⟨y, -, hy, -⟩ := (hs.classes c i hi).field n v hv
    obtain ⟨z, hz⟩ := hs.namedVar?_isSome hy
    simp [hz]

/-- **A name as a variable**: one of the blocks around, or else a field of the class around. -/
theorem Tracks.findVariable? (h : s.Tracks x g.owner j Γ) (hs : s.Sound)
    (hR : s.Represents x.dialect x.unit) (hw : s.Within x g) (n : String) :
    (s.scopes.findVariable? j n).map s.namedVar? =
      ((Γ.find? n).or (x.body.field? n)).map some := by
  obtain ⟨Δ, hnested, hshow⟩ := h.env
  obtain ⟨p, hp, hfind⟩ := hnested.findVariable? hs n
  have hblocks := hshow.find? n
  rw [hfind, hs.findVariable?_home hR hp]
  cases hv : Locals.find? Δ n with
  | some v =>
    rw [hv] at hblocks
    obtain ⟨y, hy, hy'⟩ := Option.map_eq_some_iff.1 hblocks.symm
    rw [hy, Option.some_or, Option.some_or, Option.map_some, Option.map_some, hy']
  | none =>
    rw [hv] at hblocks
    rw [Option.map_eq_none_iff.1 hblocks.symm, Option.none_or, Option.none_or]
    unfold BodyContext.field? Context.body
    rw [hw.owner_name]
    cases hi : g.owner.bind s.program.classAt? with
    | none => rfl
    | some i =>
      obtain ⟨c, -, hi⟩ := Option.bind_eq_some_iff.1 hi
      simp only [Option.bind_some, Option.map_some, Option.bind_eq_bind]
      exact h.published.map_field hs hi n

/-! ## Methods -/

theorem callee?_of {m : MethodId} {owner : Option String} {sig : Signature}
    (hg : s.program.methodAt? m = some g) (ho : s.ownerName? g.owner = some owner)
    (hsig : s.signatureOf? m = some sig) :
    s.callee? m = some ⟨⟨owner, g.name, sig.parameters⟩, sig.result⟩ :=
  callee?_eq_some_iff.2 ⟨g, hg, ho, rfl, hsig⟩

/-- **A method of a class**, as those see it who call it. -/
theorem Represents.callee_of_class (hR : s.Represents d u) (hs : s.Sound) {c : ClassId}
    {i : ClassInfo} (hi : s.program.classAt? c = some i) {sc : Scope}
    (hsc : s.program.scopeAt? i.scope = some sc) (n : String) :
    (sc.methods[n]?).map s.callee? = ((u.interface d).method? i.name n).map some := by
  obtain ⟨decl, hd, hc⟩ := hR.classes c i hi
  have hmeth := hc.methods sc hsc n
  show _ = ((u.classNamed? i.name).bind fun decl =>
    (decl.methodNamed? n).bind fun m => m.callee? d u (some i.name)).map some
  rw [hd, Option.bind_some]
  unfold ClassDecl.methodNamed?
  cases hm : sc.methods[n]? with
  | none => rw [(hc.find_method_eq_none hs hsc).1 hm]; rfl
  | some m =>
    obtain ⟨g, hg, ho⟩ := hs.owner_of_class hi hsc hm
    obtain ⟨sig, -, hsig, -⟩ := hs.signatureOf?_isSome hg
    rw [hm, Option.bind_some, hsig] at hmeth
    obtain ⟨md, hmd, hsig'⟩ := Option.bind_eq_some_iff.1 hmeth.symm
    have hname : md.name = n := by simpa using List.find?_some hmd
    -- the class lists the method under its name
    obtain ⟨e, he, -⟩ := (hs.classes c i hi).entry
    have hcand : m ∈ e.candidates n := by rw [hc.members sc e hsc he n, hm]; simp
    obtain ⟨g', hg', hname', -⟩ := hs.lists_of_candidate he hcand
    rw [hg] at hg'
    cases hg'
    have howner : s.ownerName? g.owner = some (some i.name) := by
      rw [ho, ownerName?, className?, hi]; rfl
    rw [hmd, Option.bind_some, Option.map_some, callee?_of hg howner hsig, MethodDecl.callee?, hsig',
      hname, hname']
    rfl

/-- **A function**, as those see it who call it. -/
theorem Published.callee_of_function (h : s.Published d u) (hR : s.Represents d u) (hs : s.Sound)
    {sc : Scope} (hsc : s.program.scopeAt? ScopeTree.globalId = some sc) (n : String) :
    (sc.methods[n]?).map s.callee? = ((u.interface d).function? n).map some := by
  have hfun := hR.functions sc hsc n
  show _ = ((u.functionNamed? n).bind fun f => f.callee? d u none).map some
  cases hm : sc.methods[n]? with
  | none =>
    have hnone := (none_iff_of_bind_eq hfun (fun _ hm => hs.signatureOf?_method hsc hm)
      fun f hf => h.signatures f (List.mem_of_find?_eq_some hf)).1 hm
    rw [hnone]; rfl
  | some m =>
    obtain ⟨g, hg, ho⟩ := hs.owner_of_global hsc hm
    obtain ⟨sig, -, hsig, -⟩ := hs.signatureOf?_isSome hg
    rw [hm, Option.bind_some, hsig] at hfun
    obtain ⟨f, hf, hsig'⟩ := Option.bind_eq_some_iff.1 hfun.symm
    have hname : f.name = n := by simpa using List.find?_some hf
    have howner : s.ownerName? g.owner = some none := by rw [ho]; rfl
    rw [hf, Option.bind_some, Option.map_some, callee?_of hg howner hsig, MethodDecl.callee?, hsig',
      hname, h.functionNames sc hsc n m g hm hg]
    rfl

/-- **A name as a method** of the class around, or else as a function. -/
theorem Published.findMethod? (h : s.Published x.dialect x.unit) (hs : s.Sound)
    (hR : s.Represents x.dialect x.unit) (hw : s.Within x g) {B : Blocks} (hj : s.Reads g.owner j B)
    (n : String) : (s.scopes.findMethod? j n).map s.callee? = (x.body.method? n).map some := by
  obtain ⟨p, hp, hfind⟩ := hj.findMethod? hs n
  obtain ⟨global, hglobal⟩ := hs.global
  have hfun := h.callee_of_function hR hs hglobal n
  rw [hfind]
  unfold BodyContext.method? Context.body
  rw [hw.owner_name]
  cases ho : g.owner with
  | none =>
    rw [ho] at hp
    rw [hp, hs.findMethod?_global hglobal]
    exact hfun
  | some c =>
    rw [ho] at hp
    obtain ⟨i, hi, rfl⟩ := hp
    obtain ⟨sc, hsc, hclass⟩ := hs.findMethod?_class hglobal hi n
    have hmeth := hR.callee_of_class hs hi hsc n
    rw [hclass, Option.bind_some, hi]
    simp only [Option.map_some, Option.bind_some]
    -- a method of the class hides a function of the same name
    cases hm : sc.methods[n]? <;> rw [hm] at hmeth
    · rw [Option.map_eq_none_iff.1 hmeth.symm, Option.none_or, Option.none_or]
      exact hfun
    · obtain ⟨k, hk, hk'⟩ := Option.map_eq_some_iff.1 hmeth.symm
      rw [hk, Option.some_or, Option.some_or, Option.map_some, Option.map_some, hk']

/-! ## Members of types -/

/-- An operator has no owner, and is known under its symbol. -/
theorem Represents.callee_of_operator (hR : s.Represents d u) (hs : s.Sound) {k : Native}
    {e : TypeEntry} (he : s.registry.entry? k.id = some e) {p : String × MethodId}
    (hp : p ∈ e.members) : s.callee? p.2 =
      (s.signatureOf? p.2).map fun sig => ⟨⟨none, p.1, sig.parameters⟩, sig.result⟩ := by
  obtain ⟨g, hg, hop⟩ := hR.natives.operator k e p he hp
  obtain ⟨g', hg', hname⟩ := hs.member k.id e p.1 p.2 he hp
  rw [hg] at hg'
  cases hg'
  obtain ⟨sig, -, hsig, -⟩ := hs.signatureOf?_isSome hg
  have hnone : g.owner = none := by
    unfold Method.isOperator at hop
    split at hop
    · rename_i symbol ty hk
      exact ((hs.methods p.2 g hg).operand symbol ty hk).2
    · cases hop
  have howner : s.ownerName? g.owner = some none := by rw [hnone]; rfl
  rw [callee?_of hg howner hsig, hsig, hname]
  rfl

/-- **The members that a type lists under a name.** -/
theorem Represents.callees (hR : s.Represents d u) (hs : s.Sound) {id : TypeId} {T : Ty}
    (hT : s.registry.meaning? id = some T) {e : TypeEntry} (he : s.registry.entry? id = some e)
    (n : String) :
    (e.candidates n).map s.callee? = (T.callees (u.interface d) n).map some := by
  cases T with
  | native k =>
    cases Registry.eq_native_of_meaning? hs.registry hT
    -- the operators that are installed, each as it is called
    have hmembers : e.members.map (fun p => (p.1, s.callee? p.2)) = k.operators.map fun op =>
        (op.symbol, some (⟨⟨none, op.symbol, (op.signature k).parameters⟩,
          (op.signature k).result⟩ : Callee)) := by
      have hops := congrArg (List.map fun q : String × Option Signature =>
        (q.1, q.2.map fun sig => (⟨⟨none, q.1, sig.parameters⟩, sig.result⟩ : Callee)))
        (hR.natives.operators k e he)
      rw [List.map_map, List.map_map] at hops
      rw [List.map_congr_left fun p hp => by rw [hR.callee_of_operator hs he hp]]
      exact hops
    rw [TypeEntry.map_candidates, hmembers, Ty.callees, Native.operatorsNamed, List.filterMap_map,
      List.map_map, List.map_map]
    induction k.operators with
    | nil => rfl
    | cons op ops ih => by_cases hop : op.symbol = n <;> simp_all
  | ofClass c =>
    obtain ⟨c', i, -, hi, rfl, rfl⟩ := hs.class_of_meaning? hT
    obtain ⟨decl, -, hc⟩ := hR.classes c' i hi
    obtain ⟨sc, hsc, -, -⟩ := hs.class_scope hi
    have hmeth := hR.callee_of_class hs hi hsc n
    rw [hc.members sc e hsc he n, Ty.callees]
    cases hm : sc.methods[n]? <;> rw [hm] at hmeth
    · rw [Option.map_eq_none_iff.1 hmeth.symm]; rfl
    · obtain ⟨k, hk, hk'⟩ := Option.map_eq_some_iff.1 hmeth.symm
      rw [hk]
      exact congrArg (fun a => [a]) hk'.symm
  | pointer T | array T =>
    obtain ⟨t, hk, -⟩ := Registry.kind?_of_meaning? hs.registry hT
    rw [hR.candidates_of_part he hk rfl]; rfl

/-- **The field that a type has under a name.** -/
theorem Published.field? (h : s.Published d u) (hs : s.Sound) {id : TypeId} {T : Ty}
    (hT : s.registry.meaning? id = some T) (n : String) :
    ∃ o, s.field? id n = .ok o ∧ o.map s.namedVar? = (T.fieldOf? (u.interface d) n).map some := by
  have hkind := Registry.kind?_of_meaning? hs.registry hT
  unfold Resolver.field? Registry.classOf?
  cases T with
  | ofClass c =>
    obtain ⟨c', i, hk, hi, rfl, rfl⟩ := hs.class_of_meaning? hT
    rw [hk]
    refine ⟨i.fields[n]?, ?_, ?_⟩
    · simp only [Program.getClass_eq hi]; rfl
    · exact h.map_field hs hi n
  | native k => rw [hkind]; exact ⟨none, rfl, rfl⟩
  | pointer T | array T => obtain ⟨t, ht, -⟩ := hkind; rw [ht]; exact ⟨none, rfl, rfl⟩

end Resolver

end ClassLang
