import ClassLang.Proofs.Isolation

/-!
# Bodies are resolved independently

Each body of a unit is checked on its own: what comes of it is the same as with all other bodies
emptied.

* `elaborate_isolate`: when all declarations are in order, a unit with one body left elaborates as
  that body does.
* `resolve_isolate`: a unit is resolved if and only if it is with each of its bodies alone, its fault
  is that of the first body that fails alone, and what each body is resolved to is the same.
-/

namespace ClassLang

open Resolver Resolve

/-! ## Elaboration of one body -/

/-- The key of a method. -/
def NamedMethod.key (M : NamedMethod) : MethodKey := (M.method.owner, M.method.name)

/-- `M` is the only method of a program that has the key `k`. -/
structure NamedProgram.IsMethod (N : NamedProgram) (k : MethodKey) (M : NamedMethod) : Prop where
  mem : M ∈ N.methods
  key : M.key = k
  only : ∀ M' ∈ N.methods, M'.key = k → M' = M

theorem MethodDecl.elaborate_facts {I : Interface} {owner : Option String} {m : MethodDecl}
    {M : NamedMethod} (h : m.elaborate I owner = .ok M) :
    M.key = (owner, m.name) ∧ M.body.isSome = m.body.isSome := by
  obtain ⟨g, hg, h⟩ := exists_of_bind_eq_ok h
  obtain ⟨b, hb, ⟨⟩⟩ := exists_of_bind_eq_ok h
  obtain ⟨howner, hname, -⟩ := elaborateSignature_facts hg
  refine ⟨Prod.ext howner hname, ?_⟩
  unfold elaborateBody at hb
  cases hbody : m.body with
  | none => rw [hbody] at hb; cases hb; rfl
  | some block =>
    obtain ⟨body, span⟩ := block
    rw [hbody] at hb
    obtain ⟨ts, -, ⟨⟩⟩ := exists_of_bind_eq_ok hb
    rfl

namespace CompilationUnit

variable {d : Dialect} {u : CompilationUnit} {classes : List NamedClass}
  {a : Option String × MethodDecl} {e : Diagnostic} {owner : Option ClassDecl} {m : MethodDecl}

/-- **All declarations of a unit are in order**, and `classes` are its classes. -/
structure Signable (d : Dialect) (u : CompilationUnit) (classes : List NamedClass) : Prop where
  declared : u.WellDeclared d
  classes : u.elaborateSignatures d = .ok classes
  signatures : ∀ a ∈ u.inOrder, ∃ g, a.2.elaborateSignature (u.interface d) a.1 = .ok g

/-- What is left are the bodies. -/
theorem Signable.elaborate_eq (h : u.Signable d classes) : u.elaborate d =
    (NamedProgram.mk classes ·) <$> u.inOrder.mapM fun a => a.2.elaborate (u.interface d) a.1 := by
  unfold elaborate
  rw [h.classes]
  rfl

theorem Signable.isolate_eq (h : u.Signable d classes) (k : MethodKey) :
    (u.isolate k).elaborate d = (NamedProgram.mk classes ·) <$> u.inOrder.mapM fun a =>
      (a.2.isolate k a.1).elaborate (u.interface d) a.1 := by
  unfold elaborate
  rw [elaborateSignatures_isolate h.declared.distinctNames, h.classes, inOrder_isolate h.declared,
    u.isolate_interface, List.mapM_map]
  rfl

/-- The keys of the methods of a unit are distinct. -/
theorem keys_nodup (hu : u.WellDeclared d) :
    (u.inOrder.map fun a => (a.1, a.2.name)).Nodup := by
  unfold List.Nodup
  rw [List.pairwise_map]
  exact (inOrder_pairwise hu).imp fun h => h.ne

/-- What a method is elaborated to is the method of its key. -/
theorem isMethod_of_mapM {f : Option String × MethodDecl → Except Diagnostic NamedMethod}
    {Ns : List NamedMethod} {M : NamedMethod} (hu : u.WellDeclared d)
    (hkey : ∀ b N, f b = .ok N → N.key = (b.1, b.2.name)) (hrun : u.inOrder.mapM f = .ok Ns)
    (ha : a ∈ u.inOrder) (hM : f a = .ok M) :
    (NamedProgram.mk classes Ns).IsMethod (a.1, a.2.name) M := by
  have hnodup : (Ns.map NamedMethod.key).Nodup := by
    rw [map_of_exceptMapM hkey hrun]
    exact keys_nodup hu
  have hmem := mem_of_exceptMapM hrun ha hM
  refine ⟨hmem, hkey a M hM, fun M' hM' hk => ?_⟩
  have hfind := (find?_name_iff hnodup).2 ⟨hmem, hkey a M hM⟩
  rw [(find?_name_iff hnodup).2 ⟨hM', hk⟩] at hfind
  exact Option.some.inj hfind

/-- **A unit with one body left elaborates as that body does**: to the same fault, or to a program
that has the same method. -/
theorem elaborate_isolate (h : u.Signable d classes) (ha : a ∈ u.inOrder) :
    Agrees (fun N M => N.IsMethod (a.1, a.2.name) M)
      ((u.isolate (a.1, a.2.name)).elaborate d) (a.2.elaborate (u.interface d) a.1) := by
  have hself : (a.2.isolate (a.1, a.2.name) a.1).elaborate (u.interface d) a.1 =
      a.2.elaborate (u.interface d) a.1 := by rw [MethodDecl.isolate_self rfl]
  have hother : ∀ b ∈ u.inOrder, (b.1, b.2.name) ≠ (a.1, a.2.name) →
      ∃ M, (b.2.isolate (a.1, a.2.name) b.1).elaborate (u.interface d) b.1 = .ok M := by
    intro b hb hne
    obtain ⟨g, hg⟩ := h.signatures b hb
    exact MethodDecl.elaborate_isolate_other hg hne
  -- the keys are distinct, so only `a` itself keeps its body
  obtain ⟨pre, post, hl⟩ := List.append_of_mem ha
  have hpairwise := inOrder_pairwise h.declared
  rw [hl, List.pairwise_append, List.pairwise_cons] at hpairwise
  obtain ⟨-, ⟨hpost, -⟩, hpre⟩ := hpairwise
  have hbefore : ∀ b ∈ pre, ∃ M,
      (b.2.isolate (a.1, a.2.name) b.1).elaborate (u.interface d) b.1 = .ok M := fun b hb =>
    hother b (by rw [hl]; simp [hb]) (hpre b hb a List.mem_cons_self).ne
  have hafter : ∀ b ∈ post, ∃ M,
      (b.2.isolate (a.1, a.2.name) b.1).elaborate (u.interface d) b.1 = .ok M := fun b hb =>
    hother b (by rw [hl]; simp [hb]) (hpost b hb).ne.symm
  rw [h.isolate_eq]
  cases hM : a.2.elaborate (u.interface d) a.1 with
  | error e =>
    rw [exceptMapM_eq_error_iff.2 ⟨pre, a, post, hl, hbefore, hself.trans hM⟩]
    exact Agrees.error
  | ok M =>
    have hall : ∀ b ∈ u.inOrder, ∃ N,
        (b.2.isolate (a.1, a.2.name) b.1).elaborate (u.interface d) b.1 = .ok N := by
      intro b hb
      rw [hl, List.mem_append, List.mem_cons] at hb
      rcases hb with hb | rfl | hb
      · exact hbefore b hb
      · exact ⟨M, hself.trans hM⟩
      · exact hafter b hb
    obtain ⟨Ns, hNs⟩ := exceptMapM_isOk_iff.2 hall
    rw [hNs]
    refine Agrees.ok (isMethod_of_mapM h.declared (fun b N hN => ?_) hNs ha (hself.trans hM))
    rw [(MethodDecl.elaborate_facts hN).1, b.2.isolate_name]

/-- **The fault of a unit is that of its first faulty body.** -/
theorem Signable.first_fault (h : u.Signable d classes) (he : u.elaborate d = .error e) :
    ∃ a ∈ u.inOrder,
      a.2.elaborate (u.interface d) a.1 = .error e ∧
      ∀ b ∈ u.inOrder, (∃ e', b.2.elaborate (u.interface d) b.1 = .error e') →
        b = a ∨ MethodKey.Before (a.1, a.2.name) (b.1, b.2.name) := by
  have hrun : u.inOrder.mapM (fun a => a.2.elaborate (u.interface d) a.1) = .error e := by
    rw [h.elaborate_eq] at he
    cases hrun : u.inOrder.mapM fun a => a.2.elaborate (u.interface d) a.1 with
    | error e' => rw [hrun] at he; cases he; rfl
    | ok Ns => rw [hrun] at he; cases he
  obtain ⟨pre, a, post, hl, hpre, ha⟩ := exceptMapM_eq_error_iff.1 hrun
  refine ⟨a, by rw [hl]; simp, ha, fun b hb hfault => ?_⟩
  have hpairwise := inOrder_pairwise h.declared
  rw [hl, List.pairwise_append, List.pairwise_cons] at hpairwise
  rw [hl, List.mem_append, List.mem_cons] at hb
  rcases hb with hb | rfl | hb
  · obtain ⟨y, hy⟩ := hpre b hb
    obtain ⟨e', he'⟩ := hfault
    rw [hy] at he'
    cases he'
  · exact .inl rfl
  · exact .inr (hpairwise.2.1.1 b hb)

/-- What a unit is elaborated to has each method as its body gives it. -/
theorem Signable.method (h : u.Signable d classes) {N : NamedProgram} (hN : u.elaborate d = .ok N)
    (ha : a ∈ u.inOrder) :
    ∃ M, a.2.elaborate (u.interface d) a.1 = .ok M ∧ N.IsMethod (a.1, a.2.name) M := by
  rw [h.elaborate_eq] at hN
  cases hrun : u.inOrder.mapM fun a => a.2.elaborate (u.interface d) a.1 with
  | error e => rw [hrun] at hN; cases hN
  | ok Ns =>
    rw [hrun] at hN
    cases hN
    obtain ⟨M, hM⟩ := exceptMapM_isOk_iff.1 ⟨Ns, hrun⟩ a ha
    exact ⟨M, hM, isMethod_of_mapM h.declared (fun b N hN => (MethodDecl.elaborate_facts hN).1)
      hrun ha hM⟩

/-! ## Resolution of one body -/

/-- **The first two passes accept a unit.** -/
def SignaturesResolve (d : Dialect) (u : CompilationUnit) : Prop :=
  ∃ bodies s, (do installOperators; resolveSignatures d (← declare d u) :
    Resolve (List (MethodId × MethodDecl))) .initial = .ok bodies s

theorem SignaturesResolve.signable (hu : u.SignaturesResolve d) : ∃ classes, u.Signable d classes := by
  obtain ⟨s₀, h₀⟩ : ∃ s, s = Resolver.initial := ⟨_, rfl⟩
  obtain ⟨bodies, s, hrun⟩ := hu
  rw [← h₀] at hrun
  obtain ⟨classes, hclasses, hsigned, hread⟩ := (readSignatures_reads d u h₀).of_ok hrun
  refine ⟨classes, hsigned.declared, hclasses, fun a ha => ?_⟩
  rw [← hread.order] at ha
  obtain ⟨b, hb, rfl⟩ := List.mem_map.1 ha
  obtain ⟨g, j, N, hN, -⟩ := hread.readable b hb
  exact ⟨N, hN⟩

/-- A unit with one body left is resolved as that body is elaborated. -/
theorem resolve_isolate_agrees (h : u.Signable d classes) (ha : a ∈ u.inOrder)
    {x : Except Diagnostic (Registry × Program)} (hx : (u.isolate (a.1, a.2.name)).resolve d = x) :
    Agrees (fun rp M => ∃ N, Program.named? rp.1 rp.2 = some N ∧ N.IsMethod (a.1, a.2.name) M) x
      (a.2.elaborate (u.interface d) a.1) :=
  (resolve_agrees (declarable_iff.2 (h.declared.distinctNames.isolate _)) hx).trans
    (elaborate_isolate h ha)

/-- A body that fails fails alone with the same fault, -/
theorem Signable.isolate_error (h : u.Signable d classes) (hm : u.Declares owner m)
    (he : m.elaborate (u.interface d) (owner.map ClassDecl.name) = .error e) :
    (u.isolate (m.key owner)).resolve d = .error e := by
  have ha := (mem_inOrder h.declared).2 ⟨owner, hm, rfl⟩
  obtain ⟨x, hx⟩ : ∃ x, (u.isolate (m.key owner)).resolve d = x := ⟨_, rfl⟩
  have hagrees := resolve_isolate_agrees h ha hx
  rw [he] at hagrees
  rw [hx, hagrees.eq_error]

/-- and one that does not is resolved alone to the same method. -/
theorem Signable.isolate_ok (h : u.Signable d classes) {M : NamedMethod} (hm : u.Declares owner m)
    (hM : m.elaborate (u.interface d) (owner.map ClassDecl.name) = .ok M) :
    ∃ rk Nk, (u.isolate (m.key owner)).resolve d = .ok rk ∧ rk.2.named? rk.1 = some Nk ∧
      Nk.IsMethod (m.key owner) M := by
  have ha := (mem_inOrder h.declared).2 ⟨owner, hm, rfl⟩
  obtain ⟨x, hx⟩ : ∃ x, (u.isolate (m.key owner)).resolve d = x := ⟨_, rfl⟩
  have hagrees := resolve_isolate_agrees h ha hx
  rw [hM] at hagrees
  obtain ⟨rk, hrk, Nk, hNk, hIs⟩ := hagrees.eq_ok
  exact ⟨rk, Nk, hx.trans hrk, hNk, hIs⟩

/-- A method that fails has a body. -/
theorem Signable.body_isSome (h : u.Signable d classes) (ha : a ∈ u.inOrder)
    (he : a.2.elaborate (u.interface d) a.1 = .error e) : a.2.body.isSome := by
  cases hbody : a.2.body with
  | some b => rfl
  | none =>
    obtain ⟨g, hg⟩ := h.signatures a ha
    obtain ⟨N, hN⟩ := MethodDecl.elaborate_ok_of_no_statements hg fun b hb => by
      rw [hbody] at hb
      cases hb
    rw [hN] at he
    cases he

/-- When a unit is resolved, so is each of its bodies alone, and to the same method. -/
theorem Signable.resolved_alone (h : u.Signable d classes) {rp : Registry × Program}
    (hrp : u.resolve d = .ok rp) (hm : u.Declares owner m) :
    ∃ rk N Nk M, (u.isolate (m.key owner)).resolve d = .ok rk ∧
      rp.2.named? rp.1 = some N ∧ rk.2.named? rk.1 = some Nk ∧ N.IsMethod (m.key owner) M ∧
      Nk.IsMethod (m.key owner) M ∧ M.body.isSome = m.body.isSome := by
  have hagrees := resolve_agrees (declarable_iff.2 h.declared.distinctNames) hrp
  cases hN : u.elaborate d with
  | error e => rw [hN] at hagrees; exact hagrees.elim
  | ok N =>
    rw [hN] at hagrees
    obtain ⟨M, hM, hwhole⟩ := h.method hN ((mem_inOrder h.declared).2 ⟨owner, hm, rfl⟩)
    obtain ⟨rk, Nk, hrk, hNk, halone⟩ := h.isolate_ok hm hM
    exact ⟨rk, N, Nk, M, hrk, hagrees, hNk, hwhole, halone, (MethodDecl.elaborate_facts hM).2⟩

/-- When a unit has a fault, it is that of the first body that fails alone. -/
theorem Signable.fails_alone (h : u.Signable d classes) {fault : Diagnostic}
    (hfault : u.resolve d = .error fault) : ∃ owner m, u.Declares owner m ∧ m.body.isSome ∧
      (u.isolate (m.key owner)).resolve d = .error fault ∧
      ∀ owner' m' fault', u.Declares owner' m' →
        (u.isolate (m'.key owner')).resolve d = .error fault' →
        m'.key owner' = m.key owner ∨ (m.key owner).Before (m'.key owner') := by
  have hagrees := resolve_agrees (declarable_iff.2 h.declared.distinctNames) hfault
  have hfault' : u.elaborate d = .error fault := by
    cases hN : u.elaborate d with
    | ok N => rw [hN] at hagrees; exact hagrees.elim
    | error e => rw [hN] at hagrees; exact congrArg Except.error (Eq.symm hagrees)
  obtain ⟨⟨o, m⟩, ha, hm, hfirst⟩ := h.first_fault hfault'
  obtain ⟨owner, hdecl, rfl⟩ := (mem_inOrder h.declared).1 ha
  refine ⟨owner, m, hdecl, h.body_isSome ha hm, h.isolate_error hdecl hm, ?_⟩
  intro owner' m' fault' hdecl' hfault'
  cases hm' : m'.elaborate (u.interface d) (owner'.map ClassDecl.name) with
  | ok M =>
    obtain ⟨rk, -, hrk, -⟩ := h.isolate_ok hdecl' hm'
    rw [hfault'] at hrk
    cases hrk
  | error e =>
    rcases hfirst _ ((mem_inOrder h.declared).2 ⟨owner', hdecl', rfl⟩) ⟨e, hm'⟩ with heq | hbefore
    · exact .inl (congrArg (fun a : Option String × MethodDecl => (a.1, a.2.name)) heq)
    · exact .inr hbefore

/-- **Bodies are resolved independently of each other**, when the first two passes accept the unit. It
is resolved if and only if it is with each of its bodies alone, all others emptied. Otherwise its fault
is that of the first body, in the order of methods, that fails alone. And what each body is resolved
to is, by names, the same in the whole unit and alone. -/
theorem resolve_isolate (hu : u.SignaturesResolve d) :
    ((∃ x, u.resolve d = .ok x) ↔ ∀ owner m, u.Declares owner m → m.body.isSome →
      ∃ x, (u.isolate (m.key owner)).resolve d = .ok x) ∧
    (∀ fault, u.resolve d = .error fault → ∃ owner m, u.Declares owner m ∧ m.body.isSome ∧
      (u.isolate (m.key owner)).resolve d = .error fault ∧
      ∀ owner' m' fault', u.Declares owner' m' →
        (u.isolate (m'.key owner')).resolve d = .error fault' →
        m'.key owner' = m.key owner ∨ (m.key owner).Before (m'.key owner')) ∧
    ∀ rp, u.resolve d = .ok rp → ∀ owner m, u.Declares owner m →
      ∃ rk N Nk M, (u.isolate (m.key owner)).resolve d = .ok rk ∧
        rp.2.named? rp.1 = some N ∧ rk.2.named? rk.1 = some Nk ∧ N.IsMethod (m.key owner) M ∧
        Nk.IsMethod (m.key owner) M ∧ M.body.isSome = m.body.isSome := by
  obtain ⟨classes, h⟩ := hu.signable
  refine ⟨⟨?_, fun hall => ?_⟩, fun fault hfault => h.fails_alone hfault,
    fun rp hrp owner m hm => h.resolved_alone hrp hm⟩
  · rintro ⟨rp, hrp⟩ owner m hm -
    obtain ⟨rk, -, -, -, hrk, -⟩ := h.resolved_alone hrp hm
    exact ⟨rk, hrk⟩
  · cases hx : u.resolve d with
    | ok rp => exact ⟨rp, rfl⟩
    | error fault =>
      obtain ⟨owner, m, hm, hbody, hfault, -⟩ := h.fails_alone hx
      obtain ⟨x, hok⟩ := hall owner m hm hbody
      rw [hfault] at hok
      cases hok

end CompilationUnit

/-- A class with two bodies that are wrong and one that is not, after a function that is wrong too:
```
main() do missing; end
class Box
  value: Integer;
  take(flag: Boolean) do value := flag; end
  put(flag: Boolean) do
    var value: Boolean := flag;
    this.value := value;
  end
  get(): Integer do return value; end
end
``` -/
def Box.unit : CompilationUnit :=
  let sp := Span.nowhere
  let integer := TypeName.named "Integer" sp
  let boolean := TypeName.named "Boolean" sp
  ⟨[.ofFunction ⟨"main", [], none, some (.mk [.expression (.symbol "missing" sp) sp] sp), sp⟩,
    .ofClass ⟨"Box",
      [.field ⟨"value", integer, sp⟩,
       .method ⟨"take", [⟨"flag", boolean, sp⟩], none,
        some (.mk [.assignment (.symbol "value" sp) (.symbol "flag" sp) sp] sp), sp⟩,
       .method ⟨"put", [⟨"flag", boolean, sp⟩], none,
        some (.mk [.varDecl "value" boolean (some (.symbol "flag" sp)) sp,
          .assignment (.member (.this sp) "value" sp) (.symbol "value" sp) sp] sp), sp⟩,
       .method ⟨"get", [], some integer,
        some (.mk [.ret (some (.symbol "value" sp)) sp] sp), sp⟩], sp⟩], sp⟩

theorem exists_result {ε σ α : Type} {r : EStateM.Result ε σ α}
    (h : (match r with | .ok _ _ => true | .error _ _ => false) = true) : ∃ a s, r = .ok a s := by
  cases r with
  | ok a s => exact ⟨a, s, rfl⟩
  | error e s => cases h

set_option maxRecDepth 100000 in
theorem Box.signaturesResolve : Box.unit.SignaturesResolve .standard :=
  exists_result (by decide +kernel)

set_option maxRecDepth 100000 in
theorem Box.resolve_isOk : (Box.unit.resolve .standard).isOk = false := by
  decide +kernel

theorem Box.fails_as_its_first_faulty_body : Box.unit.SignaturesResolve .standard ∧
    ∃ fault, Box.unit.resolve .standard = .error fault ∧
      ∃ owner m, Box.unit.Declares owner m ∧ m.body.isSome ∧
        (Box.unit.isolate (m.key owner)).resolve .standard = .error fault ∧
        ∀ owner' m' fault', Box.unit.Declares owner' m' →
          (Box.unit.isolate (m'.key owner')).resolve .standard = .error fault' →
          m'.key owner' = m.key owner ∨ (m.key owner).Before (m'.key owner') := by
  obtain ⟨fault, hfault⟩ := exists_error Box.resolve_isOk
  obtain ⟨-, hfirst, -⟩ := CompilationUnit.resolve_isolate Box.signaturesResolve
  exact ⟨Box.signaturesResolve, fault, hfault, hfirst fault hfault⟩

end ClassLang
