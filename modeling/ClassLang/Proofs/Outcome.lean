import ClassLang.Program.Resolver

/-!
# What a run leads to

A computation that may fail is described by two conditions: one on its answer (and the state it
leaves), and one on its fault.

* `Yields x Q E`: the answer `x` satisfies `Q`, or it is a fault that satisfies `E`.
* `Leads m s Q E`: run from the state `s`, `m` ends with an answer and a state that satisfy `Q`, or
  with a fault that satisfies `E`.

The fault of a program that breaks a rule is described by `Refused`: it is not internal, and the
rule is indeed broken.

`Leads.seq` follows a sequence step by step, `Leads.foldlM` and `Leads.mapM` go through a list with
an invariant on the part that has been passed.
-/

namespace ClassLang

variable {α β ε σ : Type}

/-- Where a sequence of two steps has an answer, both steps have one. -/
theorem exists_of_bind_eq_ok {x : Except ε α} {k : α → Except ε β} {b : β} (h : x >>= k = .ok b) :
    ∃ a, x = .ok a ∧ k a = .ok b := by
  cases x with
  | ok a => exact ⟨a, rfl, h⟩
  | error f => cases h

/-- The answer satisfies `Q`, or the fault satisfies `E`. -/
def Yields (x : Except ε α) (Q : α → Prop) (E : ε → Prop) : Prop :=
  match x with
  | .ok a => Q a
  | .error f => E f

namespace Yields

variable {x : Except ε α} {k : α → Except ε β} {Q Q' : α → Prop} {R : β → Prop} {E E' : ε → Prop}
  {a : α}

theorem ok (h : Q a) : Yields (.ok a : Except ε α) Q E := h

theorem pure (h : Q a) : Yields (Pure.pure a : Except ε α) Q E := h

theorem error {f : ε} (h : E f) : Yields (.error f : Except ε α) Q E := h

theorem throw {f : ε} (h : E f) : Yields (MonadExcept.throw f : Except ε α) Q E := h

/-- What yields only one answer is that answer. -/
theorem eq_ok (h : Yields x (fun b => b = a) fun _ => False) : x = .ok a := by
  cases x with
  | ok b => exact congrArg _ h
  | error f => exact h.elim

theorem imp (h : Yields x Q E) (hQ : ∀ a, Q a → Q' a) (hE : ∀ f, E f → E' f) :
    Yields x Q' E' := by
  cases x with
  | ok a => exact hQ a h
  | error f => exact hE f h

theorem post (h : Yields x Q E) (hQ : ∀ a, Q a → Q' a) : Yields x Q' E := h.imp hQ fun _ hf => hf

/-- A sequence whose first step may have faults of another kind. -/
theorem seq_imp (h : Yields x Q E) (hE : ∀ f, E f → E' f) (hk : ∀ a, Q a → Yields (k a) R E') :
    Yields (x >>= k) R E' := by
  cases x with
  | ok a => exact hk a h
  | error f => exact hE f h

theorem seq (h : Yields x Q E) (hk : ∀ a, Q a → Yields (k a) R E) : Yields (x >>= k) R E :=
  h.seq_imp (fun _ hf => hf) hk

/-- A sequence whose first step has no faults. -/
theorem sure_seq (h : Yields x Q fun _ => False) (hk : ∀ a, Q a → Yields (k a) R E) :
    Yields (x >>= k) R E := h.seq_imp (fun _ => False.elim) hk

theorem map {g : α → β} (h : Yields x (fun a => R (g a)) E) : Yields (g <$> x) R E := by
  cases x with
  | ok a => exact h
  | error f => exact h

theorem of_forall (h : ∀ a, Q a) : Yields x Q fun _ => True := by
  cases x with
  | ok a => exact h a
  | error f => trivial

theorem known : Yields x (fun a => x = .ok a) fun _ => True := by
  cases x with
  | ok a => rfl
  | error f => trivial

theorem of_ok (h : Yields x Q E) (hx : x = .ok a) : Q a := by
  rw [hx] at h
  exact h

/-- A step whose answer does not matter. -/
theorem any_seq (hk : ∀ a, Yields (k a) R fun _ => True) : Yields (x >>= k) R fun _ => True :=
  (of_forall (Q := fun _ => True) fun _ => trivial).seq fun a _ => hk a

theorem ite {c : Prop} [Decidable c] {y : Except ε α} (h : Yields x Q E) (h' : Yields y Q E) :
    Yields (if c then x else y) Q E := by
  split
  · exact h
  · exact h'

/-- A sequence whose first answer is known. -/
theorem bind_ok (hx : x = .ok a) (h : Yields (k a) R E) : Yields (x >>= k) R E := by
  rw [hx]; exact h

end Yields

/-! ## Runs with a state -/

/-- Going through a list for its effects is going through it for its answers and leaving them. -/
theorem forM_eq_mapM {m : Type → Type} [Monad m] [LawfulMonad m] (f : α → m PUnit) (l : List α) :
    l.forM f = (fun _ => ⟨⟩) <$> l.mapM f := by
  induction l with
  | nil => simp
  | cons a l ih =>
    rw [List.mapM_cons, map_bind]
    refine congrArg (f a >>= ·) (funext fun _ => ?_)
    show l.forM f = _
    rw [ih, map_bind, map_eq_pure_bind]
    simp only [map_pure]

section Runs

variable {m : EStateM ε σ α} {k : α → EStateM ε σ β} {s s' : σ}

theorem get_bind_apply {k : σ → EStateM ε σ α} : (get >>= k) s = k s s := rfl

theorem bind_of_ok {a : α} (h : m s = .ok a s') : (m >>= k) s = k a s' := by
  show EStateM.bind m k s = _
  unfold EStateM.bind
  rw [h]

theorem bind_of_error {f : ε} (h : m s = .error f s') : (m >>= k) s = .error f s' := by
  show EStateM.bind m k s = _
  unfold EStateM.bind
  rw [h]

end Runs

/-- Run from `s`, the answer and the state left satisfy `Q`, or the fault satisfies `E`. -/
def Leads (m : EStateM ε σ α) (s : σ) (Q : α → σ → Prop) (E : ε → Prop) : Prop :=
  match m s with
  | .ok a s' => Q a s'
  | .error f _ => E f

/-- Run from `s`, the answer and the state left satisfy `Q`, if there is one. -/
abbrev Gives (m : EStateM ε σ α) (s : σ) (Q : α → σ → Prop) : Prop := Leads m s Q fun _ => True

namespace Leads

variable {m : EStateM ε σ α} {k : α → EStateM ε σ β} {s : σ} {Q Q' : α → σ → Prop}
  {R : β → σ → Prop} {E E' : ε → Prop}

theorem pure {a : α} (h : Q a s) : Leads (Pure.pure a : EStateM ε σ α) s Q E := h

theorem imp (h : Leads m s Q E) (hQ : ∀ a s', Q a s' → Q' a s') (hE : ∀ f, E f → E' f) :
    Leads m s Q' E' := by
  unfold Leads at *
  cases hm : m s with
  | ok a s' => rw [hm] at h; exact hQ a s' h
  | error f s' => rw [hm] at h; exact hE f h

theorem post (h : Leads m s Q E) (hQ : ∀ a s', Q a s' → Q' a s') : Leads m s Q' E :=
  h.imp hQ fun _ hf => hf

theorem gives (h : Leads m s Q E) (hQ : ∀ a s', Q a s' → Q' a s') : Gives m s Q' :=
  h.imp hQ fun _ _ => trivial

/-- A sequence whose first step may have faults of another kind. -/
theorem seq_imp (h : Leads m s Q E) (hE : ∀ f, E f → E' f)
    (hk : ∀ a s', Q a s' → Leads (k a) s' R E') : Leads (m >>= k) s R E' := by
  unfold Leads at h ⊢
  simp only [bind, EStateM.bind]
  cases hm : m s with
  | ok a s' => rw [hm] at h; exact hk a s' h
  | error f s' => rw [hm] at h; exact hE f h

/-- **A sequence**, from what its first step leads to. -/
theorem seq (h : Leads m s Q E) (hk : ∀ a s', Q a s' → Leads (k a) s' R E) :
    Leads (m >>= k) s R E := h.seq_imp (fun _ hf => hf) hk

/-- A sequence whose first step has no faults. -/
theorem sure_seq (h : Leads m s Q fun _ => False) (hk : ∀ a s', Q a s' → Leads (k a) s' R E) :
    Leads (m >>= k) s R E := h.seq_imp (fun _ => False.elim) hk

theorem map {g : α → β} (h : Leads m s (fun a s' => R (g a) s') E) : Leads (g <$> m) s R E := by
  unfold Leads at h ⊢
  simp only [Functor.map, EStateM.map]
  cases hm : m s with
  | ok a s' => rw [hm] at h; exact h
  | error f s' => rw [hm] at h; exact h

/-- Two descriptions of one run. -/
theorem and (h : Leads m s Q E) (h' : Leads m s Q' E') :
    Leads m s (fun a s' => Q a s' ∧ Q' a s') E := by
  unfold Leads at *
  cases hm : m s with
  | ok a s' => rw [hm] at h h'; exact ⟨h, h'⟩
  | error f s' => rw [hm] at h; exact h

theorem runs : Gives m s (fun a s' => m s = .ok a s') := by
  unfold Gives Leads
  cases m s with
  | ok a s' => rfl
  | error f s' => trivial

theorem of_run_ok {a : α} {s' : σ} (hm : m s = .ok a s') (h : Q a s') : Leads m s Q E := by
  unfold Leads
  rw [hm]
  exact h

theorem of_run_error {f : ε} {s' : σ} (hm : m s = .error f s') (h : E f) : Leads m s Q E := by
  unfold Leads
  rw [hm]
  exact h

theorem of_ok {a : α} {s' : σ} (h : Leads m s Q E) (hm : m s = .ok a s') : Q a s' := by
  unfold Leads at h
  rw [hm] at h
  exact h

/-- A run succeeds if and only if `P` holds, when its answers and its faults tell. -/
theorem succeeds_iff {P : Prop} (h : Leads m s (fun _ _ => P) fun _ => ¬ P) :
    (∃ a s', m s = .ok a s') ↔ P := by
  unfold Leads at h
  cases hm : m s with
  | ok a s' => rw [hm] at h; exact iff_of_true ⟨a, s', rfl⟩ h
  | error f s' => rw [hm] at h; exact iff_of_false nofun h

theorem of_forall (h : ∀ a s', Q a s') : Gives m s Q := by
  unfold Gives Leads
  cases m s with
  | ok a s' => exact h a s'
  | error f s' => trivial

theorem get_seq {k : σ → EStateM ε σ β} (h : Leads (k s) s R E) : Leads (get >>= k) s R E := h

theorem modify {g : σ → σ} {Q : PUnit → σ → Prop} (h : Q ⟨⟩ (g s)) :
    Leads (modify g : EStateM ε σ PUnit) s Q E := h

/-- Through a list from the left, with an invariant on the part that has been passed. -/
theorem foldlM {γ : Type} {f : β → γ → EStateM ε σ β} {l : List γ} {b : β}
    (I : List γ → β → σ → Prop) (h0 : I [] b s)
    (step : ∀ pre a post b s, l = pre ++ a :: post → I pre b s →
      Leads (f b a) s (fun b' s' => I (pre ++ [a]) b' s') E) : Leads (l.foldlM f b) s (I l) E := by
  -- the invariant is carried from `pre` to `pre ++ post`, whatever has been passed before
  suffices h : ∀ post pre b s, l = pre ++ post → I pre b s → Leads (post.foldlM f b) s (I l) E from
    h l [] b s rfl h0
  intro post
  induction post with
  | nil =>
    intro pre b s hl hI
    rw [List.append_nil] at hl
    subst hl
    exact Leads.pure hI
  | cons a post ih =>
    intro pre b s hl hI
    rw [List.foldlM_cons]
    refine (step pre a post b s hl hI).seq fun b' s' hI' => ?_
    exact ih (pre ++ [a]) b' s' (by rw [hl, List.append_assoc]; rfl) hI'

/-- Through a list from the left, with the answers so far. -/
theorem mapM {γ : Type} {f : γ → EStateM ε σ β} {l : List γ} (I : List γ → List β → σ → Prop)
    (h0 : I [] [] s) (step : ∀ pre a post bs s, l = pre ++ a :: post → I pre bs s →
      Leads (f a) s (fun b s' => I (pre ++ [a]) (bs ++ [b]) s') E) :
    Leads (l.mapM f) s (I l) E := by
  suffices h : ∀ post pre bs s, l = pre ++ post → I pre bs s →
      Leads (post.mapM f) s (fun cs => I l (bs ++ cs)) E from h l [] [] s rfl h0
  intro post
  induction post with
  | nil =>
    intro pre bs s hl hI
    rw [List.append_nil] at hl
    subst hl
    rw [List.mapM_nil]
    exact Leads.pure (by rwa [List.append_nil])
  | cons a post ih =>
    intro pre bs s hl hI
    rw [List.mapM_cons]
    refine (step pre a post bs s hl hI).seq fun b s' hI' => ?_
    refine (ih (pre ++ [a]) (bs ++ [b]) s' (by rw [hl, List.append_assoc]; rfl) hI').seq
      fun cs s'' hcs => Leads.pure ?_
    rw [List.append_assoc] at hcs
    exact hcs

/-- Through a list from the left for its effects alone. -/
theorem forM {γ : Type} {f : γ → EStateM ε σ PUnit} {l : List γ} (I : List γ → σ → Prop)
    (h0 : I [] s) (step : ∀ pre a post s, l = pre ++ a :: post → I pre s →
      Leads (f a) s (fun _ s' => I (pre ++ [a]) s') E) : Leads (l.forM f) s (fun _ => I l) E := by
  rw [forM_eq_mapM]
  exact map (mapM (fun pre _ => I pre) h0 fun pre a post _ => step pre a post)

end Leads

/-- A fault of the program, not of the resolver, and one that shows that `P` fails. -/
def Refused (P : Prop) (f : Diagnostic) : Prop := f.cause.isInternal = false ∧ ¬ P

theorem Refused.imp {P P' : Prop} {f : Diagnostic} (h : Refused P f) (hP : P' → P) :
    Refused P' f := ⟨h.1, fun h' => h.2 (hP h')⟩

namespace Resolve

variable {s : Resolver} {E : Diagnostic → Prop} {f : Resolver → Except Diagnostic α}

theorem ask_of_ok {a : α} (h : f s = .ok a) : ask f s = .ok a s := by
  unfold ask
  rw [get_bind_apply, h]
  rfl

theorem ask_of_error {d : Diagnostic} (h : f s = .error d) : ask f s = .error d s := by
  unfold ask
  rw [get_bind_apply, h]
  rfl

theorem ask_bind {k : α → Resolve β} {a : α} (h : f s = .ok a) :
    (ask f >>= k) s = k a s := bind_of_ok (ask_of_ok h)

theorem ask_of_eq {x : Except Diagnostic α} (h : f s = x) : ask f s = ask (fun _ => x) s := by
  unfold ask
  rw [get_bind_apply, get_bind_apply, h]

theorem ask_leads {Q : α → Resolver → Prop} (h : Yields (f s) (fun a => Q a s) E) :
    Leads (ask f) s Q E := by
  unfold ask
  apply Leads.get_seq
  unfold Yields at h
  cases hf : f s with
  | ok a => rw [hf] at h; exact h
  | error d => rw [hf] at h; exact h

section

variable {f : Resolver → Except Diagnostic α} {k : α → Resolve β} {Q : α → Prop}
  {R : β → Resolver → Prop} {E' : Diagnostic → Prop}

/-- A question to the state that may have faults of another kind, and what follows it. -/
theorem ask_seq_imp (h : Yields (f s) Q E) (hE : ∀ d, E d → E' d)
    (hk : ∀ a, Q a → Leads (k a) s R E') : Leads (ask f >>= k) s R E' := by
  refine (ask_leads (Q := fun a s' => s' = s ∧ Q a) (h.post fun _ ha => ⟨rfl, ha⟩)).seq_imp hE ?_
  rintro a _ ⟨rfl, ha⟩
  exact hk a ha

/-- A question to the state, and what follows it. -/
theorem ask_seq (h : Yields (f s) Q E) (hk : ∀ a, Q a → Leads (k a) s R E) :
    Leads (ask f >>= k) s R E := ask_seq_imp h (fun _ hf => hf) hk

/-- A question to the state that has an answer, and what follows it. -/
theorem ask_sure (h : Yields (f s) Q fun _ => False) (hk : ∀ a, Q a → Leads (k a) s R E) :
    Leads (ask f >>= k) s R E := ask_seq_imp h (fun _ => False.elim) hk

/-- A question whose answer does not matter. -/
theorem ask_any (hk : ∀ a, Gives (k a) s R) : Gives (ask f >>= k) s R :=
  ask_seq (Q := fun _ => True) (.of_forall fun _ => trivial) fun a _ => hk a

end

theorem refuse_leads {cause : Cause} {span : Span} {Q : α → Resolver → Prop}
    (h : E ⟨cause, span⟩) : Leads (refuse cause span) s Q E := h

theorem updateProgram_leads {f : Program → Except Diagnostic Program} {Q : Unit → Resolver → Prop}
    (h : Yields (f s.program) (fun p => Q () { s with program := p }) E) :
    Leads (updateProgram f) s Q E := by
  unfold updateProgram
  refine (ask_leads (Q := fun p s' => s' = s ∧ Q () { s with program := p })
    (h.post fun _ hp => ⟨rfl, hp⟩)).seq ?_
  rintro p s' ⟨rfl, hp⟩
  exact Leads.modify hp

end Resolve

end ClassLang
