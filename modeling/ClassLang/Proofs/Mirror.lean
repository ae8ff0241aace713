import ClassLang.Proofs.Outcome

/-!
# Two computations that mirror each other

A computation with a state and one without are compared step by step.

* `Agrees R a b`: both give answers, which `R` relates, or both give the same fault.
* `Mirrors m s R b`: the same of `m` run from the state `s`; the relation also sees the state that
  the run leaves.

`Mirrors.seq` goes through both of them in step, and `Mirrors.mapM` through a list; without a state,
what is done for a member of the list may depend on those before it (`inTurn`). What else is known of
the run is added with `Mirrors.and`.
-/

namespace ClassLang

variable {α β γ δ ε σ : Type}

/-- **The same fault, or related answers.** -/
def Agrees (R : α → β → Prop) (a : Except ε α) (b : Except ε β) : Prop :=
  match a, b with
  | .ok x, .ok y => R x y
  | .error f, .error f' => f = f'
  | _, _ => False

namespace Agrees

variable {R R' : α → β → Prop} {S : γ → δ → Prop} {a : Except ε α} {b : Except ε β}
  {k : α → Except ε γ} {l : β → Except ε δ}

theorem ok {x : α} {y : β} (h : R x y) : Agrees R (.ok x : Except ε α) (.ok y) := h

theorem error {f : ε} : Agrees R (.error f : Except ε α) (.error f) := rfl

theorem imp (h : Agrees R a b) (hR : ∀ x y, R x y → R' x y) : Agrees R' a b := by
  cases a <;> cases b
  · exact h
  · exact h
  · exact h
  · exact hR _ _ h

/-- **A sequence**, from what its first steps agree on. -/
theorem seq (h : Agrees R a b) (hk : ∀ x y, R x y → Agrees S (k x) (l y)) :
    Agrees S (a >>= k) (b >>= l) := by
  cases a <;> cases b
  · exact h
  · exact h.elim
  · exact h.elim
  · exact hk _ _ h

theorem map {g : α → γ} {g' : β → δ} (h : Agrees (fun x y => S (g x) (g' y)) a b) :
    Agrees S (g <$> a) (g' <$> b) := by
  cases a <;> cases b
  · exact h
  · exact h.elim
  · exact h.elim
  · exact h

theorem trans {T : β → γ → Prop} {c : Except ε γ} (h : Agrees R a b) (h' : Agrees T b c) :
    Agrees (fun x z => ∃ y, R x y ∧ T y z) a c := by
  cases a <;> cases b <;> cases c
  · exact Eq.trans h h'
  · exact h'
  · exact h.elim
  · exact h.elim
  · exact h.elim
  · exact h.elim
  · exact h'.elim
  · exact ⟨_, h, h'⟩

/-- What agrees with an answer is an answer, -/
theorem eq_ok {y : β} (h : Agrees R a (.ok y)) : ∃ x, a = .ok x ∧ R x y := by
  cases a with
  | ok x => exact ⟨x, rfl, h⟩
  | error f => exact h.elim

/-- and what agrees with a fault is that fault. -/
theorem eq_error {f : ε} (h : Agrees R a (.error f)) : a = .error f := by
  cases a with
  | ok x => exact h.elim
  | error f' => exact congrArg Except.error h

/-- A first step whose answer is known. -/
theorem bind_ok {x : α} {c : Except ε δ} (hx : a = .ok x) (h : Agrees S (k x) c) :
    Agrees S (a >>= k) c := by
  rw [hx]; exact h

end Agrees

/-- **The same fault, or related answers**, where one side runs from a state. -/
def Mirrors (m : EStateM ε σ α) (s : σ) (R : α → σ → β → Prop) (b : Except ε β) : Prop :=
  match m s, b with
  | .ok x s', .ok y => R x s' y
  | .error f _, .error f' => f = f'
  | _, _ => False

namespace Mirrors

variable {m : EStateM ε σ α} {s : σ} {R R' : α → σ → β → Prop} {S : γ → σ → δ → Prop}
  {b : Except ε β} {k : α → EStateM ε σ γ} {l : β → Except ε δ} {Q : α → σ → Prop} {E : ε → Prop}

theorem pure {x : α} {y : β} (h : R x s y) :
    Mirrors (Pure.pure x : EStateM ε σ α) s R (.ok y) := h

theorem throw {f : ε} : Mirrors (MonadExcept.throw f : EStateM ε σ α) s R (.error f) := rfl

theorem imp (h : Mirrors m s R b) (hR : ∀ x s' y, R x s' y → R' x s' y) : Mirrors m s R' b := by
  unfold Mirrors at *
  cases hm : m s <;> cases b <;> rw [hm] at h
  · exact h
  · exact hR _ _ _ h
  · exact h
  · exact h

/-- **A sequence**: both sides go on in step. -/
theorem seq (h : Mirrors m s R b) (hk : ∀ x s' y, R x s' y → Mirrors (k x) s' S (l y)) :
    Mirrors (m >>= k) s S (b >>= l) := by
  unfold Mirrors at h ⊢
  simp only [bind, EStateM.bind]
  cases hm : m s <;> cases b <;> rw [hm] at h
  · exact h.elim
  · exact hk _ _ _ h
  · exact h
  · exact h.elim

theorem map {g : α → γ} {g' : β → δ} (h : Mirrors m s (fun x s' y => S (g x) s' (g' y)) b) :
    Mirrors (g <$> m) s S (g' <$> b) := by
  unfold Mirrors at h ⊢
  simp only [Functor.map, EStateM.map]
  cases hm : m s <;> cases b <;> rw [hm] at h
  · exact h
  · exact h
  · exact h
  · exact h

/-- What else a run leads to. -/
theorem and (h : Mirrors m s R b) (hm : Leads m s Q E) :
    Mirrors m s (fun x s' y => Q x s' ∧ R x s' y) b := by
  unfold Mirrors at *
  unfold Leads at hm
  cases hs : m s <;> cases b <;> rw [hs] at h hm
  · exact h
  · exact ⟨hm, h⟩
  · exact h
  · exact h

/-- A run that cannot fail and has nothing to mirror. -/
theorem leads_seq {c : Except ε δ} (h : Leads m s Q fun _ => False)
    (hk : ∀ x s', Q x s' → Mirrors (k x) s' S c) : Mirrors (m >>= k) s S c := by
  unfold Leads at h
  unfold Mirrors
  simp only [bind, EStateM.bind]
  cases hm : m s with
  | ok x s' => rw [hm] at h; exact hk x s' h
  | error f s' => rw [hm] at h; exact h.elim

/-- A run that cannot fail, as the last step. -/
theorem of_leads {y : β} (h : Leads m s (fun x s' => R x s' y) fun _ => False) :
    Mirrors m s R (.ok y) := by
  unfold Leads at h
  unfold Mirrors
  cases hm : m s with
  | ok x s' => rw [hm] at h; exact h
  | error f s' => rw [hm] at h; exact h.elim

/-- A run that can only fail. -/
theorem fails_seq {f : ε} (h : Leads m s (fun _ _ => False) fun f' => f' = f) :
    Mirrors (m >>= k) s S (.error f) := by
  unfold Leads at h
  unfold Mirrors
  simp only [bind, EStateM.bind]
  cases hm : m s with
  | ok x s' => rw [hm] at h; exact h.elim
  | error f' s' => rw [hm] at h; exact h

/-- What the run leads to, when the answer of the other side is known. -/
theorem leads (h : Mirrors m s R b) :
    Leads m s (fun x s' => ∃ y, b = .ok y ∧ R x s' y) fun f => b = .error f := by
  unfold Mirrors at h
  unfold Leads
  cases hm : m s <;> cases b <;> rw [hm] at h
  · exact h.elim
  · exact ⟨_, rfl, h⟩
  · exact congrArg Except.error h.symm
  · exact h.elim

/-- Both sides apart: where one has an answer the run cannot fail, and a fault of one is that of the
run. -/
theorem of_cases (hok : ∀ y, b = .ok y → Leads m s (fun x s' => R x s' y) fun _ => False)
    (herror : ∀ f, b = .error f → Leads m s (fun _ _ => False) fun f' => f' = f) :
    Mirrors m s R b := by
  cases b with
  | ok y => exact of_leads (hok y rfl)
  | error f =>
    rw [← bind_pure m]
    exact fails_seq (herror f rfl)

/-- The answer that the run mirrors. -/
theorem known (h : Mirrors m s R b) : Mirrors m s (fun x s' y => b = .ok y ∧ R x s' y) b := by
  unfold Mirrors at *
  cases hm : m s <;> cases b <;> rw [hm] at h
  · exact h
  · exact ⟨rfl, h⟩
  · exact h
  · exact h

end Mirrors

/-- Things in turn, each after those before it. -/
def inTurn (f : List α → α → Except ε β) : List α → List α → Except ε (List β)
  | _, [] => .ok []
  | before, a :: rest => do
    let b ← f before a
    let bs ← inTurn f (before ++ [a]) rest
    return b :: bs

theorem inTurn_const (f : α → Except ε β) (before l : List α) :
    inTurn (fun _ => f) before l = l.mapM f := by
  induction l generalizing before with
  | nil => rfl
  | cons a l ih =>
    rw [List.mapM_cons, inTurn]
    exact congrArg (f a >>= ·) (funext fun b => by rw [ih])

namespace Mirrors

/-- **Through a list from the left**, with an invariant on the part that has been passed and the
answers so far. -/
theorem mapM {f : α → EStateM ε σ γ} {q : α → β} {g : List β → β → Except ε δ} {l : List α} {s : σ}
    (I : List α → List γ → List δ → σ → Prop) (h₀ : I [] [] [] s)
    (step : ∀ pre a post xs ys s, l = pre ++ a :: post → I pre xs ys s →
      Mirrors (f a) s (fun x s' y => I (pre ++ [a]) (xs ++ [x]) (ys ++ [y]) s')
        (g (pre.map q) (q a))) :
    Mirrors (l.mapM f) s (fun xs s' ys => I l xs ys s') (inTurn g [] (l.map q)) := by
  suffices h : ∀ post pre xs ys s, l = pre ++ post → I pre xs ys s →
      Mirrors (post.mapM f) s (fun xs' s' ys' => I l (xs ++ xs') (ys ++ ys') s')
        (inTurn g (pre.map q) (post.map q)) from h l [] [] [] s rfl h₀
  intro post
  induction post with
  | nil =>
    intro pre xs ys s hl hI
    rw [List.append_nil] at hl
    subst hl
    rw [List.mapM_nil]
    exact Mirrors.pure (by rwa [List.append_nil, List.append_nil])
  | cons a post ih =>
    intro pre xs ys s hl hI
    rw [List.mapM_cons, List.map_cons, inTurn]
    refine (step pre a post xs ys s hl hI).seq fun x s' y hI' => ?_
    have rest := ih (pre ++ [a]) (xs ++ [x]) (ys ++ [y]) s' (by rw [hl, List.append_assoc]; rfl) hI'
    rw [List.map_append, List.map_singleton] at rest
    refine rest.seq fun xs' s'' ys' hI'' => Mirrors.pure ?_
    rw [List.append_assoc, List.append_assoc] at hI''
    exact hI''

/-- The same, where the run gives no answers. -/
theorem forM {f : α → EStateM ε σ PUnit} {q : α → β} {g : List β → β → Except ε δ} {l : List α}
    {s : σ} (I : List α → List δ → σ → Prop) (h₀ : I [] [] s)
    (step : ∀ pre a post ys s, l = pre ++ a :: post → I pre ys s →
      Mirrors (f a) s (fun _ s' y => I (pre ++ [a]) (ys ++ [y]) s') (g (pre.map q) (q a))) :
    Mirrors (l.forM f) s (fun _ s' ys => I l ys s') (inTurn g [] (l.map q)) := by
  rw [forM_eq_mapM, ← id_map (inTurn g [] _)]
  exact map (mapM (fun pre _ => I pre) h₀ fun pre a post _ => step pre a post)

end Mirrors

namespace Resolve

variable {s : Resolver} {R : α → β → Prop} {b : Except Diagnostic β}
  {f : Resolver → Except Diagnostic α}

theorem ask_mirrors (h : Agrees R (f s) b) :
    Mirrors (ask f) s (fun x s' y => s' = s ∧ R x y) b := by
  unfold Mirrors
  unfold Agrees at h
  cases hf : f s with
  | error d =>
    rw [hf] at h
    rw [ask_of_error hf]
    cases b with
    | error e => exact h
    | ok y => exact h
  | ok a =>
    rw [hf] at h
    rw [ask_of_ok hf]
    cases b with
    | error e => exact h
    | ok y => exact ⟨rfl, h⟩

/-- A question to the state, and what follows it. -/
theorem ask_mirrors_seq {k : α → Resolve γ} {l : β → Except Diagnostic δ}
    {S : γ → Resolver → δ → Prop} (h : Agrees R (f s) b)
    (hk : ∀ x y, R x y → Mirrors (k x) s S (l y)) : Mirrors (ask f >>= k) s S (b >>= l) := by
  refine (ask_mirrors h).seq ?_
  rintro x _ y ⟨rfl, hxy⟩
  exact hk x y hxy

/-- A question whose answer is known. -/
theorem ask_ok_seq {a : α} {k : α → Resolve γ} {S : γ → Resolver → δ → Prop}
    {c : Except Diagnostic δ} (hf : f s = .ok a) (h : Mirrors (k a) s S c) :
    Mirrors (ask f >>= k) s S c := by
  refine Mirrors.leads_seq (Q := fun x s' => x = a ∧ s' = s) (ask_leads ?_) ?_
  · rw [hf]; exact Yields.ok ⟨rfl, rfl⟩
  · rintro _ _ ⟨rfl, rfl⟩; exact h

end Resolve

end ClassLang
