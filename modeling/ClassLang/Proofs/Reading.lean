import ClassLang.Proofs.Print

/-!
# Reading words back

A cursor shows the words that are still to be read (`Cursor.Shows`). A reader takes some words if it
succeeds on them and leaves the cursor right behind them (`Parse.Reads`), whatever spans the tokens
have; what comes after the words may be restricted, since many readers look at it before they stop.

The steps of readers are followed one by one (`expect_seq`, `advance_seq`, ...). The two loops of
the language, lists divided by commas and repetitions, are treated once and for all
(`listed_reads`, `many_reads`), and so are types (`TypeName.parse_reads`).
-/

namespace ClassLang

variable {P : Token.Kind → Prop} {w : List Word}

/-- The words that are still to be read: there is at least one. -/
def Cursor.Shows (c : Cursor) (w : List Word) : Prop :=
  c.past = false ∧ (c.current :: c.ahead).map Token.word = w

/-- The next of some words has a kind that satisfies `P`. -/
def Next (P : Token.Kind → Prop) (w : List Word) : Prop := ∃ x xs, w = x :: xs ∧ P x.1

theorem Next.ne_nil (h : Next P w) : w ≠ [] := by
  obtain ⟨x, xs, rfl, -⟩ := h
  exact List.cons_ne_nil x xs

theorem Next.imp {Q : Token.Kind → Prop} (h : Next P w) (hPQ : ∀ k, P k → Q k) : Next Q w := by
  obtain ⟨x, xs, rfl, hx⟩ := h
  exact ⟨x, xs, rfl, hPQ _ hx⟩

theorem Next.append (h : Next P w) (w' : List Word) : Next P (w ++ w') := by
  obtain ⟨x, xs, rfl, hx⟩ := h
  exact ⟨x, xs ++ w', rfl, hx⟩

theorem Next.cons {x : Word} {xs : List Word} (h : P x.1) : Next P (x :: xs) := ⟨x, xs, rfl, h⟩

namespace Cursor.Shows

variable {c : Cursor} {x y : Word} {w : List Word}

theorem word (h : c.Shows (x :: w)) : c.current.word = x := by
  have hmap := h.2
  rw [List.map_cons] at hmap
  exact (List.cons.inj hmap).1

theorem kind (h : c.Shows (x :: w)) : c.current.kind = x.1 := congrArg Prod.fst h.word

theorem next_kind (h : c.Shows w) (hw : Next P w) : P c.current.kind := by
  obtain ⟨x, xs, rfl, hx⟩ := hw
  rw [h.kind]
  exact hx

theorem peek (h : c.Shows (x :: y :: w)) : c.peek = y.1 := by
  obtain ⟨t, ahead, past, stop, size, fits⟩ := c
  cases ahead with
  | nil => simp [Shows] at h
  | cons u us =>
    have hmap := h.2
    simp only [List.map_cons, List.cons.injEq] at hmap
    exact congrArg Prod.fst hmap.2.1

theorem peek_next (h : c.Shows (x :: w)) (hw : Next P w) : P c.peek := by
  obtain ⟨y, ys, rfl, hy⟩ := hw
  rw [h.peek]
  exact hy

/-- Reading a token that is not the last. -/
theorem next (h : c.Shows (x :: w)) (hw : w ≠ []) : c.next.Shows w := by
  obtain ⟨t, ahead, past, stop, size, fits⟩ := c
  have hmap := h.2
  rw [List.map_cons, List.cons.injEq] at hmap
  cases ahead with
  | nil => exact absurd hmap.2.symm hw
  | cons u us => exact ⟨h.1, hmap.2⟩

/-- There are always more steps allowed than there are words. -/
theorem length_lt (h : c.Shows w) : w.length < c.allowance := by
  have hlen : c.ahead.length + 1 = w.length := by
    rw [← h.2, List.length_map, List.length_cons]
  have hfits := c.fits
  unfold allowance
  omega

end Cursor.Shows

namespace Parse

variable {α β γ : Type} {c : Cursor} {w rest : List Word} {x : Word} {Q : α → Prop} {m : Parse α}
  {R : β → Prop}

/-- From `c`, the reader gives something that satisfies `Q`, and `rest` is left to be read. -/
def Takes (m : Parse α) (c : Cursor) (rest : List Word) (Q : α → Prop) : Prop :=
  ∃ a c', m c = .ok a c' ∧ c'.Shows rest ∧ Q a

/-- **The reader takes the words `w`** if what comes after them satisfies `F`. -/
def Reads (m : Parse α) (w : List Word) (F : List Word → Prop) (Q : α → Prop) : Prop :=
  ∀ c rest, c.Shows (w ++ rest) → F rest → m.Takes c rest Q

/-! ## Step by step -/

theorem Takes.pure {a : α} (hc : c.Shows rest) (ha : Q a) :
    Takes (Pure.pure a : Parse α) c rest Q := ⟨a, c, rfl, hc, ha⟩

/-- A sequence whose first step is known goes on with the second. -/
theorem bind_eq {k : α → Parse β} {a : α} {c' : Cursor} (h : m c = .ok a c') :
    (m >>= k) c = k a c' := by
  show EStateM.bind m k c = _
  unfold EStateM.bind
  rw [h]

theorem Takes.seq {k : α → Parse β} {rest' : List Word} (h : m.Takes c rest Q)
    (hk : ∀ a c', c'.Shows rest → Q a → (k a).Takes c' rest' R) : (m >>= k).Takes c rest' R := by
  obtain ⟨a, c₁, hm, hc₁, ha⟩ := h
  obtain ⟨b, c₂, hb, hc₂, hR⟩ := hk a c₁ hc₁ ha
  exact ⟨b, c₂, (bind_eq hm).trans hb, hc₂, hR⟩

theorem Takes.map {f : α → β} (h : m.Takes c rest fun a => R (f a)) : (f <$> m).Takes c rest R := by
  obtain ⟨a, c', hm, hc', ha⟩ := h
  refine ⟨f a, c', ?_, hc', ha⟩
  show EStateM.map f m c = _
  unfold EStateM.map
  rw [hm]

theorem Takes.imp {Q' : α → Prop} (h : m.Takes c rest Q) (hQ : ∀ a, Q a → Q' a) :
    m.Takes c rest Q' := by
  obtain ⟨a, c', hm, hc', ha⟩ := h
  exact ⟨a, c', hm, hc', hQ a ha⟩

theorem get_seq {k : Cursor → Parse β} (h : (k c).Takes c rest R) : (get >>= k).Takes c rest R := h

theorem kind_seq {k : Token.Kind → Parse β} (h : (k c.current.kind).Takes c rest R) :
    (kind >>= k).Takes c rest R := h

theorem spanFrom_seq {start : Position} {k : Span → Parse β} (h : ∀ sp, (k sp).Takes c rest R) :
    (spanFrom start >>= k).Takes c rest R :=
  h (c.spanFrom start)

theorem advance_seq {k : Token → Parse β} (hc : c.Shows (x :: w)) (hw : w ≠ [])
    (h : ∀ t c', t.word = x → c'.Shows w → (k t).Takes c' rest R) :
    (advance >>= k).Takes c rest R :=
  h c.current c.next hc.word (hc.next hw)

theorem expect_seq {l : Token.Kind} {k : Token → Parse β} (hc : c.Shows (x :: w)) (hl : x.1 = l)
    (hw : w ≠ []) (h : ∀ t c', t.word = x → c'.Shows w → (k t).Takes c' rest R) :
    (expect l >>= k).Takes c rest R := by
  have hkind : c.current.kind = l := hc.kind.trans hl
  have hexpect : expect l c = .ok c.current c.next := by
    show (if c.current.kind = l then advance else refuse _) c = _
    rw [if_pos hkind]
    rfl
  refine Takes.seq (Q := fun t => t.word = x) ⟨c.current, c.next, hexpect, hc.next hw, hc.word⟩ ?_
  intro t c' hc' ht
  exact h t c' ht hc'

/-- A reader that counts its steps has more of them than there are words. -/
theorem within_reads {reader : Nat → Parse α} {F : List Word → Prop}
    (h : ∀ n, w.length < n → (reader n).Reads w F Q) : (within reader).Reads w F Q := by
  intro c rest hc hrest
  have hlen := hc.length_lt
  rw [List.length_append] at hlen
  exact h c.allowance (by omega) c rest hc hrest

/-! ## Loops -/

/-- The first word of an item tells that the list goes on. -/
theorem commaSeparated_cons (w : List Word) (ws : List (List Word)) :
    commaSeparated (w :: ws) =
      w ++ (match ws with
        | [] => []
        | _ :: _ => mark .comma :: commaSeparated ws) := by
  cases ws with
  | nil => rw [List.append_nil]; rfl
  | cons v vs => rfl

/-- **Items divided by commas**, up to a closing parenthesis. -/
theorem listed_reads {item : Parse α} (words : α → List Word) (erase : α → γ) :
    ∀ (n : Nat) (xs : List α), (commaSeparated (xs.map words)).length < n →
      (∀ a ∈ xs, item.Reads (words a) (Next fun k => k = .comma ∨ k = .closeParen)
        fun b => erase b = erase a) →
      (∀ a ∈ xs, Next (· ≠ .closeParen) (words a)) →
      (listed item n).Reads (commaSeparated (xs.map words)) (Next (· = .closeParen))
        fun as => as.map erase = xs.map erase := by
  intro n
  induction n with
  | zero => intro xs hn; omega
  | succ n ih =>
    intro xs hn hitem hstart c rest hc hrest
    unfold listed
    refine kind_seq ?_
    -- an empty list is told by the parenthesis behind it
    cases xs with
    | nil =>
      rw [if_pos (hc.next_kind hrest)]
      exact Takes.pure hc rfl
    | cons a xs =>
      rw [List.map_cons, commaSeparated_cons] at hc hn
      have ha := hstart a List.mem_cons_self
      rw [List.append_assoc] at hc
      rw [if_neg (hc.next_kind (ha.append _))]
      have hitems : ∀ b ∈ xs, b ∈ a :: xs := fun b hb => List.mem_cons_of_mem a hb
      -- behind an item comes that parenthesis, or a comma and another item
      cases xs with
      | nil =>
        refine (hitem a List.mem_cons_self c rest hc (hrest.imp fun _ => .inr)).seq ?_
        intro b c₁ hc₁ hb
        refine kind_seq ?_
        rw [if_neg (by rw [hc₁.next_kind hrest]; nofun)]
        exact Takes.pure hc₁ (by rw [List.map_cons, List.map_cons, hb, List.map_nil])
      | cons a' xs =>
        simp only [List.map_cons] at hc hn
        refine (hitem a List.mem_cons_self c _ hc (Next.cons (.inl rfl))).seq ?_
        intro b c₁ hc₁ hb
        refine kind_seq ?_
        rw [if_pos (show c₁.current.kind = .comma from hc₁.kind)]
        have hne : commaSeparated ((a' :: xs).map words) ++ rest ≠ [] := fun h =>
          hrest.ne_nil (List.append_eq_nil_iff.1 h).2
        refine advance_seq hc₁ hne fun _ c₂ _ hc₂ => ?_
        have hlen : (commaSeparated ((a' :: xs).map words)).length < n := by
          rw [List.length_append, List.length_cons] at hn
          rw [List.map_cons]
          omega
        refine (ih (a' :: xs) hlen (fun b hb => hitem b (hitems b hb))
          (fun b hb => hstart b (hitems b hb)) c₂ rest hc₂ hrest).seq ?_
        intro bs c₃ hc₃ hbs
        exact Takes.pure hc₃ (by rw [List.map_cons, List.map_cons, hb, hbs])

/-- **Repetition**, as long as `goes` says so: it does at the first word of every item, and does not
at what follows the last one. -/
theorem many_reads {goes : Parse Bool} {item : Parse α} (words : α → List Word) (erase : α → γ)
    {F : List Word → Prop} (hF : ∀ rest, F rest → rest ≠ [])
    (hstop : ∀ c rest, c.Shows rest → F rest → goes c = .ok false c) :
    ∀ (n : Nat) (xs : List α), (xs.flatMap words).length < n →
      (∀ a ∈ xs, item.Reads (words a) (· ≠ []) fun b => erase b = erase a) →
      (∀ a ∈ xs, words a ≠ [] ∧ ∀ c w, c.Shows (words a ++ w) → goes c = .ok true c) →
      (many goes item n).Reads (xs.flatMap words) F fun as => as.map erase = xs.map erase := by
  intro n
  induction n with
  | zero => intro xs hn; omega
  | succ n ih =>
    intro xs hn hitem hstart c rest hc hrest
    unfold many
    cases xs with
    | nil =>
      exact Takes.seq (Q := fun b => b = false) ⟨false, c, hstop c rest hc hrest, hc, rfl⟩
        fun b c' hc' hb => by rw [hb]; exact Takes.pure hc' rfl
    | cons a xs =>
      obtain ⟨hne, hgo⟩ := hstart a List.mem_cons_self
      rw [List.flatMap_cons, List.append_assoc] at hc
      rw [List.flatMap_cons, List.length_append] at hn
      have hpos := List.length_pos_iff.2 hne
      have hmem : ∀ b ∈ xs, b ∈ a :: xs := fun b hb => List.mem_cons_of_mem a hb
      refine Takes.seq (Q := fun b => b = true) ⟨true, c, hgo c _ hc, hc, rfl⟩ fun b c' hc' hb => ?_
      rw [hb]
      have hnext : xs.flatMap words ++ rest ≠ [] := fun h =>
        hF rest hrest (List.append_eq_nil_iff.1 h).2
      refine (hitem a List.mem_cons_self c' _ hc' hnext).seq fun b c₁ hc₁ hb => ?_
      refine (ih xs (by omega) (fun b hb => hitem b (hmem b hb)) (fun b hb => hstart b (hmem b hb))
        c₁ rest hc₁ hrest).seq fun bs c₂ hc₂ hbs => ?_
      exact Takes.pure hc₂ (by rw [List.map_cons, List.map_cons, hb, hbs])

end Parse

/-! ## Types -/

namespace TypeName

open Parse

variable {c : Cursor}

/-- What follows a type and does not belong to it: no operand, no star, and no bracket that is closed
at once. -/
def Stops (rest : List Word) : Prop :=
  ∃ x xs, rest = x :: xs ∧ Grammar.operandTable x.1 = none ∧ x.1 ≠ .star ∧
    (x.1 = .openBracket → Next (· ≠ .closeBracket) xs)

theorem typeSuffixTable_eq_none {k : Token.Kind} (hb : k ≠ .openBracket) (hs : k ≠ .star) :
    Grammar.typeSuffixTable k = none := by
  unfold Grammar.typeSuffixTable
  split
  · contradiction
  · contradiction
  · rfl

/-- Where a type stops, there is no suffix. -/
theorem Stops.suffixAt?_eq_none {rest : List Word} (h : Stops rest) (hc : c.Shows rest) :
    suffixAt? .standard .lowest c = none := by
  obtain ⟨x, xs, rfl, -, hstar, hbracket⟩ := h
  have hkind := hc.kind
  unfold suffixAt?
  by_cases hx : x.1 = .openBracket
  · have hcontinues : continues .standard c = false := by
      unfold continues
      rw [hkind, hx]
      exact decide_eq_false (hc.peek_next (hbracket hx))
    rw [hkind, hx, hcontinues]
    rfl
  · have hnone : Grammar.standard.typeSuffix c.current.kind = none := by
      rw [hkind]
      exact typeSuffixTable_eq_none hx hstar
    rw [hnone]

theorem suffixAt?_array (hc : c.Shows (mark .openBracket :: mark .closeBracket :: w)) :
    suffixAt? .standard .lowest c = some .array := by
  have hcontinues : continues .standard c = true := by
    unfold continues
    rw [show c.current.kind = .openBracket from hc.kind]
    exact decide_eq_true hc.peek
  unfold suffixAt?
  rw [show c.current.kind = .openBracket from hc.kind, hcontinues]
  rfl

theorem suffixAt?_pointer (hc : c.Shows (mark .star :: w))
    (hw : Next (fun k => Grammar.operandTable k = none) w) :
    suffixAt? .standard .lowest c = some .pointer := by
  have hcontinues : continues .standard c = true := by
    unfold continues
    rw [show c.current.kind = .star from hc.kind]
    show (Grammar.operandTable c.peek).isNone = true
    rw [hc.peek_next hw]
    rfl
  unfold suffixAt?
  rw [show c.current.kind = .star from hc.kind, hcontinues]
  rfl

/-- The same type up to spans. -/
abbrev Like (t t' : TypeName) : Prop := t'.eraseSpans = t.eraseSpans

theorem parseArray_reads {t t' : TypeName} (ht : t.Like t') (sp : Span) :
    (parseArray t').Reads [mark .openBracket, mark .closeBracket] (· ≠ [])
      (TypeName.array t sp).Like := by
  intro c rest hc hrest
  unfold parseArray
  refine expect_seq hc rfl (List.cons_ne_nil _ _) fun _ c₁ _ hc₁ => ?_
  refine expect_seq hc₁ rfl hrest fun _ c₂ _ hc₂ => ?_
  refine spanFrom_seq fun sp' => Takes.pure hc₂ ?_
  rw [Like, eraseSpans, eraseSpans, ht]

theorem parsePointer_reads {t t' : TypeName} (ht : t.Like t') (sp : Span) :
    (parsePointer t').Reads [mark .star] (· ≠ []) (TypeName.pointer t sp).Like := by
  intro c rest hc hrest
  unfold parsePointer
  refine expect_seq hc rfl hrest fun _ c₁ _ hc₁ => ?_
  refine spanFrom_seq fun sp' => Takes.pure hc₁ ?_
  rw [Like, eraseSpans, eraseSpans, ht]

theorem parseSuffixes_succ (n : Nat) (t : TypeName) (c : Cursor) :
    parseSuffixes .standard .lowest (n + 1) t c =
      (match suffixAt? .standard .lowest c with
        | none => pure t
        | some .array => parseArray t >>= parseSuffixes .standard .lowest n
        | some .pointer => parsePointer t >>= parseSuffixes .standard .lowest n : Parse TypeName) c := by
  rfl

/-- **A type is read suffix after suffix**: behind its words, the loop goes on with the type as it
is. -/
theorem parse_spine (t : TypeName) {rest : List Word} (hc : c.Shows (t.words ++ rest))
    (hrest : Next (fun k => Grammar.operandTable k = none) rest) :
    ∃ t' c' n, parse .standard .lowest c = parseSuffixes .standard .lowest n t' c' ∧
      t'.eraseSpans = t.eraseSpans ∧ c'.Shows rest ∧ rest.length < n := by
  induction t generalizing c rest with
  | named name sp =>
    have hkind : c.current.kind = .identifier := hc.kind
    have hnamed : parseNamed.Takes c rest fun a =>
        a.eraseSpans = (TypeName.named name sp).eraseSpans := by
      unfold parseNamed
      refine expect_seq hc rfl hrest.ne_nil fun t c₁ ht hc₁ => Takes.pure hc₁ ?_
      rw [eraseSpans, eraseSpans, show t.value = name from congrArg Prod.snd ht]
    obtain ⟨t', c₁, heq, hc₁, ht'⟩ := hnamed
    refine ⟨t', c₁, c₁.allowance, ?_, ht', hc₁, hc₁.length_lt⟩
    have hparse : parse .standard .lowest c = (parseNamed >>= fun type =>
        within fun steps => parseSuffixes .standard .lowest steps type) c := by
      show (if Grammar.standard.typeStart c.current.kind = true then _ else _ : Parse TypeName) c = _
      rw [hkind]
      rfl
    exact hparse.trans (bind_eq heq)
  | pointer target sp ih =>
    rw [words, List.append_assoc] at hc
    obtain ⟨t', c₁, n, heq, ht', hc₁, hn⟩ := ih hc (Next.cons rfl)
    -- a step is left, since the suffix is still to be read
    obtain ⟨n, rfl⟩ : ∃ m, n = m + 1 := ⟨n - 1, by omega⟩
    obtain ⟨t'', c₂, heq₂, hc₂, ht''⟩ := parsePointer_reads ht' sp c₁ rest hc₁ hrest.ne_nil
    refine ⟨t'', c₂, n, ?_, ht'', hc₂, ?_⟩
    · rw [heq, parseSuffixes_succ, suffixAt?_pointer hc₁ hrest]
      exact bind_eq heq₂
    · rw [List.singleton_append, List.length_cons] at hn
      omega
  | array element sp ih =>
    rw [words, List.append_assoc] at hc
    obtain ⟨t', c₁, n, heq, ht', hc₁, hn⟩ := ih hc (Next.cons rfl)
    obtain ⟨n, rfl⟩ : ∃ m, n = m + 1 := ⟨n - 1, by omega⟩
    obtain ⟨t'', c₂, heq₂, hc₂, ht''⟩ := parseArray_reads ht' sp c₁ rest hc₁ hrest.ne_nil
    refine ⟨t'', c₂, n, ?_, ht'', hc₂, ?_⟩
    · rw [heq, parseSuffixes_succ, suffixAt?_array hc₁]
      exact bind_eq heq₂
    · rw [List.length_append, List.length_cons, List.length_singleton] at hn
      omega

/-- **Types are read back.** -/
theorem parse_reads (t : TypeName) : (parse .standard .lowest).Reads t.words Stops t.Like := by
  intro c rest hc hrest
  have hnext : Next (fun k => Grammar.operandTable k = none) rest := by
    obtain ⟨x, xs, rfl, hx, -⟩ := hrest
    exact Next.cons hx
  obtain ⟨t', c', n, heq, ht', hc', hn⟩ := parse_spine t hc hnext
  obtain ⟨n, rfl⟩ : ∃ m, n = m + 1 := ⟨n - 1, by omega⟩
  refine ⟨t', c', ?_, hc', ht'⟩
  rw [heq, parseSuffixes_succ, hrest.suffixAt?_eq_none hc']
  rfl

end TypeName

end ClassLang
