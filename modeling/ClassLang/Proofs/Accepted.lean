import ClassLang.Proofs.Derivation
import ClassLang.Proofs.Outcome

/-!
# What is read is derived

A reader that succeeds has read tokens from which its answer is derived in the grammar, and it has
lost none: the tokens it had before it are those of the derivation and then those it left
(`Cursor.Read`).

* `Accepts.seq`, `expect_leads`, `advance_leads`: the steps of readers, with all tokens read so far.
* `listed_accepts`, `many_leads`: the two loops.
* `TypeName.parse_accepts`: types.

The cursor never gets past the end of the text, since nothing but the end itself stands behind a token
that is not the end (`Cursor.Live`).
-/

namespace ClassLang

/-! ## Tokens read -/

/-- There are tokens to be read, and the last of them is the only end of the text. -/
structure Cursor.Live (c : Cursor) : Prop where
  fresh : c.past = false
  ends : ∃ body last, c.current :: c.ahead = body ++ [last] ∧ last.kind = .eof ∧
    ∀ t ∈ body, t.kind ≠ .eof

/-- **Between `c` and `c'`, the tokens `ts` were read**, and no others. -/
structure Cursor.Read (c c' : Cursor) (ts : List Token) : Prop where
  live : c'.Live
  tokens : c.current :: c.ahead = ts ++ c'.current :: c'.ahead

namespace Cursor

variable {c c₀ c₁ c₂ : Cursor} {ts us : List Token}

theorem Live.read_nil (h : c.Live) : c.Read c [] := ⟨h, rfl⟩

theorem Read.trans (h : c₀.Read c₁ ts) (h' : c₁.Read c₂ us) : c₀.Read c₂ (ts ++ us) :=
  ⟨h'.live, by rw [h.tokens, h'.tokens, List.append_assoc]⟩

/-- Behind a token that is not the end of the text there is another one. -/
theorem Live.next (h : c.Live) (hk : c.current.kind ≠ .eof) : c.Read c.next [c.current] := by
  obtain ⟨t, ahead, past, stop, size, fits⟩ := c
  obtain ⟨body, last, htokens, hlast, hbody⟩ := h.ends
  cases body with
  | nil =>
    obtain ⟨rfl, -⟩ := List.cons.inj htokens
    exact absurd hlast hk
  | cons b body =>
    obtain ⟨rfl, hahead⟩ := List.cons.inj htokens
    cases ahead with
    | nil => exact absurd hahead.symm (List.append_ne_nil_of_right_ne_nil body (List.cons_ne_nil _ _))
    | cons u ahead =>
      exact ⟨⟨h.fresh, body, last, hahead, hlast, fun t ht => hbody t (List.mem_cons_of_mem _ ht)⟩, rfl⟩

/-- At the end of the text, everything has been read. -/
theorem Live.ahead_eq_nil (h : c.Live) (hk : c.current.kind = .eof) : c.ahead = [] := by
  obtain ⟨body, last, htokens, -, hbody⟩ := h.ends
  cases body with
  | nil => exact (List.cons.inj htokens).2
  | cons b body =>
    obtain ⟨rfl, -⟩ := List.cons.inj htokens
    exact absurd hk (hbody _ List.mem_cons_self)

end Cursor

namespace Parse

variable {α β : Type} {c₀ c : Cursor} {ts : List Token} {R : List Token → α → Prop}
  {Q : β → Cursor → Prop} {item : Parse α}

/-- **Whenever the reader succeeds**, what it gives is derived from the tokens it read. -/
def Accepts (m : Parse α) (R : List Token → α → Prop) : Prop :=
  ∀ c : Cursor, c.Live → Gives m c (fun a c' => ∃ ts, c.Read c' ts ∧ R ts a)

/-! ## Step by step -/

theorem Accepts.seq {m : Parse α} {k : α → Parse β} (hm : m.Accepts R) (h : c₀.Read c ts)
    (hk : ∀ a c' us, R us a → c₀.Read c' (ts ++ us) → Gives (k a) c' Q) :
    Gives (m >>= k) c Q := by
  refine (hm c h.live).seq ?_
  rintro a c' ⟨us, hread, hR⟩
  exact hk a c' us hR (h.trans hread)

theorem Accepts.map {m : Parse α} {f : α → β} {S : List Token → β → Prop} (hm : m.Accepts R)
    (h : ∀ ts a, R ts a → S ts (f a)) : (f <$> m).Accepts S := by
  intro c hc
  refine Leads.map ((hm c hc).post ?_)
  rintro a c' ⟨ts, hread, hR⟩
  exact ⟨ts, hread, h ts a hR⟩

theorem kind_leads {k : Token.Kind → Parse β} (h : Gives (k c.current.kind) c Q) :
    Gives (kind >>= k) c Q := h

theorem spanFrom_leads {start : Position} {k : Span → Parse β}
    (h : ∀ sp, Gives (k sp) c Q) : Gives (spanFrom start >>= k) c Q :=
  h (c.spanFrom start)

theorem unexpected_leads {text : String} : Gives (unexpected text : Parse β) c Q :=
  trivial

theorem within_leads {reader : Nat → Parse β} (h : Gives (reader c.allowance) c Q) :
    Gives (within reader) c Q := h

theorem within_accepts {reader : Nat → Parse α} (h : ∀ n, (reader n).Accepts R) :
    (within reader).Accepts R := fun c hc => within_leads (h c.allowance c hc)

theorem advance_leads {k : Token → Parse β} (h : c₀.Read c ts) (hk : c.current.kind ≠ .eof)
    (hnext : ∀ c', c₀.Read c' (ts ++ [c.current]) → Gives (k c.current) c' Q) :
    Gives (advance >>= k) c Q := hnext c.next (h.trans (h.live.next hk))

theorem expect_leads {l : Token.Kind} {k : Token → Parse β} (h : c₀.Read c ts) (hl : l ≠ .eof)
    (hnext : ∀ t c', t.kind = l → c₀.Read c' (ts ++ [t]) → Gives (k t) c' Q) :
    Gives (expect l >>= k) c Q := by
  have hexpect : Gives (expect l) c (fun t c' => t.kind = l ∧ c₀.Read c' (ts ++ [t])) := by
    show Leads (if c.current.kind = l then advance else refuse _) c _ _
    split
    · rename_i hkind
      exact ⟨hkind, h.trans (h.live.next (hkind ▸ hl))⟩
    · trivial
  refine hexpect.seq ?_
  rintro t c' ⟨ht, hread⟩
  exact hnext t c' ht hread

/-! ## Loops -/

/-- Items divided by commas, up to a closing parenthesis. -/
theorem listed_accepts (hitem : item.Accepts R) : ∀ n, (listed item n).Accepts (Listed R) 
  | 0 => fun _ _ => trivial
  | n + 1 => by
    intro c hc
    unfold listed
    refine kind_leads ?_
    split
    · exact Leads.pure ⟨[], hc.read_nil, .nil⟩
    refine hitem.seq hc.read_nil fun a c₁ ts ha h₁ => ?_
    refine kind_leads ?_
    by_cases hcomma : c₁.current.kind = .comma
    · rw [if_pos hcomma]
      refine advance_leads h₁ (by rw [hcomma]; nofun) fun c₂ h₂ => ?_
      refine (listed_accepts hitem n).seq h₂ fun as c₃ us has h₃ => Leads.pure ?_
      refine ⟨_, h₃, ?_⟩
      simp only [List.nil_append, List.append_assoc, List.cons_append]
      exact .more ha hcomma has
    · rw [if_neg hcomma]
      exact Leads.pure ⟨_, h₁, .last ha⟩

/-- Repetition, up to where `goes` says that it is over. -/
theorem many_leads {goes : Parse Bool} (hgoes : ∀ c, Gives goes c (fun _ c' => c' = c))
    (hitem : item.Accepts R) :
    ∀ n c, Cursor.Live c → Gives (many goes item n) c
      (fun as c' => ∃ ts, c.Read c' ts ∧ Repeated R ts as ∧ goes c' = .ok false c') := by
  intro n
  induction n with
  | zero => intro c _; trivial
  | succ n ih =>
    intro c hc
    unfold many
    have hgo : Gives goes c (fun b c' => goes c = .ok b c ∧ c' = c) := by
      have h := hgoes c
      unfold Gives Leads at h ⊢
      cases hm : goes c with
      | ok b c' =>
        rw [hm] at h
        subst h
        exact ⟨rfl, rfl⟩
      | error f c' => trivial
    refine hgo.seq ?_
    rintro b _ ⟨hb, rfl⟩
    cases b with
    | false => exact Leads.pure ⟨[], hc.read_nil, .nil, hb⟩
    | true =>
      refine hitem.seq hc.read_nil fun a c₁ ts ha h₁ => ?_
      refine (ih c₁ h₁.live).seq ?_
      rintro as c₂ ⟨us, h₂, has, hend⟩
      exact Leads.pure ⟨_, h₁.trans h₂, .cons ha has, hend⟩

theorem many_accepts {goes : Parse Bool} (hgoes : ∀ c, Gives goes c (fun _ c' => c' = c))
    (hitem : item.Accepts R) : (within (many goes item)).Accepts (Repeated R) :=
  within_accepts fun n c hc =>
    (many_leads hgoes hitem n c hc).post (fun _ _ ⟨ts, h, hR, _⟩ => ⟨ts, h, hR⟩)

end Parse

open Parse

/-! ## Types -/

namespace TypeName

variable {ts : List Token} {type : TypeName} {c₀ c : Cursor}

theorem parseArray_accepts (h : c₀.Read c ts) (htype : Derives ts type) :
    Gives (parseArray type) c (fun a c' => ∃ us, c₀.Read c' us ∧ Derives us a) := by
  unfold parseArray
  refine expect_leads h nofun fun t c₁ ht h₁ => ?_
  refine expect_leads h₁ nofun fun t' c₂ ht' h₂ => ?_
  refine spanFrom_leads fun sp => Leads.pure ⟨_, h₂, ?_⟩
  rw [List.append_assoc]
  exact .array htype ht ht'

theorem parsePointer_accepts (h : c₀.Read c ts) (htype : Derives ts type) :
    Gives (parsePointer type) c (fun a c' => ∃ us, c₀.Read c' us ∧ Derives us a) := by
  unfold parsePointer
  refine expect_leads h nofun fun t c₁ ht h₁ => ?_
  exact spanFrom_leads fun sp => Leads.pure ⟨_, h₁, .pointer htype ht⟩

/-- Suffix after suffix, the type read so far is derived from the tokens read so far. -/
theorem parseSuffixes_accepts (n : Nat) (h : c₀.Read c ts) (htype : Derives ts type) :
    Gives (parseSuffixes .standard .lowest n type) c
      (fun a c' => ∃ us, c₀.Read c' us ∧ Derives us a) := by
  induction n generalizing ts type c with
  | zero => trivial
  | succ n ih =>
    unfold parseSuffixes
    refine Leads.get_seq ?_
    split
    · exact Leads.pure ⟨ts, h, htype⟩
    · refine (parseArray_accepts h htype).seq ?_
      rintro a c' ⟨us, hread, ha⟩
      exact ih hread ha
    · refine (parsePointer_accepts h htype).seq ?_
      rintro a c' ⟨us, hread, ha⟩
      exact ih hread ha

/-- **Types.** -/
theorem parse_accepts : (parse .standard .lowest).Accepts Derives := by
  intro c hc
  unfold parse
  refine kind_leads ?_
  split
  · unfold parseNamed
    refine Leads.seq (Q := fun a c' => ∃ us, c.Read c' us ∧ Derives us a) (E := fun _ => True)
      (expect_leads hc.read_nil nofun fun t c₁ ht h₁ => Leads.pure ⟨_, h₁, .named ht⟩) ?_
    rintro a c' ⟨us, hread, ha⟩
    exact parseSuffixes_accepts _ hread ha
  · exact unexpected_leads

end TypeName

end ClassLang
