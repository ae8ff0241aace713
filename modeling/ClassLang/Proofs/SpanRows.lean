import ClassLang.Proofs.AcceptedUnit
import ClassLang.Proofs.Outlines

/-!
# Cursors behind rows of spans

What is read one after the other stands in a row along the text. A reader that goes on from behind a
row adds to it, and a node is drawn around a row when its parts have been read.

* `Token.Ascending`: tokens that go up along a text, as those of a text do (`LaidOut.ascending`).
* `Cursor.Behind`, `Cursor.RightBehind`: a cursor that stands behind a row of outlines, in front of
  the next token or at the end of the last one.
* `Parse.Lays`, `Parse.Fills`: what a reader gives is a row from where it started. `Lays.seq`
  follows readers step by step, `many_fills` and `listed_fills` are the two loops.
-/

namespace ClassLang

/-! ## Tokens in order -/

/-- Tokens that go up along a text. The last of them is the end of the text, which has no width. -/
inductive Token.Ascending : List Token → Prop where
  | last {t : Token} (hwidth : t.span.stop = t.span.start) : Ascending [t]
  | cons {t u : Token} {ts : List Token} (hown : t.span.start ≤ t.span.stop)
      (hnext : t.span.stop ≤ u.span.start) (hrest : Ascending (u :: ts)) : Ascending (t :: u :: ts)

/-- No token starts before the text. -/
theorem Token.LaidOut.le_start {file : String} {before text : List Char} {ts : List Token}
    (h : LaidOut file before text ts) (hlength : before.length + text.length + 1 < UInt32.size) :
    ∀ t ∈ ts, Position.of file before ≤ t.span.start := by
  intro t ht
  obtain ⟨gone, left, rfl, hstart, -⟩ := h.exists_start t ht
  rw [hstart]
  refine Position.of_le_append ?_ file
  simp only [List.length_append] at hlength ⊢
  omega

/-- The tokens of a text go up. -/
theorem Token.LaidOut.ascending {file : String} {before text : List Char} {ts : List Token}
    (h : LaidOut file before text ts) (hlength : before.length + text.length + 1 < UInt32.size) :
    Ascending ts := by
  induction h with
  | eof hgap => exact .last rfl
  | @word before gap rest t ts hgap hwritten hstart hstop hrest ih =>
    have hbehind : (before ++ gap ++ t.value.toList).length + rest.length + 1 < UInt32.size := by
      simp only [List.length_append] at hlength ⊢
      omega
    have hown : t.span.start ≤ t.span.stop := by
      rw [hstart, hstop]
      exact Position.of_le_append (by omega) file
    cases ts with
    | nil => cases hrest
    | cons u ts =>
      have hnext := hrest.le_start hbehind u List.mem_cons_self
      rw [← hstop] at hnext
      exact .cons hown hnext (ih hbehind)

namespace Cursor

/-- The tokens still to be read go up, and they are behind those that were read. -/
structure Ordered (c : Cursor) : Prop where
  tokens : Token.Ascending (c.current :: c.ahead)
  behind : c.lastEnd ≤ c.position

/-- **The cursor stands behind a row** that starts at `p`. -/
structure Behind (p : Position) (os : List Outline) (c : Cursor) : Prop where
  ordered : c.Ordered
  row : Row p os c.position

/-- **The cursor stands right behind a row**: the row reaches no further than what was read. -/
structure RightBehind (p : Position) (os : List Outline) (c : Cursor) : Prop where
  ordered : c.Ordered
  row : Row p os c.lastEnd

variable {c : Cursor} {p p' : Position} {o : Outline} {os : List Outline}

theorem lastEnd_next (c : Cursor) : c.next.lastEnd = c.current.span.stop := by
  obtain ⟨t, ahead, past, lastEnd, size, fits⟩ := c
  cases ahead <;> rfl

/-- Reading a token keeps the order, and gets to its end. The last token can be read again, as it
has no width. -/
theorem Ordered.next (h : c.Ordered) : c.next.Ordered ∧ c.position ≤ c.next.lastEnd := by
  obtain ⟨t, ahead, past, lastEnd, size, fits⟩ := c
  have htokens := h.tokens
  cases htokens with
  | last hwidth =>
    have hstop : t.span.stop ≤ t.span.start := hwidth ▸ Position.le_refl _
    have hstart : t.span.start ≤ t.span.stop := hwidth ▸ Position.le_refl _
    exact ⟨⟨.last hwidth, hstop⟩, hstart⟩
  | cons hown hnext hrest => exact ⟨⟨hrest, hnext⟩, hown⟩

/-- To begin with, the row is empty. -/
theorem Ordered.start (h : c.Ordered) : c.Behind c.position [] := ⟨h, .nil (Position.le_refl _)⟩

theorem RightBehind.behind (h : c.RightBehind p os) : c.Behind p os :=
  ⟨h.ordered, h.row.upTo h.ordered.behind⟩

theorem RightBehind.since (hp : p' ≤ p) (h : c.RightBehind p os) : c.RightBehind p' os :=
  ⟨h.ordered, h.row.since hp⟩

/-- Reading a token, the cursor gets to stand right behind what it stood behind. -/
theorem Behind.next (h : c.Behind p os) : c.next.RightBehind p os :=
  ⟨h.ordered.next.1, h.row.upTo h.ordered.next.2⟩

/-- A node is drawn around the whole row, up to what was read, -/
theorem RightBehind.enclose (h : c.RightBehind p os) :
    c.RightBehind p [.node (c.spanFrom p) os] := ⟨h.ordered, h.row.enclose⟩

/-- or up to the end of its last outline. -/
theorem RightBehind.encloseLast (h : c.RightBehind p (os ++ [o])) :
    c.RightBehind p [.node ⟨p, o.span.stop⟩ (os ++ [o])] := by
  obtain ⟨hrow, hstop⟩ := h.row.upTo_last
  exact ⟨h.ordered, hrow.enclose.upTo hstop⟩

/-- The span of a token that was read alone. -/
theorem RightBehind.token {c' : Cursor} (hend : c'.lastEnd = c.current.span.stop)
    (h : c'.RightBehind c.position []) : c'.RightBehind c.position [.node c.current.span []] := by
  have hspan : c'.spanFrom c.position = c.current.span := by
    rw [spanFrom, hend]
    rfl
  exact hspan ▸ h.enclose

/-- A row may start where its first outline starts. -/
theorem RightBehind.head (h : c.RightBehind p (o :: os)) :
    p ≤ o.span.start ∧ c.RightBehind o.span.start (o :: os) := by
  obtain ⟨hp, hrow⟩ := h.row.since_head
  exact ⟨hp, h.ordered, hrow⟩

end Cursor

/-! ## Step by step -/

namespace Parse

variable {α β : Type} {m : Parse α} {parts : α → List Outline} {c : Cursor} {p : Position}
  {os : List Outline} {Q : β → Cursor → Prop}

/-- **What the reader gives is a row** from where it started up to what it read last. -/
def Lays (m : Parse α) (parts : α → List Outline) : Prop :=
  ∀ c : Cursor, c.Ordered →
    Gives m c (fun a c' => c'.RightBehind c.position (parts a))

/-- The same of a reader that may read nothing, or that looks at the next token. -/
def Fills (m : Parse α) (parts : α → List Outline) : Prop :=
  ∀ c : Cursor, c.Ordered → Gives m c (fun a c' => c'.Behind c.position (parts a))

theorem Lays.fills (h : m.Lays parts) : m.Fills parts := fun c hc =>
  (h c hc).imp (fun _ _ h' => h'.behind) fun _ h' => h'

/-- What is read next is added to the row. -/
theorem Lays.seq {k : α → Parse β} (hm : m.Lays parts) (h : c.Behind p os)
    (hk : ∀ a c', c'.RightBehind p (os ++ parts a) → Gives (k a) c' Q) :
    Gives (m >>= k) c Q := by
  refine (hm c h.ordered).seq fun a c' h' => hk a c' ?_
  exact ⟨h'.ordered, h.row.append h'.row⟩

theorem Fills.seq {k : α → Parse β} (hm : m.Fills parts) (h : c.Behind p os)
    (hk : ∀ a c', c'.Behind p (os ++ parts a) → Gives (k a) c' Q) :
    Gives (m >>= k) c Q := by
  refine (hm c h.ordered).seq fun a c' h' => hk a c' ?_
  exact ⟨h'.ordered, h.row.append h'.row⟩

/-- What is read last is added to the row. -/
theorem Lays.after (hm : m.Lays parts) (h : c.RightBehind p os) :
    Gives m c (fun a c' => c'.Behind p (os ++ parts a)) := by
  refine (hm c h.ordered).imp (fun a c' h' => ?_) fun _ h' => h'
  exact ⟨h'.ordered, h.behind.row.append h'.behind.row⟩

theorem Lays.map {f : α → β} {parts : β → List Outline} (hm : m.Lays fun a => parts (f a)) :
    (f <$> m).Lays parts := fun c hc => Leads.map (hm c hc)

/-- A token has no outline of its own. -/
theorem advance_row {k : Token → Parse β} (h : c.Behind p os)
    (hk : ∀ c', c'.lastEnd = c.current.span.stop → c'.RightBehind p os →
      Gives (k c.current) c' Q) :
    Gives (advance >>= k) c Q := hk c.next c.lastEnd_next h.next

theorem expect_row {l : Token.Kind} {k : Token → Parse β} (h : c.Behind p os)
    (hk : ∀ c', c'.lastEnd = c.current.span.stop → c'.RightBehind p os →
      Gives (k c.current) c' Q) :
    Gives (expect l >>= k) c Q := by
  have hexpect : Gives (expect l) c (fun t c' => t = c.current ∧
      c'.lastEnd = c.current.span.stop ∧ c'.RightBehind p os) := by
    show Leads (if c.current.kind = l then advance else refuse _) c _ _
    split
    · exact ⟨rfl, c.lastEnd_next, h.next⟩
    · trivial
  refine hexpect.seq ?_
  rintro _ c' ⟨rfl, hend, hrow⟩
  exact hk c' hend hrow

theorem spanFrom_row {start : Position} {k : Span → Parse β}
    (h : Gives (k (c.spanFrom start)) c Q) :
    Gives (spanFrom start >>= k) c Q := h

theorem within_lays {reader : Nat → Parse α} (h : ∀ n, (reader n).Lays parts) :
    (within reader).Lays parts := fun c hc => within_leads (h c.allowance c hc)

theorem within_fills {reader : Nat → Parse α} (h : ∀ n, (reader n).Fills parts) :
    (within reader).Fills parts := fun c hc => within_leads (h c.allowance c hc)

/-! ## Loops -/

section

variable {item : Parse α} {f : α → Outline}

/-- Repetition. -/
theorem many_fills {goes : Parse Bool}
    (hgoes : ∀ c, Gives goes c (fun _ c' => c' = c))
    (hitem : item.Lays fun a => [f a]) (n : Nat) :
    (many goes item n).Fills fun as => as.map f := by
  induction n with
  | zero => intro c _; trivial
  | succ n ih =>
    intro c hc
    unfold many
    refine (hgoes c).seq ?_
    rintro go _ rfl
    cases go with
    | false => exact Leads.pure hc.start
    | true =>
      refine hitem.seq hc.start fun a c₁ h₁ => ?_
      exact ih.seq h₁.behind fun as c₂ h₂ => Leads.pure h₂

/-- Items divided by commas. -/
theorem listed_fills (hitem : item.Lays fun a => [f a]) (n : Nat) :
    (listed item n).Fills fun as => as.map f := by
  induction n with
  | zero => intro c _; trivial
  | succ n ih =>
    intro c hc
    unfold listed
    refine kind_leads ?_
    split
    · exact Leads.pure hc.start
    refine hitem.seq hc.start fun a c₁ h₁ => kind_leads ?_
    split
    · refine advance_row h₁.behind fun c₂ _ h₂ => ?_
      exact ih.seq h₂.behind fun as c₃ h₃ => Leads.pure h₃
    · exact Leads.pure h₁.behind

end

end Parse

end ClassLang
