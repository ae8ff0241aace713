import Mathlib.Algebra.Order.Ring.Int
import ClassLang.Proofs.Nodes
import ClassLang.Proofs.Resolution

/-!
# Unwritten conversions lose nothing

Under the standard conversions, a conversion that is not written leads from one integer type to another
one that has room for all values of the first, or it is that of a literal for which there is room.

* `FitsIn`: the values of signed integers of a width, in two's complement; `holds_iff` says that an
  integer type holds just these.
* `Conversions.width_lt_of_widens`: what the standard conversions widen becomes wider.
* `TypedExpr.Lossless`: when a conversion of an expression to a type loses nothing.
* `CompilationUnit.implicit_casts_lossless`: **no conversion loses information**, in whatever body of a
  resolved program it stands.
-/

namespace ClassLang

/-! ## Ranges -/

/-- The values of signed integers with this many bits. -/
def FitsIn (bits : Nat) (v : Int) : Prop := -2 ^ (bits - 1) ≤ v ∧ v ≤ 2 ^ (bits - 1) - 1

theorem FitsIn.mono {bits bits' : Nat} (h : bits ≤ bits') {v : Int} (hv : FitsIn bits v) :
    FitsIn bits' v := by
  have hpow : (2 : Int) ^ (bits - 1) ≤ 2 ^ (bits' - 1) :=
    pow_le_pow_right₀ (by decide) (Nat.sub_le_sub_right h 1)
  obtain ⟨hlow, hhigh⟩ := hv
  exact ⟨by omega, by omega⟩

/-- Of the values of 64 bits, an integer type holds those of its width, and other types hold none. -/
theorem Native.holds_iff {k : Native} {v : Int} (hv : FitsIn 64 v) :
    k.holds v = true ↔ ∃ bits, k.width? = some bits ∧ FitsIn bits v := by
  unfold Native.holds
  split
  · -- no value of 64 bits has to be checked
    rename_i hwidth
    exact iff_of_true rfl ⟨64, hwidth, hv⟩
  · rename_i bits _ hwidth
    have hpow : Int.pow 2 (bits - 1) = 2 ^ (bits - 1) := rfl
    simp only [hwidth, hpow, Bool.and_eq_true, decide_eq_true_eq, Option.some.injEq,
      exists_eq_left', FitsIn]
  · rename_i hwidth
    simp [hwidth]

/-- **The standard conversions only widen.** -/
theorem Conversions.width_lt_of_widens {a k : Native} (h : Conversions.standard.widens a k = true) :
    ∃ bits bits', a.width? = some bits ∧ k.width? = some bits' ∧ bits < bits' := by
  cases a <;> cases k <;>
    first
    | exact absurd h (by decide)
    | exact ⟨_, _, rfl, rfl, by decide⟩

/-! ## Conversions of expressions -/

/-- **The conversion of `e` to the type loses nothing**: both types are integers and not the same, and
the second has room for all values of the first, or for the literal that `e` is. -/
def TypedExpr.Lossless (r : Registry) (e : TypedExpr) (ty : TypeId) : Prop :=
  ∃ a k bits bits', r.kind? e.ty = some (.native a) ∧ r.kind? ty = some (.native k) ∧ a ≠ k ∧
    a.width? = some bits ∧ k.width? = some bits' ∧
    ((∀ v, FitsIn bits v → FitsIn bits' v) ∨ ∃ v own sp, e = .int v own sp ∧ FitsIn bits' v)

theorem Registry.kind?_of_nativeOf? {r : Registry} {id : TypeId} {k : Native}
    (h : r.nativeOf? id = some k) : r.kind? id = some (.native k) := by
  unfold Registry.nativeOf? at h
  split at h
  · rename_i hk
    cases h
    exact hk
  · cases h

/-- What may be converted without being written is a literal with room for it, or is widened. -/
theorem Registry.converts_cases {r : Registry} {t : Conversions} {e : TypedExpr} {ty : TypeId}
    (h : r.converts t e ty = true) :
    (∃ v own sp k, e = .int v own sp ∧ r.nativeOf? ty = some k ∧ t.permitsLiteral v k = true) ∨
      ∃ a k, r.nativeOf? e.ty = some a ∧ r.nativeOf? ty = some k ∧ t.widens a k = true := by
  have widened : r.widens t e.ty ty = true →
      ∃ a k, r.nativeOf? e.ty = some a ∧ r.nativeOf? ty = some k ∧ t.widens a k = true := by
    intro hw
    unfold Registry.widens at hw
    split at hw
    · rename_i a k ha hk
      exact ⟨a, k, ha, hk, hw⟩
    · cases hw
  unfold Registry.converts at h
  rcases Bool.or_eq_true_iff.1 h with h | h
  · cases e with
    | int v own sp =>
      have hlit : r.literalConverts t v ty = true := h
      unfold Registry.literalConverts at hlit
      split at hlit
      · rename_i k hk
        exact .inl ⟨v, own, sp, k, rfl, hk, hlit⟩
      · cases hlit
    | _ => cases h
  · exact .inr (widened h)

/-- **An unwritten conversion in a well-typed tree loses nothing.** -/
theorem TypedExpr.WellTyped.lossless {r : Registry} {p : Program} {this : Option TypeId}
    {e : TypedExpr} {ty : TypeId} {sp : Span} (hr : r.Sound)
    (h : (TypedExpr.cast e true ty sp).WellTyped .standard r p this) : e.Lossless r ty := by
  cases h with
  | implicit he _ hne hconv =>
    -- types with numbers of their own are different
    have differ : ∀ {a k}, r.kind? e.ty = some (.native a) → r.kind? ty = some (.native k) → a ≠ k := by
      rintro a _ ha hk rfl
      exact hne (hr.unique _ _ _ ha hk)
    rcases Registry.converts_cases hconv with ⟨v, own, sp', k, rfl, hk, hlit⟩ | ⟨a, k, ha, hk, hw⟩
    · cases he with
      | int hlow hhigh =>
        have hwide : FitsIn 64 v := ⟨hlow, Int.le_sub_one_of_lt hhigh⟩
        have ha := hr.natives .integer
        have hty := Registry.kind?_of_nativeOf? hk
        unfold Conversions.permitsLiteral at hlit
        obtain ⟨bits, hbits, hfits⟩ := (Native.holds_iff hwide).1 (Bool.and_eq_true_iff.1 hlit).2
        exact ⟨.integer, k, 64, bits, ha, hty, differ ha hty, rfl, hbits, .inr ⟨v, _, sp', rfl, hfits⟩⟩
    · have hsource := Registry.kind?_of_nativeOf? ha
      have htarget := Registry.kind?_of_nativeOf? hk
      obtain ⟨bits, bits', hbits, hbits', hlt⟩ := Conversions.width_lt_of_widens hw
      exact ⟨a, k, bits, bits', hsource, htarget, differ hsource htarget, hbits, hbits',
        .inl fun v hv => hv.mono (Nat.le_of_lt hlt)⟩

/-- **Unwritten conversions never lose information** under the standard conversions, whatever names the
native types have. Neither truth values nor nothing, nor classes, pointers or arrays are converted. -/
theorem CompilationUnit.implicit_casts_lossless {catalog : Catalog} {u : CompilationUnit}
    {r : Registry} {p : Program} (h : u.resolve ⟨catalog, .standard⟩ = .ok (r, p)) {m : MethodId}
    {g : Method} {b : TypedBlock} (hg : p.methodAt? m = some g) (hb : g.body = some b)
    {e : TypedExpr} {ty : TypeId} {sp : Span} (he : .cast e true ty sp ∈ b.nodes) :
    e.Lossless r ty := by
  obtain ⟨s, rfl, rfl, hs⟩ := u.finished_of_resolve h
  exact ((hs.typed m g b hg hb).nodes _ he).lossless hs.sound.registry

/-! ## A function with conversions -/

namespace Stretched

/-- `stretch(x: Int8, y: Int16) do stretch(-128, x); var z: Integer[] := new Integer[y]; z[x] := 0;
end` -/
def unit : CompilationUnit :=
  let sp := Span.nowhere
  let integer := TypeName.named "Integer" sp
  let body : List Stmt :=
    [.expression (.call "stretch" [.unary .negate (.number 128 sp) sp, .symbol "x" sp] sp) sp,
     .varDecl "z" (.array integer sp) (some (.arrayNew integer (.symbol "y" sp) sp)) sp,
     .assignment (.index (.symbol "z" sp) (.symbol "x" sp) sp) (.number 0 sp) sp]
  ⟨[.ofFunction ⟨"stretch", [⟨"x", .named "Int8" sp, sp⟩, ⟨"y", .named "Int16" sp, sp⟩], none,
    some (.mk body sp), sp⟩], sp⟩

/-- Whether an expression is a conversion that is not written. -/
def isUnwritten : TypedExpr → Bool
  | .cast _ implicit _ _ => implicit
  | _ => false

/-- How many conversions the bodies of a program hold that are not written. -/
def unwritten (p : Program) : Nat :=
  (p.methods.toList.flatMap fun g => g.body.toList.flatMap TypedBlock.nodes).countP isUnwritten

set_option maxRecDepth 100000 in
theorem resolve_unwritten :
    ((unit.resolve .standard).map fun x => unwritten x.2).toOption = some 4 := by
  decide +kernel

/-- A literal, an argument, a size and an index are converted, and nothing of them is lost. -/
theorem conversions_lossless : ∃ r p, unit.resolve .standard = .ok (r, p) ∧ unwritten p = 4 ∧
    ∀ m g b e ty sp, p.methodAt? m = some g → g.body = some b → .cast e true ty sp ∈ b.nodes →
      e.Lossless r ty := by
  have hcount := resolve_unwritten
  cases h : unit.resolve .standard with
  | error fault => rw [h] at hcount; cases hcount
  | ok x =>
    rw [h] at hcount
    exact ⟨x.1, x.2, rfl, Option.some.inj hcount, fun m g b e ty sp hg hb he =>
      CompilationUnit.implicit_casts_lossless h hg hb he⟩

end Stretched

end ClassLang
