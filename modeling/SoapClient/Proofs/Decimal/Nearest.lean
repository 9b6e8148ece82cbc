import Mathlib.Algebra.Order.Field.Basic
import SoapClient.Proofs.Decimal.Canonical

/-!
# The nearest binary64 number

A decimal is read as the binary64 number that is nearest to it (`ofDecimal?_nearest`). For whole
numbers of 64 bits there is one (`exists_ofDecimal?`), and the shortest decimal of a number has no
other number that it is nearest to (`eq_of_shortestRat`).
-/

namespace SoapClient.Decimal

/-! ## Numbers with a sign -/

@[simp] theorem signed_zero (negative : Bool) : signed negative 0 = 0 := by
  cases negative with
  | false => rfl
  | true => exact neg_zero

theorem signed_eq_zero_iff {negative : Bool} {q : ℚ} : signed negative q = 0 ↔ q = 0 := by
  cases negative with
  | false => rfl
  | true => exact neg_eq_zero

@[simp] theorem abs_signed_sub (negative : Bool) (a b : ℚ) :
    |signed negative a - signed negative b| = |a - b| := by
  cases negative with
  | false => rfl
  | true =>
    show |-a - -b| = |a - b|
    rw [neg_sub_neg, abs_sub_comm]

/-- Magnitudes with different signs are as far apart as their sum. -/
theorem abs_signed_sub_of_ne {s s' : Bool} {a b : ℚ} (h : s ≠ s') (ha : 0 ≤ a) (hb : 0 ≤ b) :
    |signed s a - signed s' b| = a + b := by
  cases s <;> cases s'
  · exact absurd rfl h
  · show |a - -b| = a + b
    rw [sub_neg_eq_add, abs_of_nonneg (add_nonneg ha hb)]
  · show |-a - b| = a + b
    rw [← neg_add', abs_neg, abs_of_nonneg (add_nonneg ha hb)]
  · exact absurd rfl h

/-- Signs bring magnitudes no nearer. -/
theorem abs_sub_le_abs_signed_sub {s s' : Bool} {a b : ℚ} (ha : 0 ≤ a) (hb : 0 ≤ b) :
    |a - b| ≤ |signed s a - signed s' b| := by
  by_cases h : s = s'
  · rw [h, abs_signed_sub]
  · rw [abs_signed_sub_of_ne h ha hb, abs_le]
    constructor <;> linarith

/-- Numbers that are not zero are equal where their signs and their magnitudes are. -/
theorem signed_inj {s s' : Bool} {a b : ℚ} (ha : 0 < a) (hb : 0 < b)
    (h : signed s a = signed s' b) : s = s' ∧ a = b := by
  have hs : s = s' := by
    by_contra hs
    have hsum := abs_signed_sub_of_ne hs ha.le hb.le
    rw [h, sub_self, abs_zero] at hsum
    linarith
  subst hs
  refine ⟨rfl, ?_⟩
  have hzero := abs_signed_sub s a b
  rw [h, sub_self, abs_zero] at hzero
  exact sub_eq_zero.mp (abs_eq_zero.mp hzero.symm)

namespace Binary64

/-- The rational number of a binary64 number. -/
def toRat (x : Binary64) : ℚ := signed x.negative x.magnitude

theorem magnitude_nonneg (x : Binary64) : 0 ≤ x.magnitude :=
  div_nonneg (Nat.cast_nonneg _) unitsPerOne_pos.le

@[simp] theorem magnitude_zero (negative : Bool) : (zero negative).magnitude = 0 := by
  have hunits : (zero negative).units = 0 := Nat.zero_mul _
  rw [magnitude, hunits, Nat.cast_zero, zero_div]

/-- A number that is not zero is a unit at least. -/
theorem one_le_magnitude_mul {x : Binary64} (h : x.magnitude ≠ 0) :
    1 ≤ x.magnitude * unitsPerOne := by
  rw [magnitude, div_mul_cancel₀ _ unitsPerOne_pos.ne']
  have hunits : x.units ≠ 0 := by
    intro hzero
    rw [magnitude, hzero, Nat.cast_zero, zero_div] at h
    exact h rfl
  exact_mod_cast Nat.one_le_iff_ne_zero.mpr hunits

/-- Whether no number is nearer to a rational number. Of two numbers that are equally near it is the
one with the even significand. -/
structure IsNearest (x : Binary64) (q : ℚ) : Prop where
  le (z : Binary64) : |x.toRat - q| ≤ |z.toRat - q|
  even (z : Binary64) : |z.toRat - q| = |x.toRat - q| → z.toRat ≠ x.toRat → x.significand % 2 = 0

/-! ## Magnitudes -/

/-- The same for magnitudes, without signs. -/
structure IsNearestTo (x : Binary64) (q : ℚ) : Prop where
  le (z : Binary64) : |x.magnitude - q| ≤ |z.magnitude - q|
  even (z : Binary64) :
    |z.magnitude - q| = |x.magnitude - q| → z.magnitude ≠ x.magnitude → x.significand % 2 = 0

/-- Signs bring no other number nearer than the nearest magnitude with the sign of the number. -/
theorem IsNearestTo.signed {x : Binary64} {q : ℚ} (h : x.IsNearestTo q) (hq : 0 ≤ q) :
    x.IsNearest (signed x.negative q) := by
  have hx : |x.toRat - Decimal.signed x.negative q| = |x.magnitude - q| := abs_signed_sub _ _ _
  have hz : ∀ z : Binary64, |z.magnitude - q| ≤ |z.toRat - Decimal.signed x.negative q| :=
    fun z => abs_sub_le_abs_signed_sub z.magnitude_nonneg hq
  refine ⟨fun z => ?_, fun z htie hne => ?_⟩
  · rw [hx]
    exact (h.le z).trans (hz z)
  · rw [hx] at htie
    have hsame : |z.magnitude - q| = |x.magnitude - q| :=
      le_antisymm ((hz z).trans_eq htie) (h.le z)
    refine h.even z hsame fun hmagnitude => ?_
    by_cases hsign : z.negative = x.negative
    · exact hne (by rw [toRat, toRat, hsign, hmagnitude])
    · -- equal magnitudes with different signs are equally near to zero only, and zero is nearer
      rw [toRat, abs_signed_sub_of_ne hsign z.magnitude_nonneg hq] at htie
      have hzero := h.le (zero false)
      rw [magnitude_zero, ← htie, abs_of_nonpos (by linarith : (0 : ℚ) - q ≤ 0)] at hzero
      have hnone : z.magnitude = 0 := by linarith [z.magnitude_nonneg]
      apply hne
      rw [toRat, toRat, ← hmagnitude, hnone]
      simp [Decimal.signed]

/-- How far a magnitude is from a fraction. -/
theorem abs_magnitude_sub (x : Binary64) {num den : Nat} (hden : 0 < den) :
    |x.magnitude - (num : ℚ) / den| =
      ((|((x.units * den : Nat) : Int) - (num * unitsPerOne : Nat)| : Int) : ℚ) /
        (den * unitsPerOne) := by
  have hpos : (0 : ℚ) < den := Nat.cast_pos.mpr hden
  have hone := unitsPerOne_pos
  rw [magnitude, div_sub_div _ _ hone.ne' hpos.ne', abs_div, mul_comm (unitsPerOne : ℚ) den,
    abs_of_pos (mul_pos hpos hone), mul_comm (unitsPerOne : ℚ) num]
  push_cast
  rfl

/-- A fraction is rounded to the nearest number. -/
theorem ofFraction?_nearest {x : Binary64} {negative : Bool} {num den : Nat} (hden : 0 < den)
    (h : ofFraction? negative num den = some x) :
    x.negative = negative ∧ x.IsNearestTo ((num : ℚ) / den) := by
  obtain ⟨hsign, hnearest⟩ := ofUnits?_nearest hden h
  have hpos : (0 : ℚ) < den * unitsPerOne := mul_pos (Nat.cast_pos.mpr hden) unitsPerOne_pos
  refine ⟨hsign, fun z => ?_, fun z htie hne => ?_⟩
  · rw [abs_magnitude_sub x hden, abs_magnitude_sub z hden]
    exact div_le_div_of_nonneg_right (Int.cast_le.mpr (hnearest z).1) hpos.le
  · rw [abs_magnitude_sub x hden, abs_magnitude_sub z hden, div_left_inj' hpos.ne',
      Int.cast_inj] at htie
    refine (hnearest z).2 htie fun hunits => hne ?_
    rw [magnitude, magnitude, hunits]

/-- Zero is the nearest number to what is not above half a unit. -/
theorem zero_isNearestTo (negative : Bool) {q : ℚ} (hq : 0 ≤ q) (h : q * (2 * unitsPerOne) ≤ 1) :
    (zero negative).IsNearestTo q := by
  refine ⟨fun z => ?_, fun _ _ _ => rfl⟩
  rw [magnitude_zero, zero_sub, abs_neg, abs_of_nonneg hq]
  by_cases hz : z.magnitude = 0
  · rw [hz, zero_sub, abs_neg, abs_of_nonneg hq]
  · have hunit := one_le_magnitude_mul hz
    have htwice : 2 * q ≤ z.magnitude := by
      refine le_of_mul_le_mul_right ?_ unitsPerOne_pos
      linarith
    exact le_abs.mpr (.inl (by linarith))

/-! ## Decimals -/

/-- What is below `10 ^ -400` is not above half a unit. -/
theorem toRat_mul_le_one {d : Scaled} (h : (digitCount d.mantissa : Int) + d.exponent < -400)
    (hd : d.mantissa ≠ 0) : d.toRat * (2 * unitsPerOne) ≤ 1 := by
  obtain ⟨-, hhigh⟩ := d.toRat_bounds hd
  have hsmall : d.toRat ≤ 10 ^ (-400 : Int) :=
    hhigh.le.trans (zpow_le_zpow_right₀ (by norm_num) h.le)
  have htwo : (0 : ℚ) ≤ 2 * unitsPerOne := by linarith [unitsPerOne_pos]
  calc d.toRat * (2 * unitsPerOne) ≤ 10 ^ (-400 : Int) * 10 ^ (400 : Int) :=
        mul_le_mul hsmall two_mul_unitsPerOne_le htwo (zpow_pos (by norm_num) _).le
    _ = 1 := by rw [← zpow_add₀ (by norm_num), show (-400 : Int) + 400 = 0 by decide, zpow_zero]

/-- A decimal is read as the nearest number with its sign. -/
theorem ofDecimal?_nearest {x : Binary64} {negative : Bool} {d : Scaled}
    (h : ofDecimal? negative d.mantissa d.exponent = some x) :
    x.IsNearest (signed negative d.toRat) := by
  have hnonneg : 0 ≤ d.toRat := mul_nonneg (Nat.cast_nonneg _) (zpow_pos (by norm_num) _).le
  have hmagnitude : x.negative = negative ∧ x.IsNearestTo d.toRat := by
    unfold ofDecimal? at h
    dsimp only at h
    split at h
    · next hsmall =>
      obtain rfl := Option.some.inj h
      refine ⟨rfl, zero_isNearestTo negative hnonneg ?_⟩
      by_cases hd : d.mantissa = 0
      · rw [Scaled.toRat, hd, Nat.cast_zero, zero_mul, zero_mul]
        exact zero_le_one
      · exact toRat_mul_le_one (hsmall.resolve_left hd) hd
    · split at h
      · cases h
      · have hfraction : ofFraction? negative (fractionOf d).1 (fractionOf d).2 = some x := by
          rw [← h]
          unfold fractionOf
          split <;> rfl
        rw [← fractionOf_div]
        exact ofFraction?_nearest (fractionOf_pos d) hfraction
  obtain ⟨rfl, hnearest⟩ := hmagnitude
  exact hnearest.signed hnonneg

/-! ## Whole numbers -/

/-- A fraction below the middle of the scales is in the range of the numbers. -/
theorem exists_ofUnits? (negative : Bool) {u den : Nat} (h : scaleFor (u / den) < 2045) :
    ∃ x, ofUnits? negative u den = some x := by
  unfold ofUnits? normalized?
  dsimp only
  split
  · rw [dif_pos (show scaleFor (u / den) + 1 ≤ 2045 from h)]
    exact ⟨_, rfl⟩
  · rw [dif_pos h.le]
    exact ⟨_, rfl⟩

theorem scaleFor_lt {u k : Nat} (hk : 0 < k) (h : u < 2 ^ (52 + k)) : scaleFor u < k := by
  by_cases hu : u = 0
  · rw [hu]
    exact hk
  · have hlog : u.log2 < 52 + k := (Nat.log2_lt hu).mpr h
    rw [scaleFor]
    omega

/-- Magnitudes of 64 binary digits are in the range of the numbers. -/
theorem exists_ofDecimal? (negative : Bool) {n : Nat} (h : n < 2 ^ 64) :
    ∃ x, ofDecimal? negative n 0 = some x := by
  have hcount : digitCount n ≤ 20 := by
    by_cases hn : n = 0
    · subst hn
      decide
    · have hpow : 10 ^ (digitCount n - 1) < 10 ^ 20 :=
        (ten_pow_le_of_ne_zero hn).trans_lt (h.trans (by decide))
      have := (Nat.pow_lt_pow_iff_right (by decide)).mp hpow
      omega
  have hscale : scaleFor (n * unitsPerOne / 1) < 2045 := by
    have hone : 0 < unitsPerOne := Nat.cast_pos.mp unitsPerOne_pos
    have hgreatest : 2 ^ 64 * unitsPerOne < 2 ^ (52 + 2045) := by decide +kernel
    rw [Nat.div_one]
    exact scaleFor_lt (by decide) ((Nat.mul_lt_mul_of_pos_right h hone).trans hgreatest)
  obtain ⟨x, hx⟩ := exists_ofUnits? negative hscale
  unfold ofDecimal?
  dsimp only
  split
  · exact ⟨_, rfl⟩
  · rw [if_neg (by omega), if_pos le_rfl]
    refine ⟨x, ?_⟩
    rw [ofFraction?]
    simpa using hx

/-! ## The number of a decimal -/

/-- The shortest decimal of a number that is not zero rounds to the number. -/
theorem covers_shortestRat {x : Binary64} (hx : x.isZero = false) (tie : Tie) :
    x.significand ≠ 0 ∧ x.Covers (x.shortestRat tie) := by
  have hsignificand : x.significand ≠ 0 := by simpa [isZero] using hx
  refine ⟨hsignificand, ?_⟩
  rw [shortestRat, hx]
  exact covers_shortest hsignificand tie

/-- A number that is not zero is found again from its shortest decimal, whichever of two equally
near ones that is. -/
theorem eq_of_shortestRat {x y : Binary64} {tie tie' : Tie} (hx : x.isZero = false)
    (h : signed x.negative (x.shortestRat tie) = signed y.negative (y.shortestRat tie')) :
    x = y := by
  obtain ⟨hx, hcovers⟩ := covers_shortestRat hx tie
  have hy : y.isZero = false := by
    rw [Bool.eq_false_iff]
    intro hzero
    rw [shortestRat.eq_def y, hzero, if_pos rfl, signed_zero, signed_eq_zero_iff] at h
    exact (hcovers.pos hx).ne' h
  obtain ⟨hy', hcovers'⟩ := covers_shortestRat hy tie'
  obtain ⟨hsign, hmagnitude⟩ := signed_inj (hcovers.pos hx) (hcovers'.pos hy') h
  have hdecimal : y.shortestRat tie' = (y.shortest tie').toRat := by
    rw [shortestRat, hy]
    rfl
  rw [hmagnitude, hdecimal] at hcovers
  rw [hdecimal] at hcovers'
  have hread := ofDecimal?_of_covers hx x.negative hcovers
  rw [ofDecimal?_of_covers hy' x.negative hcovers', withSign_self, hsign, withSign_self] at hread
  exact (Option.some.inj hread).symm

end Binary64

end SoapClient.Decimal
