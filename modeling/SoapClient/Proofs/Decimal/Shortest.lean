import Mathlib.Algebra.Order.Field.Power
import Mathlib.Tactic.FieldSimp
import SoapClient.Proofs.Decimal.Reading
import SoapClient.Proofs.Decimal.Rounding

/-!
# Shortest decimals

Around a number lies the interval of the rational numbers that round to it (`Covers`). Decimals in
it are read as the number (`ofDecimal?_of_covers`), and the shortest decimal of a number is one of
them (`covers_shortest`).
-/

namespace SoapClient.Decimal

/-! ## Decimals as rational numbers -/

/-- A decimal as a rational number. -/
def Scaled.toRat (d : Scaled) : ℚ := d.mantissa * (10 : ℚ) ^ d.exponent

/-! ## The number of digits -/

theorem digitCount_pos (n : Nat) : 0 < digitCount n := Nat.length_toDigits_pos

theorem lt_ten_pow_digitCount (n : Nat) : n < 10 ^ digitCount n :=
  (Nat.length_toDigits_le_iff (by decide) (digitCount_pos n)).mp le_rfl

/-- A number without leading zeros has its first digit where its digits say. -/
theorem ten_pow_le_of_ne_zero {n : Nat} (hn : n ≠ 0) : 10 ^ (digitCount n - 1) ≤ n := by
  have hpos := digitCount_pos n
  by_cases hone : digitCount n = 1
  · rw [hone]
    exact Nat.one_le_iff_ne_zero.mpr hn
  · by_contra hlt
    have hle : digitCount n ≤ digitCount n - 1 :=
      (Nat.length_toDigits_le_iff (by decide) (by omega)).mpr (by omega)
    omega

/-- A decimal that is not zero lies between two powers of ten next to each other. -/
theorem Scaled.toRat_bounds (d : Scaled) (hd : d.mantissa ≠ 0) :
    (10 : ℚ) ^ ((digitCount d.mantissa : Int) + d.exponent - 1) ≤ d.toRat ∧
      d.toRat < (10 : ℚ) ^ ((digitCount d.mantissa : Int) + d.exponent) := by
  have hten : (10 : ℚ) ≠ 0 := by norm_num
  have hpow : (0 : ℚ) < 10 ^ d.exponent := zpow_pos (by norm_num) _
  have hpos := digitCount_pos d.mantissa
  constructor
  · have hlow : ((10 ^ (digitCount d.mantissa - 1) : Nat) : ℚ) ≤ d.mantissa :=
      Nat.cast_le.mpr (ten_pow_le_of_ne_zero hd)
    have hexp : (digitCount d.mantissa : Int) + d.exponent - 1 =
        ((digitCount d.mantissa - 1 : Nat) : Int) + d.exponent := by omega
    rw [hexp, zpow_add₀ hten, zpow_natCast, Scaled.toRat]
    push_cast at hlow
    exact mul_le_mul_of_nonneg_right hlow hpow.le
  · have hhigh : (d.mantissa : ℚ) < ((10 ^ digitCount d.mantissa : Nat) : ℚ) :=
      Nat.cast_lt.mpr (lt_ten_pow_digitCount _)
    rw [zpow_add₀ hten, zpow_natCast, Scaled.toRat]
    push_cast at hhigh
    exact mul_lt_mul_of_pos_right hhigh hpow

namespace Binary64

theorem fractionOf_pos (d : Scaled) : 0 < (fractionOf d).2 := by
  unfold fractionOf
  split
  · exact Nat.one_pos
  · exact Nat.pow_pos (by decide)

/-- The fraction of a decimal is its rational number. -/
theorem fractionOf_div (d : Scaled) :
    ((fractionOf d).1 : ℚ) / ((fractionOf d).2 : ℚ) = d.toRat := by
  unfold fractionOf Scaled.toRat
  split
  · next h =>
    obtain ⟨n, hn⟩ := Int.eq_ofNat_of_zero_le h
    rw [hn]
    simp
  · next h =>
    obtain ⟨n, hn⟩ := Int.eq_ofNat_of_zero_le (show 0 ≤ -d.exponent by omega)
    rw [hn, show d.exponent = -(n : Int) by omega]
    simp [div_eq_mul_inv]

/-! ## The interval of a number -/

/-- The magnitude of a number. -/
def magnitude (x : Binary64) : ℚ := x.units / unitsPerOne

/-- Whether a rational number rounds to the magnitude of a number: it lies between the ends of the
interval around the number, and on one of the ends only where the significand is even. -/
structure Covers (x : Binary64) (q : ℚ) : Prop where
  low : (x.fourLow : ℚ) ≤ 4 * (q * unitsPerOne)
  high : 4 * (q * unitsPerOne) ≤ x.fourHigh
  inside : x.significand % 2 = 1 →
    (x.fourLow : ℚ) ≠ 4 * (q * unitsPerOne) ∧ 4 * (q * unitsPerOne) ≠ x.fourHigh

/-- The interval in natural numbers, for a fraction. -/
theorem covers_div_iff {x : Binary64} {num den : Nat} (hden : 0 < den) :
    x.Covers ((num : ℚ) / den) ↔
      x.fourLow * den ≤ 4 * (num * unitsPerOne) ∧ 4 * (num * unitsPerOne) ≤ x.fourHigh * den ∧
        (x.significand % 2 = 1 →
          x.fourLow * den ≠ 4 * (num * unitsPerOne) ∧
            4 * (num * unitsPerOne) ≠ x.fourHigh * den) := by
  have hpos : (0 : ℚ) < den := Nat.cast_pos.mpr hden
  have hfour :
      4 * ((num : ℚ) / den * unitsPerOne) = ((4 * (num * unitsPerOne) : Nat) : ℚ) / den := by
    push_cast
    ring
  have hlow : (x.fourLow : ℚ) ≤ 4 * ((num : ℚ) / den * unitsPerOne) ↔
      x.fourLow * den ≤ 4 * (num * unitsPerOne) := by
    rw [hfour, le_div_iff₀ hpos, ← Nat.cast_mul, Nat.cast_le]
  have hhigh : 4 * ((num : ℚ) / den * unitsPerOne) ≤ x.fourHigh ↔
      4 * (num * unitsPerOne) ≤ x.fourHigh * den := by
    rw [hfour, div_le_iff₀ hpos, ← Nat.cast_mul, Nat.cast_le]
  have hlow' : (x.fourLow : ℚ) = 4 * ((num : ℚ) / den * unitsPerOne) ↔
      x.fourLow * den = 4 * (num * unitsPerOne) := by
    rw [hfour, eq_div_iff hpos.ne', ← Nat.cast_mul, Nat.cast_inj]
  have hhigh' : 4 * ((num : ℚ) / den * unitsPerOne) = x.fourHigh ↔
      4 * (num * unitsPerOne) = x.fourHigh * den := by
    rw [hfour, div_eq_iff hpos.ne', ← Nat.cast_mul, Nat.cast_inj]
  constructor
  · intro h
    refine ⟨hlow.mp h.low, hhigh.mp h.high, fun hodd => ?_⟩
    rw [Ne, Ne, ← hlow', ← hhigh']
    exact h.inside hodd
  · rintro ⟨h, h', hinside⟩
    refine ⟨hlow.mpr h, hhigh.mpr h', fun hodd => ?_⟩
    rw [Ne, Ne, hlow', hhigh']
    exact hinside hodd

/-- A decimal reads back where its rational number lies in the interval. -/
theorem readsBack_iff {x : Binary64} {d : Scaled} : x.readsBack d = true ↔ x.Covers d.toRat := by
  rw [← fractionOf_div, covers_div_iff (fractionOf_pos d)]
  simp only [readsBack, Nat.mul_assoc]
  split
  · next heven =>
    rw [Bool.and_eq_true, decide_eq_true_eq, decide_eq_true_eq]
    constructor
    · rintro ⟨hlow, hhigh⟩
      exact ⟨hlow, hhigh, fun hodd => by omega⟩
    · rintro ⟨hlow, hhigh, -⟩
      exact ⟨hlow, hhigh⟩
  · next hodd =>
    rw [Bool.and_eq_true, decide_eq_true_eq, decide_eq_true_eq]
    have hodd : x.significand % 2 = 1 := by omega
    constructor
    · rintro ⟨hlow, hhigh⟩
      exact ⟨hlow.le, hhigh.le, fun _ => ⟨hlow.ne, hhigh.ne⟩⟩
    · rintro ⟨hlow, hhigh, hinside⟩
      exact ⟨hlow.lt_of_ne (hinside hodd).1, hhigh.lt_of_ne (hinside hodd).2⟩

/-- A fraction in the interval is rounded to the number. -/
theorem ofFraction?_of_covers {x : Binary64} (hx : x.significand ≠ 0) (negative : Bool)
    {num den : Nat} (hden : 0 < den) (h : x.Covers ((num : ℚ) / den)) :
    ofFraction? negative num den = some (x.withSign negative) := by
  obtain ⟨hlow, hhigh, hinside⟩ := (covers_div_iff hden).mp h
  exact ofUnits?_of_near hx negative hden hlow hhigh hinside

/-! ## Reading decimals in the interval -/

theorem unitsPerOne_pos : (0 : ℚ) < unitsPerOne := by
  have h : 0 < unitsPerOne := by decide +kernel
  exact_mod_cast h

/-- The least magnitude that does not round to zero is far above `10 ^ -400`. -/
theorem two_mul_unitsPerOne_le : (2 * unitsPerOne : ℚ) ≤ 10 ^ (400 : Int) := by
  have h : 2 * unitsPerOne ≤ 10 ^ 400 := by decide +kernel
  exact_mod_cast h

theorem fourHigh_le {x : Binary64} {k : Nat} (h : x.scale ≤ k) : x.fourHigh ≤ 2 ^ 55 * 2 ^ k := by
  have hsignificand : 4 * x.significand + 2 ≤ 2 ^ 55 := by
    have hlt : x.significand < 2 ^ 53 := x.significand_lt
    omega
  exact Nat.mul_le_mul hsignificand (Nat.pow_le_pow_right (by decide) h)

/-- The greatest magnitude of a number is far below `10 ^ 400`. -/
theorem fourHigh_lt (x : Binary64) :
    (x.fourHigh : ℚ) < 4 * (10 ^ (400 : Int) * unitsPerOne) := by
  have h : x.fourHigh < 4 * (10 ^ 400 * unitsPerOne) :=
    (fourHigh_le x.scale_le).trans_lt (by decide +kernel)
  exact_mod_cast h

/-- The interval of a number that is not zero starts above half a unit. -/
theorem two_le_fourLow {x : Binary64} (hx : x.significand ≠ 0) : 2 ≤ x.fourLow := by
  have hpow : 1 ≤ Nat.pow 2 x.scale := Nat.two_pow_pos x.scale
  unfold fourLow
  calc 2 = 2 * 1 := rfl
    _ ≤ _ := Nat.mul_le_mul (by split <;> omega) hpow

/-- Rational numbers that round to a number which is not zero are positive. -/
theorem Covers.half_le {x : Binary64} {q : ℚ} (h : x.Covers q) (hx : x.significand ≠ 0) :
    1 ≤ q * (2 * unitsPerOne) := by
  have hlow : (2 : ℚ) ≤ x.fourLow := by exact_mod_cast two_le_fourLow hx
  have := h.low
  linarith

theorem Covers.pos {x : Binary64} {q : ℚ} (h : x.Covers q) (hx : x.significand ≠ 0) : 0 < q := by
  have hhalf := h.half_le hx
  have hunits : (0 : ℚ) < 2 * unitsPerOne := by linarith [unitsPerOne_pos]
  by_contra hq
  have := mul_nonpos_of_nonpos_of_nonneg (not_lt.mp hq) hunits.le
  linarith

/-- A decimal in the interval of a number is read as this number. -/
theorem ofDecimal?_of_covers {x : Binary64} (hx : x.significand ≠ 0) (negative : Bool)
    {d : Scaled} (h : x.Covers d.toRat) :
    ofDecimal? negative d.mantissa d.exponent = some (x.withSign negative) := by
  have hmantissa : d.mantissa ≠ 0 := by
    intro hzero
    have := h.pos hx
    simp [Scaled.toRat, hzero] at this
  obtain ⟨hlow, hhigh⟩ := d.toRat_bounds hmantissa
  have hten : (1 : ℚ) ≤ 10 := by norm_num
  -- the magnitude is neither below `10 ^ -400` nor from `10 ^ 400` on
  have hleast : ¬ (digitCount d.mantissa : Int) + d.exponent < -400 := by
    intro hlead
    have hsmall : d.toRat < 10 ^ (-400 : Int) :=
      hhigh.trans_le (zpow_le_zpow_right₀ hten hlead.le)
    have hprod : d.toRat * (2 * unitsPerOne) < 10 ^ (-400 : Int) * 10 ^ (400 : Int) :=
      mul_lt_mul hsmall two_mul_unitsPerOne_le (by linarith [unitsPerOne_pos])
        (zpow_pos (by norm_num) _).le
    rw [← zpow_add₀ (by norm_num), show (-400 : Int) + 400 = 0 by decide, zpow_zero] at hprod
    linarith [h.half_le hx]
  have hgreatest : ¬ 400 < (digitCount d.mantissa : Int) + d.exponent := by
    intro hlead
    have hbig : (10 : ℚ) ^ (400 : Int) ≤ d.toRat :=
      (zpow_le_zpow_right₀ hten (by omega)).trans hlow
    have hprod : (10 : ℚ) ^ (400 : Int) * unitsPerOne ≤ d.toRat * unitsPerOne :=
      mul_le_mul_of_nonneg_right hbig unitsPerOne_pos.le
    linarith [h.high, x.fourHigh_lt]
  have hfraction : ofDecimal? negative d.mantissa d.exponent =
      ofFraction? negative (fractionOf d).1 (fractionOf d).2 := by
    unfold ofDecimal? fractionOf
    rw [if_neg (by rintro (h | h); exacts [hmantissa h, hleast h]), if_neg hgreatest]
    split <;> rfl
  rw [hfraction]
  apply ofFraction?_of_covers hx negative (fractionOf_pos d)
  rw [fractionOf_div]
  exact h

/-! ## The two neighbours on a grid -/

/-- The magnitude lies between the neighbours on a grid, which are one step apart. -/
theorem gridBelow_bounds (x : Binary64) (e : Int) :
    (x.gridBelow e).toRat ≤ x.magnitude ∧
      x.magnitude < Scaled.toRat ⟨(x.gridBelow e).mantissa + 1, e⟩ := by
  have hunits := unitsPerOne_pos
  unfold gridBelow Scaled.toRat magnitude
  dsimp only
  generalize unitsPerOne = one at hunits ⊢
  rw [le_div_iff₀ hunits, div_lt_iff₀ hunits]
  have hone : 0 < one := Nat.cast_pos.mp hunits
  split
  · next he =>
    obtain ⟨n, rfl⟩ := Int.eq_ofNat_of_zero_le he
    rw [Int.toNat_natCast, zpow_natCast, Nat.pow_eq]
    have hlow := Nat.div_mul_le_self x.units (one * 10 ^ n)
    have hhigh := Nat.lt_mul_div_succ x.units
      (Nat.mul_pos hone (Nat.pow_pos (by decide) : 0 < 10 ^ n))
    generalize x.units / (one * 10 ^ n) = m at hlow hhigh ⊢
    rw [← Nat.cast_le (α := ℚ)] at hlow
    rw [← Nat.cast_lt (α := ℚ)] at hhigh
    push_cast at hlow hhigh ⊢
    exact ⟨by linarith, by linarith⟩
  · next he =>
    obtain ⟨n, hn⟩ := Int.eq_ofNat_of_zero_le (show 0 ≤ -e by omega)
    have hpow : (0 : ℚ) < 10 ^ n := by positivity
    rw [hn, Int.toNat_natCast, show e = -(n : Int) by omega, zpow_neg, zpow_natCast, Nat.pow_eq]
    have hlow := Nat.div_mul_le_self (x.units * 10 ^ n) one
    have hhigh := Nat.lt_mul_div_succ (x.units * 10 ^ n) hone
    generalize x.units * 10 ^ n / one = m at hlow hhigh ⊢
    rw [← Nat.cast_le (α := ℚ)] at hlow
    rw [← Nat.cast_lt (α := ℚ)] at hhigh
    push_cast at hlow hhigh ⊢
    rw [← div_eq_mul_inv, ← div_eq_mul_inv, div_mul_eq_mul_div, div_mul_eq_mul_div,
      div_le_iff₀ hpow, lt_div_iff₀ hpow]
    exact ⟨by linarith, by linarith⟩

/-- Dropping zeros keeps the number. -/
theorem toRat_dropZeros (fuel : Nat) (d : Scaled) : (dropZeros fuel d).toRat = d.toRat := by
  induction fuel generalizing d with
  | zero => rfl
  | succ fuel ih =>
    unfold dropZeros
    split
    · next h =>
      obtain ⟨m, hm⟩ := Nat.dvd_of_mod_eq_zero h.2
      rw [ih, Scaled.toRat, Scaled.toRat, hm, Nat.mul_div_cancel_left m (by decide),
        zpow_add₀ (by norm_num), zpow_one]
      push_cast
      ring
    · rfl

/-- On a grid one of the two neighbours is found that read back, and nothing where neither does. -/
theorem onGrid?_eq (x : Binary64) (tie : Tie) (e : Int) {low high : Scaled}
    (hlow : x.gridBelow e = low) (hhigh : (⟨low.mantissa + 1, e⟩ : Scaled) = high) :
    ∃ nearer, (nearer = low ∨ nearer = high) ∧ x.onGrid? tie e =
      match x.readsBack low, x.readsBack high with
      | true, false => some low
      | false, true => some high
      | false, false => none
      | true, true => some nearer := by
  unfold onGrid?
  dsimp only
  rw [hlow, hhigh]
  cases x.compareMiddle low with
  | lt => exact ⟨low, .inl rfl, rfl⟩
  | gt => exact ⟨high, .inr rfl, rfl⟩
  | eq =>
    cases tie with
    | up => exact ⟨high, .inr rfl, rfl⟩
    | toEven =>
      by_cases heven : low.mantissa % 2 = 0
      · refine ⟨low, .inl rfl, ?_⟩
        cases x.readsBack low <;> cases x.readsBack high <;> simp only [if_pos heven]
      · refine ⟨high, .inr rfl, ?_⟩
        cases x.readsBack low <;> cases x.readsBack high <;> simp only [if_neg heven]

/-- What is found on a grid lies in the interval. -/
theorem covers_of_onGrid? {x : Binary64} {tie : Tie} {e : Int} {d : Scaled}
    (h : x.onGrid? tie e = some d) : x.Covers d.toRat := by
  rw [← readsBack_iff]
  generalize hlow : x.gridBelow e = low
  generalize hhigh : (⟨low.mantissa + 1, e⟩ : Scaled) = high
  obtain ⟨nearer, hnearer, hgrid⟩ := x.onGrid?_eq tie e hlow hhigh
  rw [hgrid] at h
  split at h
  · next hl _ =>
    rw [← Option.some.inj h]
    exact hl
  · next _ hh =>
    rw [← Option.some.inj h]
    exact hh
  · cases h
  · next hl hh =>
    rw [← Option.some.inj h]
    rcases hnearer with rfl | rfl
    · exact hl
    · exact hh

/-- Something is found on a grid where one of the neighbours lies in the interval. -/
theorem onGrid?_ne_none {x : Binary64} (tie : Tie) {e : Int} {low high : Scaled}
    (hlow : x.gridBelow e = low) (hhigh : (⟨low.mantissa + 1, e⟩ : Scaled) = high)
    (h : x.Covers low.toRat ∨ x.Covers high.toRat) : x.onGrid? tie e ≠ none := by
  obtain ⟨nearer, -, hgrid⟩ := x.onGrid?_eq tie e hlow hhigh
  rw [hgrid]
  rw [← readsBack_iff, ← readsBack_iff] at h
  rcases h with h | h
  · rw [h]
    cases x.readsBack high with
    | false => exact Option.some_ne_none _
    | true => exact Option.some_ne_none _
  · rw [h]
    cases x.readsBack low with
    | false => exact Option.some_ne_none _
    | true => exact Option.some_ne_none _

/-! ## Seventeen digits suffice -/

theorem units_pos {x : Binary64} (hx : x.significand ≠ 0) : 0 < x.units :=
  Nat.mul_pos (Nat.pos_of_ne_zero hx) (Nat.two_pow_pos x.scale)

/-- A fraction is at least the power of ten that the digits of its whole part tell, after it has
been scaled up by a power of ten so far that it has a whole part. -/
theorem ten_zpow_le_div {a one k : Nat} (hone : 0 < one) (h : one ≤ a * Nat.pow 10 k) :
    (10 : ℚ) ^ ((digitCount (a * Nat.pow 10 k / one) : Int) - k - 1) ≤ (a : ℚ) / one := by
  have hne : a * Nat.pow 10 k / one ≠ 0 := (Nat.div_pos h hone).ne'
  have hdigits := ten_pow_le_of_ne_zero hne
  have hpos := digitCount_pos (a * Nat.pow 10 k / one)
  have hmul := Nat.div_mul_le_self (a * Nat.pow 10 k) one
  generalize a * Nat.pow 10 k / one = n at hdigits hpos hmul ⊢
  have hnat : 10 ^ (digitCount n - 1) * one ≤ a * 10 ^ k :=
    (Nat.mul_le_mul_right one hdigits).trans hmul
  have hexp : (digitCount n : Int) - k - 1 = ((digitCount n - 1 : Nat) : Int) - k := by omega
  rw [hexp, zpow_sub₀ (by norm_num), zpow_natCast, zpow_natCast,
    div_le_div_iff₀ (by positivity) (Nat.cast_pos.mpr hone)]
  exact_mod_cast hnat

/-- The leading digit of a number that is not zero stands where its lead says. -/
theorem ten_zpow_le_magnitude {x : Binary64} (hx : x.significand ≠ 0) :
    (10 : ℚ) ^ (x.decimalLead - 1) ≤ x.magnitude := by
  have hone : unitsPerOne ≤ Nat.pow 10 400 := by decide +kernel
  have hscaled : unitsPerOne ≤ x.units * Nat.pow 10 400 :=
    hone.trans (Nat.le_mul_of_pos_left _ (units_pos hx))
  have hlead := ten_zpow_le_div (Nat.cast_pos.mp unitsPerOne_pos) hscaled
  rw [Nat.cast_ofNat] at hlead
  exact hlead

/-- A rational number that is off a magnitude by at most a part in `2 * 10 ^ 16` rounds to it. -/
theorem covers_of_near {x : Binary64} (hx : x.significand ≠ 0) {q : ℚ}
    (h : |q - x.magnitude| * (2 * 10 ^ 16) ≤ x.magnitude) : x.Covers q := by
  -- everything is compared in units: the number has `s * p` of them, its last binary digit `p`
  have hlow := fourLow_mul hx 1
  have hhigh := x.fourHigh_mul 1
  have hsignificand : x.significand < 2 ^ 53 := x.significand_lt
  have hmagnitude : x.magnitude * unitsPerOne = ((x.significand * 2 ^ x.scale : Nat) : ℚ) := by
    rw [magnitude, div_mul_cancel₀ _ unitsPerOne_pos.ne']
    rfl
  have hnear : |q * unitsPerOne - ((x.significand * 2 ^ x.scale : Nat) : ℚ)| * (2 * 10 ^ 16) ≤
      ((x.significand * 2 ^ x.scale : Nat) : ℚ) := by
    rw [← hmagnitude, ← sub_mul, abs_mul, abs_of_pos unitsPerOne_pos, mul_right_comm]
    exact mul_le_mul_of_nonneg_right h unitsPerOne_pos.le
  have hbound : x.significand * 2 ^ x.scale ≤ 2 ^ 53 * 2 ^ x.scale :=
    Nat.mul_le_mul_right _ hsignificand.le
  have hp : 0 < 2 ^ x.scale := Nat.two_pow_pos _
  rw [Nat.one_mul, Nat.mul_one] at hlow hhigh
  generalize 2 ^ x.scale = p at *
  have hdist := abs_le.mp (le_refl |q * unitsPerOne - ((x.significand * p : Nat) : ℚ)|)
  generalize |q * unitsPerOne - ((x.significand * p : Nat) : ℚ)| = distance at hdist hnear
  have hp : (0 : ℚ) < p := Nat.cast_pos.mpr hp
  have hstrictLow : (x.fourLow : ℚ) < 4 * (q * unitsPerOne) := by
    rcases hlow with ⟨hfirst, hlow⟩ | ⟨-, hlow⟩
    · -- below the first number of its scale the interval is half as wide, but so is the significand
      have hunits : x.significand * p = 2 ^ 52 * p := by rw [hfirst.1, Nat.pow_eq]
      rw [← Nat.cast_inj (R := ℚ)] at hlow hunits
      push_cast at hlow hunits hdist hnear
      linarith [hdist.1]
    · rw [← Nat.cast_inj (R := ℚ)] at hlow
      rw [← Nat.cast_le (α := ℚ)] at hbound
      push_cast at hlow hbound hdist hnear
      linarith [hdist.1]
  have hstrictHigh : 4 * (q * unitsPerOne) < (x.fourHigh : ℚ) := by
    rw [← Nat.cast_inj (R := ℚ)] at hhigh
    rw [← Nat.cast_le (α := ℚ)] at hbound
    push_cast at hhigh hbound hdist hnear
    linarith [hdist.2]
  exact ⟨hstrictLow.le, hstrictHigh.le, fun _ => ⟨hstrictLow.ne, hstrictHigh.ne⟩⟩

/-- The grid of seventeen digits has a neighbour that reads back. -/
theorem exists_onGrid? {x : Binary64} (hx : x.significand ≠ 0) (tie : Tie) :
    x.onGrid? tie (x.decimalLead - 17) ≠ none := by
  obtain ⟨hbelow, habove⟩ := x.gridBelow_bounds (x.decimalLead - 17)
  have hlead := ten_zpow_le_magnitude hx
  generalize hlow : x.gridBelow (x.decimalLead - 17) = low at hbelow habove
  generalize hhigh : (⟨low.mantissa + 1, x.decimalLead - 17⟩ : Scaled) = high at habove
  apply onGrid?_ne_none tie hlow hhigh
  -- a step of the grid is at most a part in `10 ^ 16` of the magnitude
  have hstep : high.toRat = low.toRat + 10 ^ (x.decimalLead - 17) := by
    rw [← hhigh, ← hlow]
    unfold gridBelow Scaled.toRat
    push_cast
    ring
  have hpart : (10 : ℚ) ^ (x.decimalLead - 17) * 10 ^ 16 ≤ x.magnitude := by
    rw [← zpow_natCast, ← zpow_add₀ (by norm_num)]
    calc (10 : ℚ) ^ (x.decimalLead - 17 + (16 : Nat)) = 10 ^ (x.decimalLead - 1) := by
          congr 1
          omega
      _ ≤ x.magnitude := hlead
  rcases le_total (x.magnitude - low.toRat) (high.toRat - x.magnitude) with hnear | hnear
  · left
    apply covers_of_near hx
    rw [abs_of_nonpos (by linarith)]
    linarith
  · right
    apply covers_of_near hx
    rw [abs_of_nonneg (by linarith)]
    linarith

/-- The shortest decimal of a number reads back. -/
theorem covers_shortest {x : Binary64} (hx : x.significand ≠ 0) (tie : Tie) :
    x.Covers (x.shortest tie).toRat := by
  unfold shortest
  dsimp only
  rw [toRat_dropZeros]
  cases hfound : (List.range 17).findSome? fun n =>
      x.onGrid? tie (x.decimalLead - (n + 1 : Nat)) with
  | none =>
    rw [List.findSome?_eq_none_iff] at hfound
    exact absurd (hfound 16 (by decide)) (exists_onGrid? hx tie)
  | some d =>
    obtain ⟨n, -, hgrid⟩ := List.exists_of_findSome?_eq_some hfound
    exact covers_of_onGrid? hgrid

end Binary64

end SoapClient.Decimal
