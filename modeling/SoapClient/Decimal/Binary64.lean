import SoapClient.Decimal.Digits

/-!
Finite binary floating point numbers of 64 bits, and rounding an exact fraction to the nearest of
them. A number is its sign and `significand · 2 ^ scale` units of `2 ^ -1074`, so that everything
about it can be said in natural numbers; the bounds in the type make the form unique.
-/

namespace SoapClient.Decimal

/-- A finite binary64 number: `±significand · 2 ^ scale / 2 ^ 1074`. -/
structure Binary64 where
  negative : Bool
  significand : Nat
  scale : Nat
  significand_lt : significand < Nat.pow 2 53
  scale_le : scale ≤ 2045
  normal : Nat.pow 2 52 ≤ significand ∨ scale = 0
  deriving DecidableEq

namespace Binary64

/-- How many units make one: a unit is `2 ^ -1074`, the distance between the smallest numbers. -/
def unitsPerOne : Nat := Nat.pow 2 1074

/-- Zero with a sign. -/
def zero (negative : Bool) : Binary64 := ⟨negative, 0, 0, by decide, by decide, by decide⟩

/-- Neither zero has a significand. -/
def isZero (x : Binary64) : Bool := x.significand = 0

/-- The magnitude in units. -/
def units (x : Binary64) : Nat := x.significand * Nat.pow 2 x.scale

/-- The quotient rounded to the nearest whole number, a half to the even neighbour. -/
def roundQuotient (n d : Nat) : Nat :=
  let q := n / d
  let r := n % d
  if 2 * r < d then q
  else if d < 2 * r then q + 1
  else if q % 2 = 0 then q else q + 1

/-- Rounding stays at the quotient or goes to the next number. -/
theorem roundQuotient_eq (n d : Nat) :
    roundQuotient n d = n / d ∨ roundQuotient n d = n / d + 1 := by
  unfold roundQuotient
  dsimp only
  split
  · exact .inl rfl
  · split
    · exact .inr rfl
    · split
      · exact .inl rfl
      · exact .inr rfl

/-- A significand that rounding brought to `2 ^ 53` is half of it at the next scale. A scale past
the greatest has no number. -/
def normalized? (negative : Bool) (significand scale : Nat) (le : significand ≤ Nat.pow 2 53)
    (normal : Nat.pow 2 52 ≤ significand ∨ scale = 0) : Option Binary64 :=
  if h : significand = Nat.pow 2 53 then
    if h' : scale + 1 ≤ 2045 then
      some ⟨negative, Nat.pow 2 52, scale + 1, by decide, h', .inl (Nat.le_refl _)⟩
    else none
  else if h' : scale ≤ 2045 then
    some ⟨negative, significand, scale, Nat.lt_of_le_of_ne le h, h', normal⟩
  else none

/-- The scale at which a magnitude of `u` whole units has 53 binary digits, or the smallest scale
where it has fewer. -/
def scaleFor (u : Nat) : Nat := u.log2 - 52

/-- At its scale a magnitude has at most 53 binary digits. -/
theorem div_scaleFor_lt (u : Nat) : u / Nat.pow 2 (scaleFor u) < Nat.pow 2 53 := by
  simp only [Nat.pow_eq]
  rw [Nat.div_lt_iff_lt_mul (Nat.two_pow_pos _), ← Nat.pow_add]
  exact Nat.lt_of_lt_of_le (@Nat.lt_log2_self u)
    (Nat.pow_le_pow_right (by decide) (by unfold scaleFor; omega))

/-- At its scale a magnitude has 53 binary digits, or the scale is the smallest. -/
theorem le_div_scaleFor (u : Nat) :
    Nat.pow 2 52 ≤ u / Nat.pow 2 (scaleFor u) ∨ scaleFor u = 0 := by
  simp only [Nat.pow_eq]
  by_cases h : u.log2 ≤ 52
  · exact .inr (by unfold scaleFor; omega)
  · refine .inl ?_
    rw [Nat.le_div_iff_mul_le (Nat.two_pow_pos _), ← Nat.pow_add]
    have hu : u ≠ 0 := by
      intro h0
      simp [h0] at h
    have := Nat.log2_self_le hu
    exact Nat.le_trans (Nat.pow_le_pow_right (by decide) (by unfold scaleFor; omega)) this

/-- The nearest number to `±u / den` units, of two equally near ones that with the even
significand. There is none where the fraction rounds past the greatest number. -/
def ofUnits? (negative : Bool) (u den : Nat) : Option Binary64 :=
  let k := scaleFor (u / den)
  let d := den * Nat.pow 2 k
  have hq : u / d = u / den / Nat.pow 2 k := (Nat.div_div_eq_div_mul ..).symm
  have hlt : u / d < Nat.pow 2 53 := hq ▸ div_scaleFor_lt (u / den)
  have hle : Nat.pow 2 52 ≤ u / d ∨ k = 0 := hq ▸ le_div_scaleFor (u / den)
  normalized? negative (roundQuotient u d) k
    (by rcases roundQuotient_eq u d with h | h <;> omega)
    (by rcases roundQuotient_eq u d with h | h <;> omega)

/-- The nearest number to the fraction `±num / den`. -/
def ofFraction? (negative : Bool) (num den : Nat) : Option Binary64 :=
  ofUnits? negative (num * unitsPerOne) den

/-- The nearest number to the product, where it is not past the greatest number. -/
def mul? (x y : Binary64) : Option Binary64 :=
  ofUnits? (x.negative != y.negative) (x.units * y.units) unitsPerOne

/-- The nearest number to the quotient, where it is not past the greatest number. Nothing is divided
by zero. -/
def div? (x y : Binary64) : Option Binary64 :=
  if y.isZero then none
  else ofUnits? (x.negative != y.negative) (x.units * unitsPerOne) y.units

/-- The nearest number to `±mantissa · 10 ^ exponent`. Magnitudes below `10 ^ -400` are zero and
those from `10 ^ 400` on too great without looking closer. -/
def ofDecimal? (negative : Bool) (mantissa : Nat) (exponent : Int) : Option Binary64 :=
  let lead := (digitCount mantissa : Int) + exponent
  if mantissa = 0 ∨ lead < -400 then some (zero negative)
  else if 400 < lead then none
  else if 0 ≤ exponent then ofFraction? negative (mantissa * Nat.pow 10 exponent.toNat) 1
  else ofFraction? negative mantissa (Nat.pow 10 (-exponent).toNat)

end Binary64

end SoapClient.Decimal
