import SoapClient.Decimal.Binary64

/-!
The shortest decimal that reads back. Around a binary64 number lies the interval of fractions that
round to it. The grids of one, two, three digits and so on are tried in turn, on each the two
neighbours of the number; the first grid with a neighbour in the interval decides, of two
neighbours in it the nearer one.
-/

namespace SoapClient.Decimal

/-- A positive decimal: `mantissa · 10 ^ exponent`. -/
structure Scaled where
  mantissa : Nat
  exponent : Int
  deriving DecidableEq

/-- Which of two equally near decimals is taken. -/
inductive Tie where
  /-- The one whose last digit is even. -/
  | toEven
  /-- The greater one. -/
  | up
  deriving DecidableEq

namespace Binary64

/-- Four times the least fraction that rounds to the number, in units. Below a power of two the
next number is only half as far. -/
def fourLow (x : Binary64) : Nat :=
  (4 * x.significand - if x.significand = Nat.pow 2 52 ∧ 0 < x.scale then 1 else 2) *
    Nat.pow 2 x.scale

/-- Four times the greatest fraction that rounds to the number, in units. -/
def fourHigh (x : Binary64) : Nat := (4 * x.significand + 2) * Nat.pow 2 x.scale

/-- A decimal as a fraction. -/
def fractionOf (d : Scaled) : Nat × Nat :=
  if 0 ≤ d.exponent then (d.mantissa * Nat.pow 10 d.exponent.toNat, 1)
  else (d.mantissa, Nat.pow 10 (-d.exponent).toNat)

/-- Whether a decimal rounds to the magnitude of the number: it lies in the interval, the ends of
which count where the significand is even. -/
def readsBack (x : Binary64) (d : Scaled) : Bool :=
  let (num, den) := fractionOf d
  let four := 4 * num * unitsPerOne
  if x.significand % 2 = 0 then x.fourLow * den ≤ four && four ≤ x.fourHigh * den
  else x.fourLow * den < four && four < x.fourHigh * den

/-- The exponent `p` with `10 ^ (p - 1) ≤ magnitude < 10 ^ p`, for a number that is not zero. -/
def decimalLead (x : Binary64) : Int :=
  (digitCount (x.units * Nat.pow 10 400 / unitsPerOne) : Int) - 400

/-- The greatest decimal on the grid of `10 ^ exponent` that is not above the magnitude. -/
def gridBelow (x : Binary64) (exponent : Int) : Scaled :=
  ⟨if 0 ≤ exponent then x.units / (unitsPerOne * Nat.pow 10 exponent.toNat)
    else x.units * Nat.pow 10 (-exponent).toNat / unitsPerOne, exponent⟩

/-- Whether twice the magnitude is less than, equal to or greater than the sum of the decimals
`m` and `m + 1` of a grid, that is, which of them is nearer. -/
def compareMiddle (x : Binary64) (d : Scaled) : Ordering :=
  let (num, den) := fractionOf ⟨2 * d.mantissa + 1, d.exponent⟩
  compare (2 * x.units * den) (num * unitsPerOne)

/-- The neighbour on one grid that reads back, the nearer one where both do. -/
def onGrid? (x : Binary64) (tie : Tie) (exponent : Int) : Option Scaled :=
  let low := x.gridBelow exponent
  let high : Scaled := ⟨low.mantissa + 1, exponent⟩
  match x.readsBack low, x.readsBack high with
  | true, false => some low
  | false, true => some high
  | false, false => none
  | true, true =>
    match x.compareMiddle low with
    | .lt => some low
    | .gt => some high
    | .eq =>
      match tie with
      | .up => some high
      | .toEven => if low.mantissa % 2 = 0 then some low else some high

/-- The decimal without zeros at the end of its mantissa, at most `fuel` of them. -/
def dropZeros : (fuel : Nat) → Scaled → Scaled
  | 0, d => d
  | fuel + 1, d =>
    if d.mantissa ≠ 0 ∧ d.mantissa % 10 = 0 then
      dropZeros fuel ⟨d.mantissa / 10, d.exponent + 1⟩
    else d

/-- The shortest decimal that reads back as the magnitude of a number that is not zero. Seventeen
digits always suffice. -/
def shortest (x : Binary64) (tie : Tie) : Scaled :=
  let lead := x.decimalLead
  let found := (List.range 17).findSome? fun n => x.onGrid? tie (lead - (n + 1 : Nat))
  dropZeros 17 (found.getD (x.gridBelow (lead - 17)))

end Binary64

end SoapClient.Decimal
