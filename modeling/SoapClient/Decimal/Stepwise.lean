import SoapClient.Decimal.Binary64

/-!
Reading a decimal in steps. The leading digits that fit 64 bits make a whole number, which is
rounded to a binary64 number; then the power of ten that remains is multiplied in or divided out,
at most `10 ^ 308` at a time. Each step rounds, and so the result may lie a little beside the
nearest number. It is the nearest one wherever the whole number and the power are exact.
-/

namespace SoapClient.Decimal

/-! ## Leading digits -/

/-- Appends digits to a number for as long as it fits 64 bits. Gives the number and the digits that
are left. -/
def appendDigits (n : Nat) : List Char → Nat × List Char
  | [] => (n, [])
  | d :: ds =>
    let next := Nat.ofDigitChars 10 [d] n
    if Range.nat64.holds next then appendDigits next ds else (n, d :: ds)

/-- The leading digits of a number with the digits `whole` before the point and `fraction` behind
it, as a number and the power of ten it is to be multiplied by. A digit before the point that does
not fit counts as a zero only in the power; those behind the point are tried in turn after it. -/
def leadingDigits (whole fraction : List Char) : Nat × Int :=
  let (n, dropped) := appendDigits 0 whole
  let (n, unread) := appendDigits n fraction
  (n, (dropped.length : Int) - (fraction.length - unread.length : Nat))

/-! ## Powers of ten -/

namespace Binary64

/-- The greatest power of ten that is multiplied in or divided out at once. -/
def powerLimit : Nat := 308

/-- The nearest number to `10 ^ k`. -/
def powerOfTen? (k : Nat) : Option Binary64 := ofFraction? false (Nat.pow 10 k) 1

/-- The number times `10 ^ k`, where that is not past the greatest number. -/
def timesPowerOfTen? (x : Binary64) (k : Nat) : Option Binary64 :=
  if k ≤ powerLimit then (powerOfTen? k).bind x.mul?
  else if x.isZero then some x
  else none

/-- The number divided by `10 ^ k`, in parts until the rest is small or the number is zero. -/
def overPowerOfTen? (x : Binary64) (k : Nat) : Option Binary64 :=
  if k ≤ powerLimit then (powerOfTen? k).bind x.div?
  else if x.isZero then some x
  else ((powerOfTen? powerLimit).bind x.div?).bind fun y => y.overPowerOfTen? (k - powerLimit)
termination_by k
decreasing_by
  unfold powerLimit at *
  omega

/-- The number that is read from digits before and behind a point and an exponent. There is none
where a step goes past the greatest number. -/
def ofDigitsStepwise? (negative : Bool) (whole fraction : List Char) (exponent : Int) :
    Option Binary64 :=
  let (n, place) := leadingDigits whole fraction
  let k := place + exponent
  (ofFraction? negative n 1).bind fun x =>
    if 0 ≤ k then x.timesPowerOfTen? k.toNat else x.overPowerOfTen? (-k).toNat

end Binary64

end SoapClient.Decimal
