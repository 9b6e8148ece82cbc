/-!
Decimal digits: the digits of a natural number, the number a run of digits stands for, and whole
numbers written with a sign and held to a range.
-/

namespace SoapClient.Decimal

/-- The digits of `n`, without leading zeros; `0` has one digit. -/
def digits (n : Nat) : List Char := Nat.toDigits 10 n

/-- The number that a run of digits stands for; no digits stand for `0`. -/
def ofDigits (ds : List Char) : Nat := Nat.ofDigitChars 10 ds 0

@[simp] theorem ofDigits_digits (n : Nat) : ofDigits (digits n) = n :=
  Nat.ofDigitChars_toDigits (by decide) (by decide)

/-- How many digits `n` has. -/
def digitCount (n : Nat) : Nat := (digits n).length

/-- The digits of `n` as a text. -/
def natText (n : Nat) : String := String.ofList (digits n)

/-- A whole number as a text: its digits, after a minus sign where it is negative. -/
def intText : Int → String
  | .ofNat n => natText n
  | .negSucc n => String.ofList ('-' :: digits (n + 1))

/-- A run of at least one digit, as a number. -/
def readDigits? (ds : List Char) : Option Nat :=
  if ds ≠ [] ∧ ds.all Char.isDigit then some (ofDigits ds) else none

/-- Whole numbers from `least` to `greatest`. -/
structure Range where
  least : Int
  greatest : Int

/-- The whole numbers of 32 bits. -/
def Range.int32 : Range := ⟨-2147483648, 2147483647⟩

/-- The whole numbers of 64 bits. -/
def Range.int64 : Range := ⟨-9223372036854775808, 9223372036854775807⟩

/-- The natural numbers of 64 bits. -/
def Range.nat64 : Range := ⟨0, 18446744073709551615⟩

/-- Whether `n` lies in the range. -/
def Range.holds (r : Range) (n : Int) : Bool := r.least ≤ n && n ≤ r.greatest

/-- Reads a whole number: an optional sign and at least one digit. A minus sign is read only where
the range has negative numbers, and the number must lie in the range. -/
def Range.read? (r : Range) (text : List Char) : Option Int :=
  let value? : Option Int :=
    match text with
    | '+' :: ds => (readDigits? ds).map Int.ofNat
    | '-' :: ds => if r.least < 0 then (readDigits? ds).map fun n => -(n : Int) else none
    | ds => (readDigits? ds).map Int.ofNat
  value?.filter r.holds

end SoapClient.Decimal
