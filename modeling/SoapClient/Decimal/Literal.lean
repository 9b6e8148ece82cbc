import SoapClient.Decimal.Binary64

/-!
Numbers written with a point and an exponent. A literal keeps the number exactly, as a mantissa
and a power of ten; only turning it into a `Binary64` rounds.
-/

namespace SoapClient.Decimal

/-- A number as written: `±mantissa · 10 ^ exponent`, an infinity, or no number. -/
inductive Literal where
  | finite (negative : Bool) (mantissa : Nat) (exponent : Int)
  | infinite (negative : Bool)
  | notANumber
  deriving DecidableEq

namespace Literal

/-- The exponent after its mark: an optional sign and at least one digit. -/
def readExponent? : List Char → Option Int
  | '+' :: ds => (readDigits? ds).map Int.ofNat
  | '-' :: ds => (readDigits? ds).map fun n => -(n : Int)
  | ds => (readDigits? ds).map Int.ofNat

/-- Digits around an optional point, at least one in all, and an optional exponent. -/
def readFinite? (negative : Bool) (text : List Char) : Option Literal :=
  let whole := text.takeWhile Char.isDigit
  let rest := text.dropWhile Char.isDigit
  let (fraction, rest) :=
    match rest with
    | '.' :: rest => (rest.takeWhile Char.isDigit, rest.dropWhile Char.isDigit)
    | _ => ([], rest)
  let exponent? : Option Int :=
    match rest with
    | [] => some 0
    | c :: ds => if c = 'e' ∨ c = 'E' then readExponent? ds else none
  if whole ++ fraction = [] then none
  else exponent?.map fun e => .finite negative (ofDigits (whole ++ fraction)) (e - fraction.length)

/-- A number without its sign: `inf`, `infinity` and `nan` in any case, or a finite one. -/
def readUnsigned? (negative : Bool) (text : List Char) : Option Literal :=
  let lower := text.map Char.toLower
  if lower = "inf".toList ∨ lower = "infinity".toList then some (.infinite negative)
  else if lower = "nan".toList then some .notANumber
  else readFinite? negative text

/-- Reads a number with an optional sign. -/
def read? : List Char → Option Literal
  | '+' :: text => readUnsigned? false text
  | '-' :: text => readUnsigned? true text
  | text => readUnsigned? false text

/-- The nearest finite `Binary64`, where there is one. -/
def toBinary64? : Literal → Option Binary64
  | .finite negative mantissa exponent => Binary64.ofDecimal? negative mantissa exponent
  | .infinite _ => none
  | .notANumber => none

end Literal

end SoapClient.Decimal
