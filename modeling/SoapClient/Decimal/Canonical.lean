import SoapClient.Text.Blank
import SoapClient.Text.Cut
import SoapClient.Decimal.Digits

/-!
Decimal numbers of any length, and the one way each of them is written: no leading zeros before
the point but a single one, no zeros at the end of the fraction, no point without a fraction, no
plus sign, and no sign for zero.
-/

namespace SoapClient.Decimal

/-- The digits before the point without leading zeros, one zero where nothing is left. -/
def canonicalWhole (ds : List Char) : List Char :=
  match ds.dropWhile (· = '0') with
  | [] => ['0']
  | ds => ds

/-- The digits behind the point without zeros at their end. -/
def canonicalFraction (ds : List Char) : List Char := (ds.reverse.dropWhile (· = '0')).reverse

/-- The canonical form of an unsigned decimal: digits with at most one point, and at least one
digit. -/
def canonicalUnsigned? (negative : Bool) (text : List Char) : Option (List Char) :=
  let (whole, fraction) := (Text.cutAt '.' text).getD (text, [])
  if whole ++ fraction = [] ∨ ¬ (whole ++ fraction).all Char.isDigit then none
  else
    let whole := canonicalWhole whole
    let fraction := canonicalFraction fraction
    let sign := if negative ∧ ¬ (whole = ['0'] ∧ fraction = []) then ['-'] else []
    let point := if fraction = [] then [] else ['.']
    some (sign ++ whole ++ point ++ fraction)

/-- The canonical form of a decimal, `none` where the text is no decimal. Blanks around it do not
count. -/
def canonical? (text : List Char) : Option (List Char) :=
  match Text.trimChars text with
  | [] => none
  | '-' :: digits => canonicalUnsigned? true digits
  | '+' :: digits => canonicalUnsigned? false digits
  | digits => canonicalUnsigned? false digits

end SoapClient.Decimal
