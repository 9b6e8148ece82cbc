import SoapClient.CommandLine.Basic
import SoapClient.Json.Reader
import SoapClient.Text.Blank
import SoapClient.Decimal.Literal

/-!
Reading the values of arguments.
-/

namespace SoapClient.CommandLine

/-- A service and an operation with a solidus between them. -/
def readOperation (text : String) : Except ValueError (String × String) :=
  match Text.splitFirst? '/' text with
  | none => .error (.operationFormat text)
  | some (service, operation) =>
    if Text.isBlankText service ∨ Text.isBlankText operation then .error .emptyName
    else .ok (service, operation)

/-- The arguments of a call: a JSON array. -/
def readArguments (text : String) : Except ValueError (List Json) :=
  match Json.read? text with
  | some (.arr items) => .ok items
  | some _ => .error .notArray
  | none => .error .notJson

/-- How many seconds no length of time reaches. -/
def secondsLimit : Nat := Nat.pow 2 64

open Decimal (Binary64) in
/-- The length of time of a number of seconds, to the nearest nanosecond, a half to the even one. -/
def durationOf (seconds : Binary64) : Except ValueError Duration :=
  if seconds.isZero then .ok ⟨0, 0, by decide⟩
  else if seconds.negative then .error .negativeTime
  else if secondsLimit * Binary64.unitsPerOne ≤ seconds.units then .error .endlessTime
  else
    let total := Binary64.roundQuotient (seconds.units * 1000000000) Binary64.unitsPerOne
    .ok ⟨total / 1000000000, total % 1000000000, Nat.mod_lt _ (by decide)⟩

/-- A length of time in seconds. Numbers past the greatest binary64 number are infinite. -/
def readDuration (text : String) : Except ValueError Duration :=
  match Decimal.Literal.read? text.toList with
  | none => .error (.notSeconds text)
  | some .notANumber => .error .endlessTime
  | some (.infinite negative) => .error (if negative then .negativeTime else .endlessTime)
  | some (.finite negative mantissa exponent) =>
    match Decimal.Binary64.ofDecimal? negative mantissa exponent with
    | some seconds => durationOf seconds
    | none => .error (if negative then .negativeTime else .endlessTime)

end SoapClient.CommandLine
