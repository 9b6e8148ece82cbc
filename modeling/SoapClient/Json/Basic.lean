import SoapClient.Decimal.Binary64

/-!
JSON values. Members of an object keep their order. A number is a whole number of 64 bits, signed
or unsigned, or else a finite binary64 number; which of the two it is can be seen in how it is
written.
-/

namespace SoapClient

/-- A whole number that fits 64 bits, signed or unsigned. -/
structure Json.Whole where
  value : Int
  lower : Decimal.Range.int64.least ≤ value
  upper : value ≤ Decimal.Range.nat64.greatest
  deriving DecidableEq

/-- A JSON value. -/
inductive Json where
  | null
  | bool (flag : Bool)
  | whole (n : Json.Whole)
  | real (x : Decimal.Binary64)
  | str (text : String)
  | arr (items : List Json)
  | obj (members : List (String × Json))

namespace Json

/-- The whole number, where it fits. -/
def Whole.ofInt? (n : Int) : Option Whole :=
  if h : Decimal.Range.int64.least ≤ n ∧ n ≤ Decimal.Range.nat64.greatest then some ⟨n, h.1, h.2⟩
  else none

/-- A whole number as a JSON value, where it fits. -/
def ofInt? (n : Int) : Option Json := (Whole.ofInt? n).map .whole

/-- What kind of value it is, as shown to a reader. -/
inductive Kind where
  | null
  | boolean
  | integer
  | number
  | string
  | array
  | object
  deriving DecidableEq

/-- The word for a kind. -/
def Kind.name : Kind → String
  | .null => "null"
  | .boolean => "boolean"
  | .integer => "integer"
  | .number => "number"
  | .string => "string"
  | .array => "array"
  | .object => "object"

/-- The kind of a value. -/
def kind : Json → Kind
  | .null => .null
  | .bool _ => .boolean
  | .whole _ => .integer
  | .real _ => .number
  | .str _ => .string
  | .arr _ => .array
  | .obj _ => .object

/-- A value that may be absent: `null` in place of nothing. -/
def ofOption (f : α → Json) : Option α → Json
  | none => .null
  | some a => f a

end Json

end SoapClient
