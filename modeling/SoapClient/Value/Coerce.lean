import SoapClient.Value.Check
import SoapClient.Json.Writer
import SoapClient.Decimal.Literal

/-!
Reading a raw result as a value of its declared type. What comes over the wire is mostly text, so
the texts of numbers and truth values are read; a number that JSON cannot hold exactly stays a
text, and so do the special floating point values.
-/

namespace SoapClient

/-- A canonical decimal as a JSON number, where the number says the same. -/
def exactNumber? (canonical : List Char) : Option Json :=
  let whole? := if '.' ∈ canonical then none else Decimal.Range.int64.read? canonical
  match whole?.bind Json.ofInt? with
  | some n => some n
  | none =>
    match (Decimal.Literal.read? canonical).bind Decimal.Literal.toBinary64? with
    | some x => if Decimal.Layout.plain.render x = canonical then some (.real x) else none
    | none => none

/-- The truth value of a text. -/
def readBoolean? (text : String) : Option Json :=
  let trimmed := Text.trim text
  if trimmed = "true" ∨ trimmed = "1" then some (.bool true)
  else if trimmed = "false" ∨ trimmed = "0" then some (.bool false)
  else none

/-- The number of a text, in the first of some ranges that holds it. -/
def readWhole? (ranges : List Decimal.Range) (text : String) : Option Json :=
  (ranges.findSome? (·.read? (Text.trimChars text.toList))).bind Json.ofInt?

/-- The floating point value of a text. The special ones stay texts, without blanks. -/
def readFloat? (text : String) : Option Json :=
  if isSpecialFloat text then some (.str (Text.trim text))
  else
    ((Decimal.Literal.read? (Text.trimChars text.toList)).bind
      Decimal.Literal.toBinary64?).map .real

/-- The decimal of a text: a number where it is exact, the canonical text else. -/
def readDecimal? (text : String) : Option Json :=
  (Decimal.canonical? text.toList).map fun canonical =>
    (exactNumber? canonical).getD (.str (String.ofList canonical))

/-- The value of a kind that a text stands for. -/
def PrimitiveKind.readText? : PrimitiveKind → String → Option Json
  | .boolean, s => readBoolean? s
  | .int, s => readWhole? [.int32] s
  | .long, s => readWhole? [.int64, .nat64] s
  | .float, s | .double, s => readFloat? s
  | .decimal, s => readDecimal? s
  | .string, s | .dateTime, s | .date, s | .time, s | .base64Binary, s | .anyType, s =>
    some (.str s)

/-- Whether the values of a kind are texts. -/
def PrimitiveKind.isTextual : PrimitiveKind → Bool
  | .string | .dateTime | .date | .time | .base64Binary => true
  | _ => false

/-- The text of a truth value or a number. -/
def Json.scalarText? : Json → Option String
  | .bool flag => some (Json.boolText flag)
  | .whole n => some (Json.wholeText n)
  | .real x => some (Json.realText x)
  | _ => none

/-- How a text that is no value of a kind is quoted: a long one without the blanks around it, any
other as it stands. -/
def PrimitiveKind.refusedText : PrimitiveKind → String → String
  | .long, s => Text.trim s
  | _, s => s

/-- Reads a value as one of a primitive kind. -/
def coercePrimitive (kind : PrimitiveKind) (v : Json) (path : Path) : Except Mismatch Json :=
  match v with
  | .str s =>
    match kind.readText? s with
    | some r => .ok r
    | none => .error ⟨path, .unreadable kind (kind.refusedText s)⟩
  | v =>
    let asText := if kind.isTextual then v.scalarText? else none
    match asText with
    | some s => .ok (.str s)
    | none => if kind.accepts v then .ok v else .error (wrongKind v (.primitive kind) path)

/-- How a value is read: as one of a type, at a place. -/
abbrev Coercer := TypeRef → Path → Except Mismatch Json

/-- A single value where an array is expected is its only item. -/
def coerceSingle (coerce : Coercer) : Coercer
  | .array item, path => (coerceSingle coerce item (path.step (.item 0))).map fun v => .arr [v]
  | t, path => coerce t path

/-- A value that has no parts. -/
def coerceScalar (v : Json) : Coercer
  | .void, _ => .ok .null
  | .primitive kind, path => coercePrimitive kind v path
  | t, path => .error (wrongKind v t path)

/-- A text of blanks alone is an empty array or an empty object where such is expected. -/
def coerceText (s : String) : Coercer := fun t path =>
  if Text.isBlankText s then
    match t with
    | .array _ => .ok (.arr [])
    | .complex _ => .ok (.obj [])
    | t => coerceScalar (.str s) t path
  else coerceSingle (coerceScalar (.str s)) t path

mutual

/-- Reads a value as one of a type, at a place. -/
def coerceAt (m : ServiceModel) : Json → Coercer
  | .null => fun _ _ => .ok .null
  | .arr items => fun t path =>
    match t with
    | .array item => (coerceItems m item path 0 items).map .arr
    | t => coerceScalar (.arr items) t path
  | .obj members =>
    coerceSingle fun t path =>
      match t with
      | .complex typeName =>
        match m.complexType? typeName with
        | some t => (coerceMembers m t path members).map .obj
        | none => .error ⟨path, .undefinedType typeName⟩
      | t => coerceScalar (.obj members) t path
  | .str s => coerceText s
  | .bool flag => coerceSingle (coerceScalar (.bool flag))
  | .whole n => coerceSingle (coerceScalar (.whole n))
  | .real x => coerceSingle (coerceScalar (.real x))

/-- The items of an array from an index on. -/
def coerceItems (m : ServiceModel) (item : TypeRef) (path : Path) (i : Nat) :
    List Json → Except Mismatch (List Json)
  | [] => .ok []
  | v :: rest => do
    let r ← coerceAt m v item (path.step (.item i))
    let rs ← coerceItems m item path (i + 1) rest
    .ok (r :: rs)

/-- The members of an object. Those that the type does not declare stay as they are. -/
def coerceMembers (m : ServiceModel) (t : ComplexType) (path : Path) :
    List (String × Json) → Except Mismatch (List (String × Json))
  | [] => .ok []
  | (name, v) :: rest => do
    let r ←
      match t.field? name with
      | some field => coerceAt m v field.type (path.step (.field name))
      | none => .ok v
    let rs ← coerceMembers m t path rest
    .ok ((name, r) :: rs)

end

/-- Reads a raw result as a value of a type. -/
def coerce (m : ServiceModel) (v : Json) (t : TypeRef) : Except Mismatch Json :=
  coerceAt m v t (.ofStart "")

end SoapClient
