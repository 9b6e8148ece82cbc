import SoapClient.Model.Lookup
import SoapClient.Value.Mismatch
import SoapClient.Decimal.Canonical

/-!
Checking that an argument fits its declared type before anything is sent. The first place that
does not fit is reported: unknown members of an object come before its declared fields, and these
are looked at in their declared order.
-/

namespace SoapClient

/-- The texts of the floating point values that are no numbers of JSON. -/
def specialFloats : List String := ["INF", "+INF", "-INF", "NaN"]

/-- Whether a text is one of these, with blanks around it or not. -/
def isSpecialFloat (text : String) : Bool := specialFloats.contains (Text.trim text)

/-- Whether a text is a decimal number. -/
def isDecimalText (text : String) : Bool := (Decimal.canonical? text.toList).isSome

/-- The values that a primitive kind takes. -/
def PrimitiveKind.accepts : PrimitiveKind → Json → Bool
  | .anyType, _ => true
  | .boolean, .bool _ => true
  | .int, .whole n => Decimal.Range.int32.holds n.value
  | .long, .whole _ => true
  | .float, .whole _ | .float, .real _ | .double, .whole _ | .double, .real _ => true
  | .float, .str s | .double, .str s => isSpecialFloat s
  | .decimal, .whole _ | .decimal, .real _ => true
  | .decimal, .str s => isDecimalText s
  | .string, .str _ | .dateTime, .str _ | .date, .str _ | .time, .str _
  | .base64Binary, .str _ => true
  | _, _ => false

/-- How a value is checked: against a type, where it may be optional, at a place. -/
abbrev Checker := TypeRef → Bool → Path → Except Mismatch Unit

/-- A value that a type does not take. -/
def wrongKind (v : Json) (t : TypeRef) (path : Path) : Mismatch := ⟨path, .wrongKind t v.kind⟩

/-- Null fits what is optional, what has no value and what takes anything. -/
def checkNull : Checker := fun t isOptional path =>
  if isOptional ∨ t = .void ∨ t = .primitive .anyType then .ok ()
  else .error (wrongKind .null t path)

/-- A value against a type that does not look inside it. -/
def checkWhole (v : Json) : Checker := fun t _ path =>
  match t with
  | .primitive kind => if kind.accepts v then .ok () else .error (wrongKind v t path)
  | _ => .error (wrongKind v t path)

/-- The items of an array from an index on, each against the same type. -/
def checkItems (item : TypeRef) (path : Path) : (index : Nat) → List Checker →
    Except Mismatch Unit
  | _, [] => .ok ()
  | i, check :: rest => do
    check item false (path.step (.item i))
    checkItems item path (i + 1) rest

/-- The member that belongs to a field. One that is missing must be optional. -/
def checkField (members : List (String × Checker)) (path : Path) (field : Parameter) :
    Except Mismatch Unit :=
  let path := path.step (.field field.name)
  match members.lookup field.name with
  | some check => check field.type field.isOptional path
  | none => if field.isOptional then .ok () else .error ⟨path, .missing field.type⟩

/-- The members of an object against the fields of a structured type. -/
def checkFields (m : ServiceModel) (typeName : String) (members : List (String × Checker))
    (path : Path) : Except Mismatch Unit :=
  match m.complexType? typeName with
  | none => .error ⟨path, .undefinedType typeName⟩
  | some t =>
    match members.find? fun (name, _) => (t.field? name).isNone with
    | some (unknown, _) => .error ⟨path.step (.field unknown), .undeclared typeName⟩
    | none => t.fields.forM (checkField members path)

mutual

/-- How a value is checked. -/
def checker (m : ServiceModel) : Json → Checker
  | .null => checkNull
  | .arr items => fun t isOptional path =>
    match t with
    | .array item => checkItems item path 0 (itemCheckers m items)
    | _ => checkWhole (.arr items) t isOptional path
  | .obj members => fun t isOptional path =>
    match t with
    | .complex typeName => checkFields m typeName (memberCheckers m members) path
    | _ => checkWhole (.obj members) t isOptional path
  | .bool flag => checkWhole (.bool flag)
  | .whole n => checkWhole (.whole n)
  | .real x => checkWhole (.real x)
  | .str s => checkWhole (.str s)

/-- How the items of an array are checked. -/
def itemCheckers (m : ServiceModel) : List Json → List Checker
  | [] => []
  | v :: rest => checker m v :: itemCheckers m rest

/-- How the members of an object are checked. -/
def memberCheckers (m : ServiceModel) : List (String × Json) → List (String × Checker)
  | [] => []
  | (name, v) :: rest => (name, checker m v) :: memberCheckers m rest

end

/-- Checks that a value fits a slot. -/
def check (m : ServiceModel) (v : Json) (t : TypeRef) (isOptional : Bool) (path : Path) :
    Except Mismatch Unit :=
  checker m v t isOptional path

/-- The checkers of members are those of the single members, under the same names. -/
theorem memberCheckers_eq_map (m : ServiceModel) (members : List (String × Json)) :
    memberCheckers m members = members.map fun (name, v) => (name, checker m v) := by
  induction members with
  | nil => rfl
  | cons p rest ih => simp [memberCheckers, ih]

end SoapClient
