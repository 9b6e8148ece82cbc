/-!
Types of values. A type is a tag that says how a value is checked and read; structured types are
referred to by name.
-/

namespace SoapClient

/-- The kinds that the built-in types of XML Schema are folded into. -/
inductive PrimitiveKind where
  | string
  | boolean
  | int
  | long
  | float
  | double
  | decimal
  | dateTime
  | date
  | time
  | base64Binary
  | anyType
  deriving DecidableEq

namespace PrimitiveKind

/-- The kind as shown to a reader. -/
def text : PrimitiveKind → String
  | .string => "string"
  | .boolean => "boolean"
  | .int => "int"
  | .long => "long"
  | .float => "float"
  | .double => "double"
  | .decimal => "decimal"
  | .dateTime => "dateTime"
  | .date => "date"
  | .time => "time"
  | .base64Binary => "base64Binary"
  | .anyType => "anyType"

/-- The built-in types with a kind of their own, by local name. -/
def builtins : List (PrimitiveKind × List String) := [
  (.string, ["string", "normalizedString", "token", "anyURI", "QName", "NCName", "Name", "ID",
    "IDREF", "language", "NMTOKEN", "duration", "hexBinary"]),
  (.boolean, ["boolean"]),
  (.int, ["int", "short", "byte", "unsignedShort", "unsignedByte"]),
  (.long, ["long", "integer", "unsignedInt", "unsignedLong", "nonNegativeInteger",
    "positiveInteger", "nonPositiveInteger", "negativeInteger"]),
  (.float, ["float"]),
  (.double, ["double"]),
  (.decimal, ["decimal"]),
  (.dateTime, ["dateTime"]),
  (.date, ["date"]),
  (.time, ["time"]),
  (.base64Binary, ["base64Binary"])]

/-- The kind of a built-in type. One without a kind of its own can hold anything. -/
def ofBuiltin (localName : String) : PrimitiveKind :=
  match builtins.find? fun (_, names) => names.contains localName with
  | some (kind, _) => kind
  | none => .anyType

end PrimitiveKind

/-- The type of a value. -/
inductive TypeRef where
  /-- No value at all. -/
  | void
  | primitive (kind : PrimitiveKind)
  /-- A structured type, by its name in the model. -/
  | complex (name : String)
  | array (item : TypeRef)
  deriving DecidableEq, Inhabited

namespace TypeRef

/-- The type as shown to a reader. -/
def text : TypeRef → String
  | .void => "void"
  | .primitive kind => kind.text
  | .complex name => name
  | .array item => item.text ++ "[]"

/-- Whether there is no value. -/
def isVoid : TypeRef → Bool
  | .void => true
  | _ => false

end TypeRef

end SoapClient
