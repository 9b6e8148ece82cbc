import SoapClient.Model.Basic
import SoapClient.Json.Basic

/-!
The model as JSON. Members come in the order in which the model declares them.
-/

namespace SoapClient

/-- The name of a kind in a model that is written as JSON. -/
def PrimitiveKind.modelName : PrimitiveKind → String
  | .string => "String"
  | .boolean => "Boolean"
  | .int => "Int"
  | .long => "Long"
  | .float => "Float"
  | .double => "Double"
  | .decimal => "Decimal"
  | .dateTime => "DateTime"
  | .date => "Date"
  | .time => "Time"
  | .base64Binary => "Base64Binary"
  | .anyType => "AnyType"

/-- A type as JSON. -/
def TypeRef.toJson : TypeRef → Json
  | .void => .str "Void"
  | .primitive kind => .obj [("Primitive", .str kind.modelName)]
  | .complex name => .obj [("Complex", .str name)]
  | .array item => .obj [("Array", item.toJson)]

/-- The name of a style in a model that is written as JSON. -/
def BindingStyle.modelName : BindingStyle → String
  | .documentWrapped => "DocumentWrapped"
  | .documentBare => "DocumentBare"
  | .rpc => "Rpc"

/-- The name of a version in a model that is written as JSON. -/
def SoapVersion.modelName : SoapVersion → String
  | .soap11 => "Soap11"
  | .soap12 => "Soap12"

/-- A slot as JSON. -/
def Parameter.toJson (p : Parameter) : Json :=
  .obj [("name", .str p.name), ("type_ref", p.type.toJson), ("optional", .bool p.isOptional)]

/-- An operation as JSON. -/
def Operation.toJson (op : Operation) : Json :=
  .obj [
    ("name", .str op.name),
    ("parameters", .arr (op.parameters.map Parameter.toJson)),
    ("return_type", op.returnType.toJson),
    ("soap_action", Json.ofOption .str op.soapAction),
    ("style", .str op.style.modelName),
    ("soap_version", .str op.soapVersion.modelName),
    ("namespace", Json.ofOption .str op.namespaceName),
    ("request_element", .str op.requestElement),
    ("qualified_parameters", .bool op.qualifiedParameters),
    ("result_element", Json.ofOption .str op.resultElement)]

/-- A service as JSON. -/
def Service.toJson (s : Service) : Json :=
  .obj [
    ("name", .str s.name),
    ("endpoint", Json.ofOption .str s.endpoint),
    ("operations", .arr (s.operations.map Operation.toJson))]

/-- A structured type as JSON. -/
def ComplexType.toJson (t : ComplexType) : Json :=
  .obj [("name", .str t.name), ("fields", .arr (t.fields.map Parameter.toJson))]

/-- A model as JSON. -/
def ServiceModel.toJson (m : ServiceModel) : Json :=
  .obj [
    ("target_namespace", Json.ofOption .str m.targetNamespace),
    ("services", .arr (m.services.map Service.toJson)),
    ("types", .arr (m.types.map ComplexType.toJson))]

end SoapClient
