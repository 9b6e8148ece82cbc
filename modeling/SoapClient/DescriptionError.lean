import SoapClient.Xml.Scope

/-!
Why a service description cannot be interpreted.
-/

namespace SoapClient

open Xml (QName)

/-- Why a well-formed document is no description that can be interpreted on its own. -/
inductive DescriptionError where
  | notDefinitions (root : String)
  /-- A part of the description stands in another document. -/
  | externalDefinitions (location : String)
  /-- A part of a schema stands in another document; `keyword` is how it is referred to. -/
  | externalSchema (keyword location : String)
  | missingAttribute (element attributeName : String)
  | unboundReference (text : String)
  | ambiguousType (localName : String)
  | undefinedType (name : QName)
  | undefinedElement (name : QName)
  | undefinedMessage (name : QName)
  | undefinedBinding (name : QName)
  | undefinedPortType (name : QName)
  | cyclicDerivation (name : QName)
  | deepSimpleType
  | untypedPart (part : String)
  | duplicateService (name : String)
  | overloadedOperation (name : String)
  | duplicateParameter (operation parameter : String)
  /-- The types refer to each other in more steps than there are types. -/
  | unfinished
  /-- A structured type is referred to that has not been entered into the model. -/
  | unregistered (typeName : String)
  deriving DecidableEq

namespace DescriptionError

/-- What is wrong. -/
def detail : DescriptionError → String
  | notDefinitions root =>
    "expected a WSDL 1.1 'definitions' root element, found '" ++ root ++ "'"
  | externalDefinitions location =>
    "wsdl import of '" ++ location ++ "' requires an external document"
  | externalSchema keyword location =>
    "schema " ++ keyword ++ " of '" ++ location ++ "' requires an external document"
  | missingAttribute element attributeName =>
    "'" ++ element ++ "' element is missing its '" ++ attributeName ++ "' attribute"
  | unboundReference text => "prefix of '" ++ text ++ "' is not bound to a namespace"
  | ambiguousType localName =>
    "complex type '" ++ localName ++ "' is declared in several namespaces"
  | undefinedType name => "type '" ++ name.text ++ "' is not defined"
  | undefinedElement name => "element '" ++ name.text ++ "' is not defined"
  | undefinedMessage name => "message '" ++ name.text ++ "' is not defined"
  | undefinedBinding name => "binding '" ++ name.text ++ "' is not defined"
  | undefinedPortType name => "port type '" ++ name.text ++ "' is not defined"
  | cyclicDerivation name => "type '" ++ name.text ++ "' is derived from itself"
  | deepSimpleType => "simple type derivation is too deep or cyclic"
  | untypedPart part => "message part '" ++ part ++ "' has neither an element nor a type"
  | duplicateService name => "service '" ++ name ++ "' is declared twice"
  | overloadedOperation name => "operation '" ++ name ++ "' is overloaded, which is not supported"
  | duplicateParameter operation parameter =>
    "operation '" ++ operation ++ "' declares parameter '" ++ parameter ++ "' twice"
  | unfinished => "types refer to each other without an end"
  | unregistered typeName => "type '" ++ typeName ++ "' has not been entered"

/-- A failure of a description as shown to a reader. -/
def describe (detail : String) : String := "Unsupported service description: " ++ detail

/-- The failure as shown to a reader. -/
def message (e : DescriptionError) : String := describe e.detail

end DescriptionError

end SoapClient
