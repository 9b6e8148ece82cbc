import SoapClient.Model.TypeRef

/-!
The model of a service description: the services it offers, their operations, and the structured
types these refer to. It is plain data, built once and then only read.
-/

namespace SoapClient

/-- A named, typed slot: a parameter of an operation or a field of a structured type. -/
structure Parameter where
  name : String
  type : TypeRef
  /-- The value may be left out or be `null`. -/
  isOptional : Bool
  deriving DecidableEq

/-- How an operation lays out its messages. -/
inductive BindingStyle where
  /-- One body element, named by the operation, wraps all values. -/
  | documentWrapped
  /-- Each message part is a body element of its own. -/
  | documentBare
  /-- The message parts stand inside an element named by the operation. -/
  | rpc
  deriving DecidableEq

/-- The version of the protocol that a binding uses. -/
inductive SoapVersion where
  | soap11
  | soap12
  deriving DecidableEq

/-- An operation that can be called. -/
structure Operation where
  name : String
  /-- The parameters, in the order in which arguments are given. -/
  parameters : List Parameter
  returnType : TypeRef
  /-- The action that a request announces. -/
  soapAction : Option String
  style : BindingStyle
  soapVersion : SoapVersion
  /-- The namespace of the request's body element. -/
  namespaceName : Option String
  /-- The local name of the request's body element. -/
  requestElement : String
  /-- Elements inside the body element are in its namespace too. -/
  qualifiedParameters : Bool
  /-- The local name of the child of the response that holds the result; without it the response's
  body element is the result. -/
  resultElement : Option String
  deriving DecidableEq

/-- A service and the operations declared for it. -/
structure Service where
  name : String
  /-- The address that requests go to. -/
  endpoint : Option String
  operations : List Operation
  deriving DecidableEq

/-- A structured type. -/
structure ComplexType where
  name : String
  fields : List Parameter
  deriving DecidableEq

/-- The first field with a name. -/
def ComplexType.field? (t : ComplexType) (name : String) : Option Parameter :=
  t.fields.find? (·.name = name)

/-- A whole service description. -/
structure ServiceModel where
  targetNamespace : Option String
  /-- The services, in the order of the document. -/
  services : List Service
  types : List ComplexType
  deriving DecidableEq

end SoapClient
