import SoapClient.Schema.Declaration
import SoapClient.Model.Basic

/-!
Service descriptions as they are written: messages, port types, bindings and services, before any
reference between them is followed.
-/

namespace SoapClient.Wsdl

open Schema (Reference SchemaDecl)

/-- The namespace of descriptions. -/
def namespaceName : String := "http://schemas.xmlsoap.org/wsdl/"

/-- A part of a message, which refers to an element or to a type. -/
structure PartDecl where
  name : Option String
  element : Option Reference
  type : Option Reference

/-- An operation of a port type. Its input and output refer to messages, where it has such. -/
structure OperationDecl where
  name : Option String
  input : Option (Option Reference)
  output : Option (Option Reference)

/-- What a binding says about an operation. -/
structure BoundOperation where
  name : Option String
  action : Option String
  style : Option String
  /-- The namespace that the body of the request is bound to. -/
  bodyNamespace : Option String

/-- How a binding uses the protocol. -/
structure SoapBinding where
  version : SoapVersion
  style : Option String
  operations : List BoundOperation

/-- A binding of a port type, to the protocol or to something else. -/
structure BindingDecl where
  portType : Option Reference
  soap : Option SoapBinding

/-- A port of a service: its binding, and its address in each version of the protocol. -/
structure PortDecl where
  binding : Option Reference
  address : SoapVersion → Option String

/-- A service and its ports. -/
structure ServiceDecl where
  name : Option String
  ports : List PortDecl

/-- A declaration that others refer to. -/
inductive Declaration where
  /-- A reference to another document. -/
  | imported (location : Option String)
  | message (name : Option String) (parts : List PartDecl)
  | portType (name : Option String) (operations : List OperationDecl)
  | binding (name : Option String) (decl : BindingDecl)

/-- A description. -/
structure Description where
  targetNamespace : Option String
  declarations : List Declaration
  schemas : List SchemaDecl
  services : List ServiceDecl

end SoapClient.Wsdl
