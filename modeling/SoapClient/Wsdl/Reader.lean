import SoapClient.Wsdl.Description
import SoapClient.Schema.Reader

/-!
Reading a description from the elements of its document. Only a root of another name is refused;
what else is wrong shows when the description is interpreted.
-/

namespace SoapClient.Wsdl

open Xml (Element)
open Schema (Reference reference?)

/-- The namespace of the elements that bind a description to a version of the protocol. -/
def bindingNamespace : SoapVersion → String
  | .soap11 => "http://schemas.xmlsoap.org/wsdl/soap/"
  | .soap12 => "http://schemas.xmlsoap.org/wsdl/soap12/"

/-- A part of a message. -/
def readPart (e : Element) : PartDecl :=
  ⟨e.attribute? "name", reference? e "element", reference? e "type"⟩

/-- The message that the input or output of an operation refers to. -/
def readMessageRef (e : Element) (direction : String) : Option (Option Reference) :=
  (e.child? namespaceName direction).map (reference? · "message")

/-- An operation of a port type. -/
def readOperation (e : Element) : OperationDecl :=
  ⟨e.attribute? "name", readMessageRef e "input", readMessageRef e "output"⟩

/-- What a binding to a version of the protocol says about an operation. -/
def readBoundOperation (version : SoapVersion) (e : Element) : BoundOperation :=
  let operation := e.child? (bindingNamespace version) "operation"
  let body := (e.child? namespaceName "input").bind (·.child? (bindingNamespace version) "body")
  { name := e.attribute? "name"
    action := operation.bind (·.attribute? "soapAction")
    style := operation.bind (·.attribute? "style")
    bodyNamespace := body.bind (·.attribute? "namespace") }

/-- How a binding uses a version of the protocol, where it does. -/
def readSoapBinding (version : SoapVersion) (e : Element) : Option SoapBinding :=
  (e.child? (bindingNamespace version) "binding").map fun soap =>
    ⟨version, soap.attribute? "style",
      (e.childrenNamed namespaceName "operation").map (readBoundOperation version)⟩

/-- A binding. The older version of the protocol goes first. -/
def readBinding (e : Element) : BindingDecl :=
  ⟨reference? e "type", (readSoapBinding .soap11 e).orElse fun _ => readSoapBinding .soap12 e⟩

/-- A port of a service. -/
def readPort (e : Element) : PortDecl :=
  ⟨reference? e "binding", fun version =>
    (e.child? (bindingNamespace version) "address").bind (·.attribute? "location")⟩

/-- A service. -/
def readService (e : Element) : ServiceDecl :=
  ⟨e.attribute? "name", (e.childrenNamed namespaceName "port").map readPort⟩

/-- A declaration that others refer to. -/
def readDeclaration (e : Element) : Option Declaration :=
  if e.namespaceName ≠ some namespaceName then none
  else
    match e.localName with
    | "import" => some (.imported (e.attribute? "location"))
    | "message" =>
      some (.message (e.attribute? "name") ((e.childrenNamed namespaceName "part").map readPart))
    | "portType" =>
      some (.portType (e.attribute? "name")
        ((e.childrenNamed namespaceName "operation").map readOperation))
    | "binding" => some (.binding (e.attribute? "name") (readBinding e))
    | _ => none

/-- All schemas of a description, numbered in the order of the document. -/
def readSchemas (root : Element) : List Schema.SchemaDecl :=
  let schemas := (root.childrenNamed namespaceName "types").flatMap
    (·.childrenNamed Schema.namespaceName "schema")
  schemas.mapIdx fun i e => Schema.readSchema [i] e

/-- The description of a root element. -/
def readDescription (root : Element) : Except DescriptionError Description :=
  if root.is namespaceName "definitions" then
    .ok {
      targetNamespace := root.attribute? "targetNamespace"
      declarations := root.children.filterMap readDeclaration
      schemas := readSchemas root
      services := (root.childrenNamed namespaceName "service").map readService }
  else .error (.notDefinitions root.localName)

end SoapClient.Wsdl
