import SoapClient.Wsdl.Operation
import SoapClient.Wsdl.Reader
import SoapClient.Xml.Document

/-!
Interpreting a description: from its document to the model of its services. The declarations are
gathered first, then all types are resolved, then the services are bound in their order; the first
fault on this way is reported.
-/

namespace SoapClient

/-- Why there is no model of a document. -/
inductive ParseError where
  | malformed (cause : Xml.DocumentError)
  | unsupported (cause : DescriptionError)
  deriving DecidableEq

/-- The failure as shown to a reader. -/
def ParseError.message : ParseError → String
  | .malformed cause => cause.message
  | .unsupported cause => cause.message

namespace Wsdl

open Schema (Components Resolve Resolution lift required)

/-- A port that is bound to the protocol. -/
structure SoapPort where
  binding : BindingDecl
  soap : SoapBinding
  endpoint : Option String

/-- The ports of a service that are bound to the protocol, in their order. -/
def soapPorts (d : Definitions) : List PortDecl → Except DescriptionError (List SoapPort)
  | [] => .ok []
  | port :: rest => do
    let binding ← d.binding port
    let others ← soapPorts d rest
    match binding.soap with
    | some soap => .ok (⟨binding, soap, port.address soap.version⟩ :: others)
    | none => .ok others

/-- The port that is used: the first one of the older version of the protocol, else the first. -/
def selectPort (ports : List SoapPort) : Option SoapPort :=
  (ports.find? (·.soap.version = .soap11)).orElse fun _ => ports.head?

/-- A service under a name. Without a port that is bound to the protocol it has no operations. -/
def bindService (d : Definitions) (c : Components) (name : String) (decl : ServiceDecl) :
    Resolve Service := do
  let ports ← lift (soapPorts d decl.ports)
  match selectPort ports with
  | none => pure ⟨name, none, []⟩
  | some port => do
    let declared ← lift (d.portType port.binding)
    let operations ← bindOperations ⟨d, c, port.soap⟩ [] declared
    pure ⟨name, port.endpoint, operations⟩

/-- Services, in their order. `earlier` holds the names of those before; none may come twice. -/
def bindServices (d : Definitions) (c : Components) (earlier : List String) :
    List ServiceDecl → Resolve (List Service)
  | [] => pure []
  | decl :: rest => do
    let name ← lift (required "service" "name" decl.name)
    if name ∈ earlier then throw (.duplicateService name)
    let service ← bindService d c name decl
    let others ← bindServices d c (name :: earlier) rest
    pure (service :: others)

/-- The model of a description. -/
def Description.model (d : Description) : Except DescriptionError ServiceModel := do
  let definitions ← Definitions.ofDescription d
  let components ← Components.ofSchemas d.schemas
  let interpret : Resolve (List Service) := do
    Schema.resolveAll components
    bindServices definitions components [] d.services
  let (services, resolution) ← interpret.run Resolution.start
  .ok ⟨d.targetNamespace, services, resolution.types⟩

/-- The model of the description with a root element. -/
def modelOf (root : Xml.Element) : Except DescriptionError ServiceModel := do
  let description ← readDescription root
  description.model

end Wsdl

/-- The model of the description in a document. -/
def ServiceModel.parse (bytes : List UInt8) : Except ParseError ServiceModel := do
  let root ← (Xml.Element.ofBytes bytes).mapError .malformed
  (Wsdl.modelOf root).mapError .unsupported

end SoapClient
