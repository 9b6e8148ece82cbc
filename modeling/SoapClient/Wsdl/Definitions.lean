import SoapClient.Wsdl.Description
import SoapClient.Table

/-!
The declarations of a description under their qualified names. Where a name is declared twice, the
last declaration counts.
-/

namespace SoapClient.Wsdl

open Xml (QName)
open Schema (Reference required)

/-- A part of a message with the names it refers to. -/
structure Part where
  name : String
  element : Option QName
  type : Option QName
  deriving DecidableEq

/-- What a description declares. -/
structure Definitions where
  targetNamespace : Option String
  messages : List (QName × List Part)
  portTypes : List (QName × List OperationDecl)
  bindings : List (QName × BindingDecl)

/-- Follows the references of a part. -/
def PartDecl.resolve (p : PartDecl) : Except DescriptionError Part := do
  let name ← required "part" "name" p.name
  let element ← Reference.followOption p.element
  let type ← Reference.followOption p.type
  .ok ⟨name, element, type⟩

namespace Definitions

/-- Adds a declaration. What stands in another document is refused. -/
def add (d : Definitions) : Declaration → Except DescriptionError Definitions
  | .imported location => .error (.externalDefinitions (location.getD ""))
  | .message name parts => do
    let name ← required "message" "name" name
    let parts ← parts.mapM PartDecl.resolve
    .ok { d with messages := Table.set ⟨d.targetNamespace, name⟩ parts d.messages }
  | .portType name operations => do
    let name ← required "portType" "name" name
    .ok { d with portTypes := Table.set ⟨d.targetNamespace, name⟩ operations d.portTypes }
  | .binding name decl => do
    let name ← required "binding" "name" name
    .ok { d with bindings := Table.set ⟨d.targetNamespace, name⟩ decl d.bindings }

/-- The declarations of a description. -/
def ofDescription (d : Description) : Except DescriptionError Definitions :=
  d.declarations.foldlM add ⟨d.targetNamespace, [], [], []⟩

/-- The parts of the message that the input or output of an operation refers to. -/
def message (d : Definitions) (direction : String) (target : Option Reference) :
    Except DescriptionError (List Part) := do
  let name ← Reference.followRequired direction "message" target
  match Table.find? name d.messages with
  | some parts => .ok parts
  | none => .error (.undefinedMessage name)

/-- The binding of a port. -/
def binding (d : Definitions) (port : PortDecl) : Except DescriptionError BindingDecl := do
  let name ← Reference.followRequired "port" "binding" port.binding
  match Table.find? name d.bindings with
  | some decl => .ok decl
  | none => .error (.undefinedBinding name)

/-- The operations of the port type of a binding. -/
def portType (d : Definitions) (decl : BindingDecl) :
    Except DescriptionError (List OperationDecl) := do
  let name ← Reference.followRequired "binding" "type" decl.portType
  match Table.find? name d.portTypes with
  | some operations => .ok operations
  | none => .error (.undefinedPortType name)

end Definitions

end SoapClient.Wsdl
