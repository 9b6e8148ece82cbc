import SoapClient.Wsdl.Definitions
import SoapClient.Schema.Resolver

/-!
Operations: what a caller passes and gets, and how that is laid out in messages, from the parts of
the messages and the style of the binding.
-/

namespace SoapClient.Wsdl

open Xml (QName)
open Schema (Components Resolve resolve fieldsOf lift required)

/-- What the messages of an operation say about it. -/
structure Shape where
  parameters : List Parameter
  returnType : TypeRef
  style : BindingStyle
  namespaceName : Option String
  requestElement : String
  qualifiedParameters : Bool
  resultElement : Option String

/-- The type of a part: that of its element, or the type it names. -/
def partType (c : Components) (p : Part) : Resolve TypeRef :=
  match p.element, p.type with
  | some element, _ => resolve c (.element element)
  | none, some type => resolve c (.type type)
  | none, none => throw (.untypedPart p.name)

/-- The parts of a message as parameters. -/
def partParameters (c : Components) : List Part → Resolve (List Parameter)
  | [] => pure []
  | p :: rest => do
    let type ← partType c p
    let others ← partParameters c rest
    pure (⟨p.name, type, false⟩ :: others)

/-- The type of the first part of a message, of no value where there is no part. -/
def firstPartType (c : Components) (parts : Option (List Part)) : Resolve TypeRef :=
  match parts.bind List.head? with
  | some p => partType c p
  | none => pure .void

/-- The fields of a structured type, `none` for any other type. -/
def fieldsOfType : TypeRef → Resolve (Option (List Parameter))
  | .complex name => do
    let fields ← fieldsOf name
    pure (some fields)
  | _ => pure none

/-- An operation whose parts stand inside an element with its name. -/
def rpcShape (c : Components) (name : String) (input : List Part) (output : Option (List Part)) :
    Resolve Shape := do
  let parameters ← partParameters c input
  let returnType ← firstPartType c output
  pure {
    parameters, returnType
    style := .rpc
    namespaceName := none
    requestElement := name
    qualifiedParameters := false
    resultElement := (output.bind List.head?).map (·.name) }

/-- The element that wraps a message: that of its only part. -/
def wrapper? : List Part → Option QName
  | [p] => p.element
  | _ => none

/-- The result of a wrapped operation. A response that wraps one field stands for that field, one
that wraps none for no value. -/
def wrappedResult (c : Components) (output : Option (List Part)) :
    Resolve (TypeRef × Option String) := do
  match output.bind wrapper? with
  | some response => do
    let type ← resolve c (.element response)
    match ← fieldsOfType type with
    | some [] => pure (.void, none)
    | some [field] => pure (field.type, some field.name)
    | _ => pure (type, none)
  | none => do
    let type ← firstPartType c output
    pure (type, none)

/-- An operation whose request is an element with its name and of a structured type: the fields of
the type are the parameters. -/
def wrappedShape (c : Components) (element : QName) (parameters : List Parameter)
    (output : Option (List Part)) : Resolve Shape := do
  let (returnType, resultElement) ← wrappedResult c output
  pure {
    parameters, returnType, resultElement
    style := .documentWrapped
    namespaceName := element.namespaceName
    requestElement := element.localName
    qualifiedParameters := (Table.find? element c.elements).any (·.isQualified) }

/-- An operation whose parts are body elements. -/
def bareShape (c : Components) (name : String) (input : List Part)
    (output : Option (List Part)) : Resolve Shape := do
  let parameters ← partParameters c input
  let returnType ← firstPartType c output
  let first := input.findSome? (·.element)
  pure {
    parameters, returnType
    style := .documentBare
    namespaceName := first.bind (·.namespaceName)
    requestElement := (first.map (·.localName)).getD name
    qualifiedParameters := true
    resultElement := none }

/-- An operation in document style: wrapped where it can be, bare else. -/
def documentShape (c : Components) (name : String) (input : List Part)
    (output : Option (List Part)) : Resolve Shape := do
  match (wrapper? input).filter (·.localName = name) with
  | some element => do
    let type ← resolve c (.element element)
    match ← fieldsOfType type with
    | some parameters => wrappedShape c element parameters output
    | none => bareShape c name input output
  | none => bareShape c name input output

/-- The binding of a port type to the protocol, with what it refers to. -/
structure Bound where
  definitions : Definitions
  components : Components
  soap : SoapBinding

/-- An operation of a port type. -/
def readShape (b : Bound) (name style : String) (decl : OperationDecl) : Resolve Shape := do
  let input ←
    match decl.input with
    | some target => lift (b.definitions.message "input" target)
    | none => pure []
  let output ←
    match decl.output with
    | some target => do
      let parts ← lift (b.definitions.message "output" target)
      pure (some parts)
    | none => pure none
  if style = "rpc" then rpcShape b.components name input output
  else documentShape b.components name input output

/-- The operation of a declaration, under a name. What the binding says about the operation goes
before what it says about all. -/
def bindOperation (b : Bound) (name : String) (decl : OperationDecl) : Resolve Operation := do
  let bound := b.soap.operations.find? (·.name = some name)
  let style := ((bound.bind (·.style)).orElse fun _ => b.soap.style).getD "document"
  let shape ← readShape b name style decl
  let bodyNamespace :=
    if style = "rpc" then
      (bound.bind (·.bodyNamespace)).orElse fun _ => b.definitions.targetNamespace
    else none
  let operation : Operation := {
    name
    parameters := shape.parameters
    returnType := shape.returnType
    soapAction := (bound.bind (·.action)).filter (· ≠ "")
    style := shape.style
    soapVersion := b.soap.version
    namespaceName := bodyNamespace.orElse fun _ => shape.namespaceName
    requestElement := shape.requestElement
    qualifiedParameters := shape.qualifiedParameters
    resultElement := shape.resultElement }
  match Schema.firstRepeated? [] (operation.parameters.map (·.name)) with
  | some parameter => throw (.duplicateParameter name parameter)
  | none => pure operation

/-- The operations of a port type, in its order. `earlier` holds the names of those before; none
may come twice. -/
def bindOperations (b : Bound) (earlier : List String) :
    List OperationDecl → Resolve (List Operation)
  | [] => pure []
  | decl :: rest => do
    let name ← lift (required "operation" "name" decl.name)
    if name ∈ earlier then throw (.overloadedOperation name)
    let operation ← bindOperation b name decl
    let others ← bindOperations b (name :: earlier) rest
    pure (operation :: others)

end SoapClient.Wsdl
