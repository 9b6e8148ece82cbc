import SoapClient.Envelope.Encode
import SoapClient.Transport.Basic

/-!
Responses: reading the raw result out of an envelope. A fault is reported as such whatever the
status is, and a status of failure whatever the body is.
-/

namespace SoapClient.Envelope

open Xml (Element)

/-- Whether a status means success. -/
def isSuccess (status : Nat) : Bool := 200 ≤ status && status < 300

/-- The namespace of an envelope, where an element is one. -/
def envelopeNamespace? (root : Element) : Option String :=
  if root.localName ≠ "Envelope" then none
  else
    root.namespaceName.filter fun ns =>
      ns = namespaceName .soap11 ∨ ns = namespaceName .soap12

/-- The element at the end of a path of local names. -/
def descend? : List String → Element → Option Element
  | [], e => some e
  | name :: path, e => (e.children.find? (·.localName = name)).bind (descend? path)

/-- The text at the first of some paths that leads anywhere, without blanks around it. -/
def textAt (paths : List (List String)) (e : Element) : String :=
  match paths.findSome? (descend? · e) with
  | some found => Text.trim found.text
  | none => ""

/-- The code and the reason of a fault, in either version of the protocol. -/
def faultError (fault : Element) : TransportError :=
  .fault (textAt [["faultcode"], ["Code", "Value"]] fault)
    (textAt [["faultstring"], ["Reason", "Text"]] fault)

/-- The value of the children of a response with a local name. -/
def resultValue (response : Element) (name : String) : Json :=
  match (response.children.filter (·.localName = name)).map Element.value with
  | [] => .null
  | vs => Xml.ofGroup vs

/-- The raw result in the body element of a response. -/
def payloadValue (op : Operation) (payload : Element) : Json :=
  match op.style, op.resultElement with
  | .documentBare, _ => payload.value
  | _, none => payload.value
  | _, some result => resultValue payload result

/-- The raw result in a body. -/
def decodeBody (ns : String) (body : Element) (text : String) (status : Nat) (op : Operation) :
    Except TransportError Json :=
  let payload? := body.children.head?
  match payload?.filter (·.is ns "Fault") with
  | some fault => .error (faultError fault)
  | none =>
    if !isSuccess status then .error (.status status text)
    else if op.returnType.isVoid then .ok .null
    else .ok ((payload?.map (payloadValue op)).getD .null)

/-- Reads a response that came with a status. -/
def decode (text : String) (status : Nat) (op : Operation) : Except TransportError Json :=
  let failed (cause : ResponseError) : Except TransportError Json :=
    if isSuccess status then .error (.invalidResponse cause) else .error (.status status text)
  match Element.ofText text with
  | .error cause => failed (.malformed cause)
  | .ok root =>
    match envelopeNamespace? root with
    | none => failed (.notEnvelope root.localName)
    | some ns =>
      match root.child? ns "Body" with
      | none => .error (.invalidResponse .noBody)
      | some body => decodeBody ns body text status op

end SoapClient.Envelope
