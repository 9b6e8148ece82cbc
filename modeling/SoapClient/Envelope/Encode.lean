import SoapClient.Model.Basic
import SoapClient.Json.Writer
import SoapClient.Xml.Markup
import SoapClient.Xml.Value

/-!
Requests: writing bound arguments into an envelope. Objects become nested elements, the items of an
array become elements of one name, and null becomes an element that is marked as nil.
-/

namespace SoapClient.Envelope

open Xml (Markup)

/-- The namespace of envelopes. -/
def namespaceName : SoapVersion → String
  | .soap11 => "http://schemas.xmlsoap.org/soap/envelope/"
  | .soap12 => "http://www.w3.org/2003/05/soap-envelope"

/-- The qualifier of the operation's namespace. -/
def operationQualifier : String := "m"

/-- A name in the operation's namespace, or in none. -/
def qualify (isQualified : Bool) (localName : String) : String :=
  if isQualified then operationQualifier ++ ":" ++ localName else localName

/-- An element that holds a text. -/
def textElement (name text : String) : List Markup := [.element name [] [.text text]]

mutual

/-- The elements of a value under a written name. The names of members are qualified where
`isQualified` holds. -/
def ofValue (isQualified : Bool) (name : String) : Json → List Markup
  | .null => [.empty name [("xsi:nil", "true")]]
  | .bool flag => textElement name (Json.boolText flag)
  | .whole n => textElement name (Json.wholeText n)
  | .real x => textElement name (Json.realText x)
  | .str s => textElement name s
  | .arr items => ofItems isQualified name items
  | .obj members => [.element name [] (ofMembers isQualified members)]

/-- The elements of items under one written name. -/
def ofItems (isQualified : Bool) (name : String) : List Json → List Markup
  | [] => []
  | v :: rest => ofValue isQualified name v ++ ofItems isQualified name rest

/-- The elements of members. -/
def ofMembers (isQualified : Bool) : List (String × Json) → List Markup
  | [] => []
  | (name, v) :: rest =>
    ofValue isQualified (qualify isQualified name) v ++ ofMembers isQualified rest

end

/-- The body elements of a bare request: the first argument goes under the name of the request's
element, the others under their own. -/
def bareBody (isNamespaced isQualified : Bool) (requestElement : String) :
    List (String × Json) → List Markup
  | [] => []
  | (_, v) :: rest =>
    ofValue isQualified (qualify isNamespaced requestElement) v ++
      rest.flatMap fun (name, v) => ofValue isQualified (qualify isNamespaced name) v

/-- What the body of a request holds. -/
def body (op : Operation) (arguments : List (String × Json)) : List Markup :=
  let isNamespaced := op.namespaceName.isSome
  let isQualified := isNamespaced && op.qualifiedParameters
  match op.style with
  | .documentWrapped | .rpc =>
    [.element (qualify isNamespaced op.requestElement) [] (ofMembers isQualified arguments)]
  | .documentBare => bareBody isNamespaced isQualified op.requestElement arguments

/-- The namespaces that an envelope declares. -/
def declarations (op : Operation) : List (String × String) :=
  let operation :=
    match op.namespaceName with
    | some ns => [("xmlns:" ++ operationQualifier, ns)]
    | none => []
  [("xmlns:soap", namespaceName op.soapVersion), ("xmlns:xsi", Xml.instanceNamespace)] ++ operation

/-- The envelope of a request. -/
def ofRequest (op : Operation) (arguments : List (String × Json)) : Markup :=
  .element "soap:Envelope" (declarations op) [.element "soap:Body" [] (body op arguments)]

/-- The text of a request. -/
def encode (op : Operation) (arguments : List (String × Json)) : String :=
  Markup.document (ofRequest op arguments)

end SoapClient.Envelope
