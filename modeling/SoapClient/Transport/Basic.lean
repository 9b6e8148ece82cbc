import SoapClient.Model.Basic
import SoapClient.Xml.Document
import SoapClient.Json.Basic
import SoapClient.Decimal.Digits

/-!
Transports: the way in which a resolved call reaches the remote side and its raw result comes back.
-/

namespace SoapClient

/-- A call with everything resolved. -/
structure Request where
  service : String
  /-- The address that the description declares for the service. -/
  endpoint : Option String
  operation : Operation
  /-- The arguments under the names of their parameters, in their order. -/
  arguments : List (String × Json)

/-- The first argument with a name. -/
def Request.argument? (r : Request) (name : String) : Option Json := r.arguments.lookup name

/-- Why a response cannot be read. -/
inductive ResponseError where
  | malformed (cause : Xml.DocumentError)
  | notEnvelope (root : String)
  | noBody
  | other (text : String)
  deriving DecidableEq

/-- What is wrong with the response. -/
def ResponseError.detail : ResponseError → String
  | .malformed cause => cause.message
  | .notEnvelope root => "expected a SOAP envelope, found '" ++ root ++ "'"
  | .noBody => "the envelope has no Body"
  | .other text => text

/-- Why a call fails on its way. -/
inductive TransportError where
  | timeout
  | cancelled
  /-- The remote side reports a fault. -/
  | fault (code text : String)
  /-- The remote side answers with a status of failure. -/
  | status (code : Nat) (body : String)
  | missingEndpoint (service : String)
  | invalidRequest (text : String)
  /-- The request cannot be sent. -/
  | unsent (text : String)
  | invalidResponse (cause : ResponseError)
  deriving DecidableEq

/-- The failure as shown to a reader. -/
def TransportError.message : TransportError → String
  | .timeout => "The remote call timed out"
  | .cancelled => "The remote call was cancelled"
  | .fault code text => "Remote fault '" ++ code ++ "': " ++ text
  | .status code body =>
    "Unexpected HTTP status " ++ Decimal.natText code ++ ": '" ++ body ++ "'"
  | .missingEndpoint service => "No endpoint is known for service '" ++ service ++ "'"
  | .invalidRequest text => "Failed to build the request: " ++ text
  | .unsent text => "Failed to send the request: '" ++ text ++ "'"
  | .invalidResponse cause => "Invalid response: " ++ cause.detail

/-- Performs a call. -/
abbrev Transport := Request → Except TransportError Json

end SoapClient
