import SoapClient.Envelope.Decode
import SoapClient.Transport.Address

/-!
Calls over HTTP. A request is posted to the address of the service, with the headers that its
version of the protocol asks for, and the answer is read as an envelope. The network itself is a
function from requests to replies.
-/

namespace SoapClient.Http

/-- How a request is made. -/
inductive Method where
  | get
  | post
  deriving DecidableEq

/-- The name of a method. -/
def Method.name : Method → String
  | .get => "GET"
  | .post => "POST"

/-- A request. Headers that it lacks are `none`. -/
structure Message where
  method : Method
  url : String
  contentType : Option String
  soapAction : Option String
  body : String
  deriving DecidableEq

/-- What comes back. -/
inductive Reply where
  | answer (status : Nat) (body : List UInt8)
  /-- No answer came; the causes lead from the request to the reason. -/
  | failed (causes : List String)
  | timedOut
  deriving DecidableEq

/-- A network answers requests. -/
abbrev Network := Message → Reply

/-- What a failed request is called. -/
def sendFailure (url : String) : String := "error sending request for url (" ++ url ++ ")"

/-- The network of a machine that is not connected. -/
def Network.unreachable : Network := fun message =>
  .failed [sendFailure message.url, "client error (Connect)", "tcp connect error",
    "Network is unreachable (os error 101)"]

/-- What a request that cannot be built is called. -/
def buildFailure : String := "builder error"

/-- Whether a text can stand in a header: it has no control characters but tabs. -/
def isHeaderText (text : String) : Bool :=
  text.toList.all fun c => c = '\t' || (32 ≤ c.toNat && c.toNat ≠ 127)

/-- A text in quotes. -/
def quoted (text : String) : String := "\"" ++ text ++ "\""

/-- The headers of an operation: the content type and the action. The newer version of the
protocol has the action in the content type. -/
def headers (op : Operation) : String × Option String :=
  let action := op.soapAction.getD ""
  match op.soapVersion with
  | .soap11 => ("text/xml; charset=utf-8", some (quoted action))
  | .soap12 =>
    if action = "" then ("application/soap+xml; charset=utf-8", none)
    else ("application/soap+xml; charset=utf-8; action=" ++ quoted action, none)

/-- The message of a call to an address. -/
def messageOf (r : Request) (url : String) : Message :=
  let (contentType, soapAction) := headers r.operation
  ⟨.post, url, some contentType, soapAction, Envelope.encode r.operation r.arguments⟩

/-- Whether the headers of a message can be written. -/
def Message.hasHeaderTexts (message : Message) : Bool :=
  message.contentType.all isHeaderText && message.soapAction.all isHeaderText

/-- Why a message cannot be sent at all: the causes, the outermost first. Where the address names no
host, its headers do not matter any more. -/
def Message.failure? (message : Message) : Option (List String) :=
  match Address.read message.url with
  | .error fault => some [buildFailure, fault.detail]
  | .ok address =>
    if address.namesHost && !message.hasHeaderTexts then
      some [buildFailure, "failed to parse header value"]
    else address.refusal?.map fun why => [buildFailure ++ " for url (" ++ message.url ++ ")", why]

/-- Reads a reply as the answer to a call. -/
def readReply (op : Operation) : Reply → Except TransportError Json
  | .answer status body => Envelope.decode (Text.Utf8.decodeLenient body) status op
  | .failed causes => .error (.unsent (causes.headD ""))
  | .timedOut => .error .timeout

/-- The message that a call makes. Where `endpoint` is given, it takes the place of the address that
the description declares. -/
def prepareMessage (endpoint : Option String) (r : Request) : Except TransportError Message :=
  match endpoint.orElse fun _ => r.endpoint with
  | none => .error (.missingEndpoint r.service)
  | some url =>
    let message := messageOf r url
    match message.failure? with
    | some causes => .error (.unsent (causes.headD ""))
    | none => .ok message

/-- Performs calls over a network. -/
def transport (network : Network) (endpoint : Option String) : Transport := fun r => do
  let message ← prepareMessage endpoint r
  readReply r.operation (network message)

end SoapClient.Http
