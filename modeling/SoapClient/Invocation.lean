import SoapClient.Transport.Basic
import SoapClient.Value.Arrange
import SoapClient.Value.Coerce

/-!
Invoking an operation by name. Everything is looked up and checked before the transport is asked,
which happens once; what it answers is then read as a value of the declared type.
-/

namespace SoapClient

/-- Why an invocation fails. -/
inductive InvokeError where
  | lookup (cause : LookupError)
  | arityMismatch (expected got : Nat)
  /-- An argument does not fit its parameter. -/
  | typeMismatch (cause : Mismatch)
  /-- The raw result is none of the declared type. -/
  | resultDecode (operation : String) (expected : TypeRef) (cause : Mismatch)
  | transport (cause : TransportError)

/-- The failure as shown to a reader. -/
def InvokeError.message : InvokeError → String
  | .lookup cause => cause.message
  | .arityMismatch expected got =>
    "Expected " ++ Decimal.natText expected ++ " arguments, got " ++ Decimal.natText got
  | .typeMismatch cause =>
    "Argument '" ++ cause.path.text ++ "' expected " ++ cause.fault.expected ++ ", found " ++
      cause.fault.actual
  | .resultDecode operation expected cause =>
    "Failed to decode the result of '" ++ operation ++ "' as " ++ expected.text ++ ": " ++
      cause.message
  | .transport cause => "Transport failed: " ++ cause.message

/-- Binds arguments to parameters: each is checked, and its members are put into declared order. -/
def bindArguments (m : ServiceModel) :
    List Parameter → List Json → Except Mismatch (List (String × Json))
  | p :: parameters, v :: values => do
    check m v p.type p.isOptional (.ofStart p.name)
    let others ← bindArguments m parameters values
    .ok ((p.name, arrange m v p.type) :: others)
  | _, _ => .ok []

/-- The request that an invocation makes. -/
def prepare (m : ServiceModel) (service operation : String) (values : List Json) :
    Except InvokeError Request := do
  let op ← (m.lookupOperation service operation).mapError .lookup
  if values.length ≠ op.parameters.length then
    throw (.arityMismatch op.parameters.length values.length)
  let arguments ← (bindArguments m op.parameters values).mapError .typeMismatch
  let s ← (m.lookupService service).mapError .lookup
  .ok ⟨service, s.endpoint, op, arguments⟩

/-- An invocation: what the transport was asked, and what came of it. -/
structure Invocation where
  requests : List Request
  outcome : Except InvokeError Json

/-- Reads the answer of a transport. -/
def readAnswer (m : ServiceModel) (r : Request) (answer : Except TransportError Json) :
    Except InvokeError Json :=
  match answer with
  | .error cause => .error (.transport cause)
  | .ok raw =>
    (coerce m raw r.operation.returnType).mapError
      (.resultDecode r.operation.name r.operation.returnType)

/-- Invokes an operation of a service with positional arguments. -/
def invoke (m : ServiceModel) (transport : Transport) (service operation : String)
    (values : List Json) : Invocation :=
  match prepare m service operation values with
  | .error e => ⟨[], .error e⟩
  | .ok r => ⟨[r], readAnswer m r (transport r)⟩

end SoapClient
