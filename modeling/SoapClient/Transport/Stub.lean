import SoapClient.Envelope.Decode

/-!
Transports that answer without a network, for trying out a description.
-/

namespace SoapClient.Transport

/-- Answers with the first argument, with null where there is none. -/
def echo : Transport := fun r =>
  .ok ((r.arguments.head?.map (·.2)).getD .null)

/-- Answers with the first argument of a name, with null where there is none. -/
def argument (name : String) : Transport := fun r => .ok ((r.argument? name).getD .null)

/-- Answers with a value. -/
def constant (v : Json) : Transport := fun _ => .ok v

/-- Fails. -/
def failing (e : TransportError) : Transport := fun _ => .error e

/-- The whole number of a value that fits 64 bits with a sign, zero for any other value. -/
def addend : Json → Int
  | .whole n => if Decimal.Range.int64.holds n.value then n.value else 0
  | _ => 0

/-- Answers with the sum of the arguments that are whole numbers of 64 bits, in their arithmetic. -/
def sum : Transport := fun r =>
  let total := r.arguments.foldl (fun total (_, v) => total + addend v) 0
  .ok ((Json.ofInt? (total.bmod (Nat.pow 2 64))).getD .null)

/-- Answers with what an envelope with a status says. -/
def response (status : Nat) (body : String) : Transport := fun r =>
  Envelope.decode body status r.operation

end SoapClient.Transport
