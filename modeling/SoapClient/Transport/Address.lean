import SoapClient.Transport.Host

/-!
Addresses of services. An address has a scheme, and behind it there may be an authority, which names
a host and a port. What a name of a host is and whether there has to be one depends on the scheme.
-/

namespace SoapClient

/-- A host and a port. -/
structure Authority where
  host : Host
  port : Option Nat
  deriving DecidableEq

/-- An address. -/
structure Address where
  scheme : String
  authority : Option Authority
  deriving DecidableEq

namespace Authority

/-- The characters up to the first colon outside of square brackets, and those from it on. -/
def cutHost (isInside : Bool) : List Char → List Char × List Char
  | [] => ([], [])
  | c :: cs =>
    if c = ':' ∧ !isInside then ([], c :: cs)
    else
      let (host, rest) := cutHost (c = '[' || isInside && c ≠ ']') cs
      (c :: host, rest)

/-- The port behind a host, which may be left out. -/
def readPort : List Char → Except AddressFault (Option Nat)
  | [] => .ok none
  | [_] => .ok none
  | _ :: ds =>
    match (Decimal.readDigits? ds).filter (· ≤ 65535) with
    | some n => .ok (some n)
    | none => .error .port

/-- The host and the port in an authority, without the name of a user in front of an `@`. -/
def hostAndPort (text : List Char) : List Char × List Char :=
  cutHost false ((Text.cutAll '@' text).getLastD [])

/-- What stands between the solidi behind a scheme and the path. -/
def read (text : List Char) : Except AddressFault Authority := do
  let (host, rest) := hostAndPort text
  let host ← Host.read host
  let port ← readPort rest
  .ok ⟨host, port⟩

/-- An authority whose host is left to the scheme to read. The host may be empty where nothing else
is said about it. -/
def readOpaque (text : List Char) : Except AddressFault Authority := do
  let (host, rest) := hostAndPort text
  if host = [] ∧ text ≠ [] then .error .emptyHost
  else
    let host ← Host.readOpaque host
    let port ← readPort rest
    .ok ⟨host, port⟩

end Authority

namespace Address

/-- Whether a text is the name of a scheme. -/
def isScheme : List Char → Bool
  | c :: cs => c.isAlpha && cs.all fun c => c.isAlphanum || c = '+' || c = '-' || c = '.'
  | [] => false

/-- Whether a character separates the parts of a path. -/
def isSolidus (c : Char) : Bool := c = '/' || c = '\\'

/-- Whether a character ends an authority. -/
def endsAuthority (c : Char) : Bool := isSolidus c || c = '?' || c = '#'

/-- The characters that count: without blanks and control characters around them, and without tabs
and line breaks. -/
def significant (text : String) : List Char :=
  let isEdge (c : Char) : Bool := c.toNat ≤ 32
  let inner := ((text.toList.dropWhile isEdge).reverse.dropWhile isEdge).reverse
  inner.filter fun c => c ≠ '\t' && c ≠ '\n' && c ≠ '\r'

/-- Whether an address with the scheme is for HTTP. -/
def isForHttp (scheme : String) : Bool := scheme = "http" || scheme = "https"

/-- Whether an address with the scheme has a host whatever stands behind the scheme. -/
def hasHost (scheme : String) : Bool :=
  isForHttp scheme || ["ftp", "ws", "wss"].contains scheme

/-- Whether a text is the letter of a drive, which is no host. -/
def isDrive : List Char → Bool
  | [letter, mark] => letter.isAlpha && (mark = ':' || mark = '|')
  | _ => false

/-- The authority in an address of a file, if there is one. This very machine needs none. -/
def readFileAuthority? : List Char → Except AddressFault (Option Authority)
  | a :: b :: rest =>
    let host := rest.takeWhile (!endsAuthority ·)
    if isSolidus a && isSolidus b && host ≠ [] && !isDrive host then do
      let host ← Host.read host
      .ok (if host = .name "localhost" then none else some ⟨host, none⟩)
    else .ok none
  | _ => .ok none

/-- The authority behind a scheme, if there is one. -/
def readAuthority? (scheme : String) (rest : List Char) :
    Except AddressFault (Option Authority) :=
  if hasHost scheme then
    (Authority.read ((rest.dropWhile isSolidus).takeWhile (!endsAuthority ·))).map some
  else if scheme = "file" then readFileAuthority? rest
  else
    match Text.afterMarker? "//".toList rest with
    | some rest =>
      (Authority.readOpaque (rest.takeWhile fun c => c = '\\' || !endsAuthority c)).map some
    | none => .ok none

/-- Reads an address. -/
def read (text : String) : Except AddressFault Address :=
  match Text.cutAt ':' (significant text) with
  | none => .error .relative
  | some (scheme, rest) =>
    if isScheme scheme then do
      let scheme := String.ofList (scheme.map Char.toLower)
      .ok ⟨scheme, ← readAuthority? scheme rest⟩
    else .error .relative

/-- Whether an address names a host. -/
def namesHost (a : Address) : Bool := a.authority.any (·.host ≠ .name "")

/-- Characters that a name can hold and a request cannot. -/
def isUnsendable : Char → Bool
  | '"' | '\x60' | '\x7b' | '\x7d' => true
  | _ => false

/-- Why no request is sent to an address. -/
def refusal? (a : Address) : Option String :=
  if !isForHttp a.scheme then some "URL scheme is not allowed"
  else
    match a.authority with
    | some ⟨.name name, _⟩ =>
      if name.toList.any isUnsendable then some "Parsed Url is not a valid Uri" else none
    | _ => none

end Address

end SoapClient
