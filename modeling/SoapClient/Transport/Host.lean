import SoapClient.Decimal.Digits
import SoapClient.HostName.Label
import SoapClient.Text.Utf8

/-!
Hosts. An address says where a host is found: by its name, by an IPv4 number or, in square brackets,
by an IPv6 number.
-/

namespace SoapClient

/-- Why a text is not an address. -/
inductive AddressFault where
  | relative
  | emptyHost
  | hostName
  | hostCharacter
  | ipv4
  | ipv6
  | port
  deriving DecidableEq

/-- What is wrong with the text. -/
def AddressFault.detail : AddressFault → String
  | .relative => "relative URL without a base"
  | .emptyHost => "empty host"
  | .hostName => "invalid international domain name"
  | .hostCharacter => "invalid domain character"
  | .ipv4 => "invalid IPv4 address"
  | .ipv6 => "invalid IPv6 address"
  | .port => "invalid port number"

/-- Where a host is found. -/
inductive Host where
  /-- A name in its spelling. -/
  | name (text : String)
  /-- The number of four bytes. -/
  | ipv4 (number : Nat)
  /-- The pieces of two bytes before and behind a gap of zeros. -/
  | ipv6 (before behind : List Nat)
  deriving DecidableEq

namespace Host

/-! ## IPv4 -/

/-- A part of a number: hexadecimal behind `0x`, octal behind `0`, decimal otherwise. -/
def readPart? : List Char → Option Nat
  | [] => none
  | '0' :: 'x' :: ds => Text.Hexadecimal.read? ds
  | '0' :: 'X' :: ds => Text.Hexadecimal.read? ds
  | '0' :: d :: ds =>
    if (d :: ds).all fun c => '0' ≤ c && c ≤ '7' then some (Nat.ofDigitChars 8 (d :: ds) 0)
    else none
  | ds => Decimal.readDigits? ds

/-- The parts between the points. An empty one at the end does not count. -/
def parts (text : List Char) : List (List Char) :=
  let ps := Text.cutAll '.' text
  if 1 < ps.length ∧ ps.getLast? = some [] then ps.dropLast else ps

/-- Whether the last part says that a number is meant. -/
def endsInNumber (text : List Char) : Bool :=
  (parts text).getLast?.any fun part =>
    part ≠ [] && part.all Char.isDigit || (readPart? part).isSome

/-- The number of one to four parts: a byte each but for the last, which fills what is left. -/
def readIpv4? (text : List Char) : Option Nat := do
  let ns ← (parts text).mapM readPart?
  let last ← ns.getLast?
  let bytes := ns.dropLast
  if bytes.length ≤ 3 ∧ bytes.all (· ≤ 255) ∧ last < Nat.pow 256 (4 - bytes.length) then
    some (bytes.foldl (256 * · + ·) 0 * Nat.pow 256 (4 - bytes.length) + last)
  else none

/-! ## IPv6 -/

/-- A piece: one to four hexadecimal digits. -/
def readPiece? (ds : List Char) : Option Nat :=
  if ds ≠ [] ∧ ds.length ≤ 4 then Text.Hexadecimal.read? ds else none

/-- A byte in decimal digits, without zeros in front. -/
def readByte? (ds : List Char) : Option Nat :=
  (Decimal.readDigits? ds).filter fun n => n ≤ 255 && Decimal.digits n = ds

/-- The two pieces of four bytes with points between them. -/
def readDotted? (ds : List Char) : Option (List Nat) := do
  match ← (Text.cutAll '.' ds).mapM readByte? with
  | [a, b, c, d] => some [256 * a + b, 256 * c + d]
  | _ => none

/-- Pieces with colons between them. The last one may be four bytes with points. -/
def readPieces? (isLast : Bool) : List (List Char) → Option (List Nat)
  | [] => some []
  | [ds] => (readPiece? ds).map ([·]) <|> if isLast then readDotted? ds else none
  | ds :: rest => do
    let n ← readPiece? ds
    let ns ← readPieces? isLast rest
    some (n :: ns)

/-- Pieces that may be absent. -/
def readSide? (isLast : Bool) (side : List Char) : Option (List Nat) :=
  if side = [] then some [] else readPieces? isLast (Text.cutAll ':' side)

/-- Eight pieces, or fewer around a gap. -/
def readIpv6? (text : List Char) : Option Host :=
  match Text.cutAtMarker "::".toList text with
  | some (before, behind) => do
    let b ← readSide? false before
    let e ← readSide? true behind
    if b.length + e.length ≤ 7 then some (.ipv6 b e) else none
  | none => do
    let ns ← readPieces? true (Text.cutAll ':' text)
    if ns.length = 8 then some (.ipv6 ns []) else none

/-! ## Any host -/

/-- The bytes with each `%` and two hexadecimal digits replaced by the byte that they stand for. -/
def unescape : List UInt8 → List UInt8
  | b :: c :: d :: rest =>
    match b == 37, Text.Hexadecimal.read? [Char.ofNat c.toNat, Char.ofNat d.toNat] with
    | true, some n => UInt8.ofNat n :: unescape rest
    | _, _ => b :: unescape (c :: d :: rest)
  | bytes => bytes

/-- The host that a text in square brackets names. -/
def readBracketed (inner : List Char) : Except AddressFault Host :=
  match if inner.getLast? = some ']' then readIpv6? inner.dropLast else none with
  | some host => .ok host
  | none => .error .ipv6

/-- The host that a text names. -/
def read : List Char → Except AddressFault Host
  | [] => .error .emptyHost
  | '[' :: inner => readBracketed inner
  | text =>
    match (Text.Utf8.decode? (unescape (String.ofList text).toUTF8.toList)).bind
        (HostName.read? ·.toList) with
    | none => .error .hostName
    | some [] => .error .emptyHost
    | some spelled =>
      if endsInNumber spelled then
        match readIpv4? spelled with
        | some n => .ok (.ipv4 n)
        | none => .error .ipv4
      else .ok (.name (String.ofList spelled))

/-- Whether a character cannot stand in a host that is left to its scheme to read. -/
def isSetApart (c : Char) : Bool :=
  c.toNat = 0 || c = ' ' || c ≠ '%' && HostName.Standing.isDelimiter c

/-- The host that a text names where its scheme says what names are. It may be empty. -/
def readOpaque : List Char → Except AddressFault Host
  | '[' :: inner => readBracketed inner
  | text =>
    if text.any isSetApart then .error .hostCharacter else .ok (.name (String.ofList text))

end Host

end SoapClient
