/-!
UTF-8. A sequence of bytes falls into characters and faults, a fault being the longest start of a
character that the next byte does not continue. Strict reading refuses a fault, lenient reading
puts U+FFFD in its place.
-/

namespace SoapClient.Text.Utf8

/-- What the first byte of a character announces. -/
structure Lead where
  /-- The bits of the code point that the byte itself holds. -/
  bits : Nat
  /-- How many bytes follow. -/
  following : Nat
  /-- The least value of the byte after it. -/
  least : Nat
  /-- The greatest value of the byte after it. -/
  greatest : Nat

/-- The bytes that start a character. The bounds on the second byte rule out overlong forms,
surrogates and code points past U+10FFFF. -/
def Lead.ofByte? (b : Nat) : Option Lead :=
  if b < 0x80 then some ⟨b, 0, 0x80, 0xBF⟩
  else if 0xC2 ≤ b ∧ b ≤ 0xDF then some ⟨b - 0xC0, 1, 0x80, 0xBF⟩
  else if b = 0xE0 then some ⟨0, 2, 0xA0, 0xBF⟩
  else if b = 0xED then some ⟨0xD, 2, 0x80, 0x9F⟩
  else if 0xE1 ≤ b ∧ b ≤ 0xEF then some ⟨b - 0xE0, 2, 0x80, 0xBF⟩
  else if b = 0xF0 then some ⟨0, 3, 0x90, 0xBF⟩
  else if 0xF1 ≤ b ∧ b ≤ 0xF3 then some ⟨b - 0xF0, 3, 0x80, 0xBF⟩
  else if b = 0xF4 then some ⟨4, 3, 0x80, 0x8F⟩
  else none

/-- Reads `following` continuation bytes, the first of which lies in the given bounds. Gives the
character, or `none` at the first byte that does not fit, and the bytes left over. -/
def readTail : (following least greatest bits : Nat) → List UInt8 → Option Char × List UInt8
  | 0, _, _, bits, bytes => (some (Char.ofNat bits), bytes)
  | _ + 1, _, _, _, [] => (none, [])
  | n + 1, least, greatest, bits, b :: bytes =>
    if least ≤ b.toNat ∧ b.toNat ≤ greatest then
      readTail n 0x80 0xBF (bits * 64 + (b.toNat - 0x80)) bytes
    else (none, b :: bytes)

theorem readTail_length (following least greatest bits : Nat) (bytes : List UInt8) :
    (readTail following least greatest bits bytes).2.length ≤ bytes.length := by
  induction following generalizing least greatest bits bytes with
  | zero => simp [readTail]
  | succ n ih =>
    cases bytes with
    | nil => simp [readTail]
    | cons b bytes =>
      rw [readTail]
      split
      · exact Nat.le_succ_of_le (ih ..)
      · simp

/-- Reads one character, or one fault, that starts with byte `b`. -/
def readOne (b : UInt8) (bytes : List UInt8) : Option Char × List UInt8 :=
  match Lead.ofByte? b.toNat with
  | some lead => readTail lead.following lead.least lead.greatest lead.bits bytes
  | none => (none, bytes)

theorem readOne_length (b : UInt8) (bytes : List UInt8) :
    (readOne b bytes).2.length ≤ bytes.length := by
  unfold readOne
  split
  · exact readTail_length ..
  · simp

/-- The characters of a sequence of bytes in order, with `none` for each fault. -/
def scan : List UInt8 → List (Option Char)
  | [] => []
  | b :: bytes =>
    have := readOne_length b bytes
    (readOne b bytes).1 :: scan (readOne b bytes).2
  termination_by bytes => bytes.length

/-- The text of a sequence of bytes without faults. -/
def decode? (bytes : List UInt8) : Option String :=
  ((scan bytes).mapM id).map String.ofList

/-- The text of a sequence of bytes with U+FFFD in place of each fault. -/
def decodeLenient (bytes : List UInt8) : String :=
  String.ofList ((scan bytes).map (·.getD '\uFFFD'))

end SoapClient.Text.Utf8
