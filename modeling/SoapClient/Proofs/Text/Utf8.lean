import Mathlib.Tactic.IntervalCases
import SoapClient.Text.Utf8

/-!
# Texts in UTF-8 are read back

Main statement: the bytes of any text are read as this text (`decode?_encode`).
-/

namespace SoapClient.Text.Utf8

/-- The bytes of a text. -/
def encode (s : String) : List UInt8 := s.toList.flatMap String.utf8EncodeChar

/-! ## Bytes of a character -/

theorem ofByte?_of_lt {b : Nat} (h : b < 0x80) : Lead.ofByte? b = some ⟨b, 0, 0x80, 0xBF⟩ := by
  rw [Lead.ofByte?, if_pos h]

/-- The first of two bytes. The forms with less bits are overlong. -/
theorem ofByte?_of_two {bits : Nat} (hlow : 2 ≤ bits) (hhigh : bits < 32) :
    Lead.ofByte? (bits + 192) = some ⟨bits, 1, 0x80, 0xBF⟩ := by
  rw [Lead.ofByte?, if_neg (by omega), if_pos (by omega), Nat.add_sub_cancel]

/-- The first of three bytes. Without bits the form may be overlong, and with those of `0xD` it may
be a surrogate. -/
theorem ofByte?_of_three {bits : Nat} (hbits : bits < 16) :
    Lead.ofByte? (bits + 224) = some ⟨bits, 2, if bits = 0 then 0xA0 else 0x80,
      if bits = 0xD then 0x9F else 0xBF⟩ := by
  interval_cases bits <;> rfl

/-- The first of four bytes. Without bits the form may be overlong, and with those of `4` it may be
too large. -/
theorem ofByte?_of_four {bits : Nat} (hbits : bits < 5) :
    Lead.ofByte? (bits + 240) = some ⟨bits, 3, if bits = 0 then 0x90 else 0x80,
      if bits = 4 then 0x8F else 0xBF⟩ := by
  interval_cases bits <;> rfl

variable {following least greatest bits : Nat} {bytes : List UInt8}

/-- A byte that follows adds its six bits. -/
theorem readTail_cons {low : Nat} (hlow : low < 64) (hleast : least ≤ low + 128)
    (hgreatest : low + 128 ≤ greatest) :
    readTail (following + 1) least greatest bits (UInt8.ofNat (low + 128) :: bytes) =
      readTail following 0x80 0xBF (bits * 64 + low) bytes := by
  have hbyte : (UInt8.ofNat (low + 128)).toNat = low + 128 :=
    UInt8.toNat_ofNat_of_lt' (show low + 128 < 256 by omega)
  rw [readTail, hbyte, if_pos ⟨hleast, hgreatest⟩, Nat.add_sub_cancel]

theorem readOne_of_lead {b : Nat} (hb : b < 256)
    (h : Lead.ofByte? b = some ⟨bits, following, least, greatest⟩) :
    readOne (UInt8.ofNat b) bytes = readTail following least greatest bits bytes := by
  rw [readOne, UInt8.toNat_ofNat_of_lt' hb, h]

/-- The bytes of a character are read as this character. -/
theorem scan_encodeChar (c : Char) (bytes : List UInt8) :
    scan (String.utf8EncodeChar c ++ bytes) = some c :: scan bytes := by
  -- it is enough that the first byte and those behind it give the character
  suffices h : ∃ b tail, String.utf8EncodeChar c = b :: tail ∧
      readOne b (tail ++ bytes) = (some c, bytes) by
    obtain ⟨b, tail, hencode, hread⟩ := h
    rw [hencode, List.cons_append, scan, hread]
  have hc : Char.ofNat c.val.toNat = c := Char.ofNat_toNat c
  have hvalid : c.val.toNat < 0xD800 ∨ (0xDFFF < c.val.toNat ∧ c.val.toNat < 0x110000) := c.valid
  unfold String.utf8EncodeChar
  generalize c.val.toNat = v at hc hvalid
  dsimp only
  -- one byte, two, three and four
  split
  · refine ⟨_, _, rfl, ?_⟩
    rw [readOne_of_lead (by omega) (ofByte?_of_lt (by omega)), readTail, hc, List.nil_append]
  split
  · have hv : v / 64 % 32 * 64 + v % 64 = v := by omega
    refine ⟨_, _, rfl, ?_⟩
    rw [readOne_of_lead (by omega) (ofByte?_of_two (by omega) (by omega)), List.cons_append,
      readTail_cons (by omega) (by omega) (by omega), hv, readTail, hc, List.nil_append]
  split
  · have hv : (v / 4096 % 16 * 64 + v / 64 % 64) * 64 + v % 64 = v := by omega
    refine ⟨_, _, rfl, ?_⟩
    rw [readOne_of_lead (by omega) (ofByte?_of_three (by omega)), List.cons_append,
      readTail_cons (by omega) (by split <;> omega) (by split <;> omega), List.cons_append,
      readTail_cons (by omega) (by omega) (by omega), hv, readTail, hc, List.nil_append]
  · have hv : ((v / 262144 % 8 * 64 + v / 4096 % 64) * 64 + v / 64 % 64) * 64 + v % 64 = v := by
      omega
    refine ⟨_, _, rfl, ?_⟩
    rw [readOne_of_lead (by omega) (ofByte?_of_four (by omega)), List.cons_append,
      readTail_cons (by omega) (by split <;> omega) (by split <;> omega), List.cons_append,
      readTail_cons (by omega) (by omega) (by omega), List.cons_append,
      readTail_cons (by omega) (by omega) (by omega), hv, readTail, hc, List.nil_append]

/-- The bytes of a text are read as this text. -/
theorem decode?_encode (s : String) : decode? (encode s) = some s := by
  have hscan : ∀ cs : List Char, scan (cs.flatMap String.utf8EncodeChar) = cs.map some := by
    intro cs
    induction cs with
    | nil => rw [List.flatMap_nil, scan, List.map_nil]
    | cons c rest ih => rw [List.flatMap_cons, scan_encodeChar, ih, List.map_cons]
  have hall : ∀ cs : List Char, (cs.map some).mapM id = some cs := by
    intro cs
    induction cs with
    | nil => rfl
    | cons c rest ih => simp [ih]
  rw [decode?, encode, hscan, hall, Option.map_some, String.ofList_toList]

end SoapClient.Text.Utf8
