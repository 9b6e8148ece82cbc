/-!
Punycode: text beyond ASCII, written in ASCII. A code starts with the ASCII characters of the text,
and a hyphen ends them if there are any. Numbers follow that say, in the order of the code points,
which character is put in next and where. A number is a run of digits to the base 36 that says by
itself where it ends.
-/

namespace SoapClient.Text.Punycode

/-! ## Numbers -/

/-- The value of a digit: letters in either case are worth 0 to 25, decimal digits 26 to 35. -/
def digit? (c : Char) : Option Nat :=
  if 'a' ≤ c ∧ c ≤ 'z' then some (c.toNat - 97)
  else if 'A' ≤ c ∧ c ≤ 'Z' then some (c.toNat - 65)
  else if '0' ≤ c ∧ c ≤ '9' then some (c.toNat - 22)
  else none

/-- At place `k`, a digit below the threshold is the last one of its number. -/
def threshold (bias k : Nat) : Nat := min (max (36 * (k + 1) - bias) 1) 26

/-- Reads the digits of a number from place `k` on, where a digit counts `weight` times. Gives the
number and what follows it. -/
def readFrom? (bias : Nat) : (k weight : Nat) → List Char → Option (Nat × List Char)
  | _, _, [] => none
  | k, weight, c :: cs => do
    let d ← digit? c
    if d < threshold bias k then some (d * weight, cs)
    else
      let (n, rest) ← readFrom? bias (k + 1) (weight * (36 - threshold bias k)) cs
      some (d * weight + n, rest)

/-- Reads a number. -/
def readNumber? (bias : Nat) (cs : List Char) : Option (Nat × List Char) := readFrom? bias 0 1 cs

/-- A number takes up characters. -/
theorem readFrom?_length {bias k weight n : Nat} {cs rest : List Char}
    (h : readFrom? bias k weight cs = some (n, rest)) : rest.length < cs.length := by
  induction cs generalizing k weight n with
  | nil => simp [readFrom?] at h
  | cons c cs ih =>
    simp only [readFrom?, Option.bind_eq_bind, Option.bind_eq_some_iff] at h
    obtain ⟨d, -, h⟩ := h
    split at h
    · simp only [Option.some.injEq, Prod.mk.injEq] at h
      simp [h.2]
    · simp only [Option.bind_eq_some_iff, Option.some.injEq, Prod.mk.injEq] at h
      obtain ⟨⟨m, r⟩, hread, -, rfl⟩ := h
      exact Nat.lt_succ_of_lt (ih hread)

theorem readNumber?_length {bias n : Nat} {cs rest : List Char}
    (h : readNumber? bias cs = some (n, rest)) : rest.length < cs.length :=
  readFrom?_length h

/-! ## The bias -/

/-- Brings a number down by parts of 35. Each part adds the base to the bias. -/
def scaledBias (n : Nat) : Nat :=
  if 455 < n then 36 + scaledBias (n / 35) else 36 * n / (n + 38)
  termination_by n
  decreasing_by omega

/-- The bias that follows a number, which put in the last of `length` characters. -/
def nextBias (isFirst : Bool) (number length : Nat) : Nat :=
  let n := if isFirst then number / 700 else number / 2
  scaledBias (n + n / length)

/-! ## Codes -/

/-- The character with a code point. -/
def character? (n : Nat) : Option Char := if n.isValidChar then some (Char.ofNat n) else none

/-- Puts the characters of a code into a text. A number counts the places passed over since the last
character was put in, which was followed by place `place` for the code point `point`. -/
def putAll? (bias point place : Nat) (isFirst : Bool) (text : List Char) :
    List Char → Option (List Char)
  | [] => some text
  | c :: cs =>
    match h : readNumber? bias (c :: cs) with
    | none => none
    | some (number, rest) =>
      have := readNumber?_length h
      let length := text.length + 1
      let passed := place + number
      let point := point + passed / length
      let place := passed % length
      match character? point with
      | none => none
      | some new =>
        putAll? (nextBias isFirst number length) point (place + 1) false
          (text.take place ++ new :: text.drop place) rest
  termination_by cs => cs.length
  decreasing_by exact this

/-- The characters in front of the last hyphen, if there are any, and what follows the hyphen. -/
def splitCode (code : List Char) : List Char × List Char :=
  let front := ((code.reverse.dropWhile (· ≠ '-')).drop 1).reverse
  if front = [] then ([], code) else (front, code.drop (front.length + 1))

/-- The text that a code is written for. -/
def decode? (code : List Char) : Option (List Char) :=
  let (front, numbers) := splitCode code
  if front.all (·.toNat < 128) then putAll? 72 128 0 true front numbers else none

end SoapClient.Text.Punycode
