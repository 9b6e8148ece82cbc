import SoapClient.Decimal.Stepwise
import SoapClient.Json.Basic
import SoapClient.Table
import SoapClient.Text.Cut
import SoapClient.Text.Hexadecimal

/-!
Reading JSON. The grammar is strict: no comments, no trailing commas, no leading zeros, no raw
control characters in strings, no surrogate that stands alone. Arrays and objects may lie 127 deep
inside one another, and this bound is what the reader recurses on.
-/

namespace SoapClient.Json

/-- What a reader takes from the front of a text, and what it leaves. -/
abbrev Read (α : Type) := List Char → Option (α × List Char)

/-- The blanks between the tokens. -/
def isSpace (c : Char) : Bool := c = ' ' || c = '\t' || c = '\n' || c = '\r'

/-- The text without the blanks in front. -/
def skipSpace (cs : List Char) : List Char := cs.dropWhile isSpace

/-- The code unit of four hexadecimal digits. -/
def codeUnit? (a b c d : Char) : Option Nat := Text.Hexadecimal.read? [a, b, c, d]

/-- The first half of a surrogate pair. -/
def isHighSurrogate (n : Nat) : Bool := 0xD800 ≤ n && n < 0xDC00

/-- The second half of a surrogate pair. -/
def isLowSurrogate (n : Nat) : Bool := 0xDC00 ≤ n && n < 0xE000

/-- The character of a surrogate pair. -/
def pairChar (high low : Nat) : Char :=
  Char.ofNat (0x10000 + (high - 0xD800) * 0x400 + (low - 0xDC00))

/-- The character of an escape of one letter. -/
def escapedChar? (c : Char) : Option Char :=
  if c = '"' ∨ c = '\\' ∨ c = '/' then some c
  else if c = 'b' then some (Char.ofNat 8)
  else if c = 'f' then some (Char.ofNat 12)
  else if c = 'n' then some '\n'
  else if c = 'r' then some '\r'
  else if c = 't' then some '\t'
  else none

/-- The characters of a string up to its closing quote. -/
def readChars : Read (List Char)
  | [] => none
  | '"' :: rest => some ([], rest)
  | '\\' :: 'u' :: a :: b :: c :: d :: rest => do
    let n ← codeUnit? a b c d
    if isHighSurrogate n then
      match rest with
      | '\\' :: 'u' :: a :: b :: c :: d :: rest =>
        let low ← codeUnit? a b c d
        if isLowSurrogate low then
          let (cs, rest) ← readChars rest
          some (pairChar n low :: cs, rest)
        else none
      | _ => none
    else if isLowSurrogate n then none
    else
      let (cs, rest) ← readChars rest
      some (Char.ofNat n :: cs, rest)
  | '\\' :: c :: rest => do
    let e ← escapedChar? c
    let (cs, rest) ← readChars rest
    some (e :: cs, rest)
  | c :: rest =>
    if c.toNat < 32 ∨ c = '\\' then none
    else do
      let (cs, rest) ← readChars rest
      some (c :: cs, rest)

/-- A string whose opening quote has been read. -/
def readString : Read String := fun cs => do
  let (chars, rest) ← readChars cs
  some (String.ofList chars, rest)

/-- The digits before the point: a single zero, or digits that do not start with one. -/
def readWholeDigits : Read (List Char)
  | '0' :: rest => some (['0'], rest)
  | cs => if cs.head?.any Char.isDigit then some (cs.span Char.isDigit) else none

/-- A point and at least one digit, or nothing. -/
def readFraction : Read (List Char)
  | '.' :: rest => if rest.head?.any Char.isDigit then some (rest.span Char.isDigit) else none
  | cs => some ([], cs)

/-- An exponent with its mark, or nothing. -/
def readExponent : Read (Option Int) := fun cs =>
  match cs with
  | [] => some (none, cs)
  | c :: rest =>
    if c = 'e' ∨ c = 'E' then
      let (negative, rest) : Bool × List Char :=
        match rest with
        | '+' :: rest => (false, rest)
        | '-' :: rest => (true, rest)
        | _ => (false, rest)
      if rest.head?.any Char.isDigit then
        let (ds, rest) := rest.span Char.isDigit
        let n := Decimal.ofDigits ds
        some (some (if negative then -(n : Int) else n), rest)
      else none
    else some (none, cs)

/-- The value of a number that is written with a fraction or an exponent, or is too long for 64
bits. It is read in steps, each of which rounds. -/
def realValue? (negative : Bool) (ds fraction : List Char) (exponent : Int) : Option Json :=
  (Decimal.Binary64.ofDigitsStepwise? negative ds fraction exponent).map .real

/-- The value of a number. Minus zero is not a whole number. -/
def numberValue? (negative : Bool) (ds fraction : List Char) (exponent : Option Int) :
    Option Json :=
  match fraction, exponent with
  | [], none =>
    let n : Int := Decimal.ofDigits ds
    if negative ∧ n = 0 then realValue? negative ds [] 0
    else (ofInt? (if negative then -n else n)).orElse fun _ => realValue? negative ds [] 0
  | _, _ => realValue? negative ds fraction (exponent.getD 0)

/-- A number. -/
def readNumber : Read Json := fun cs => do
  let (negative, cs) : Bool × List Char :=
    match cs with
    | '-' :: rest => (true, rest)
    | _ => (false, cs)
  let (ds, cs) ← readWholeDigits cs
  let (fraction, cs) ← readFraction cs
  let (exponent, cs) ← readExponent cs
  let v ← numberValue? negative ds fraction exponent
  some (v, cs)

/-- A word, a number or a string. -/
def readScalar : Read Json := fun cs =>
  match Text.afterMarker? "null".toList cs with
  | some rest => some (.null, rest)
  | none =>
    match Text.afterMarker? "true".toList cs with
    | some rest => some (.bool true, rest)
    | none =>
      match Text.afterMarker? "false".toList cs with
      | some rest => some (.bool false, rest)
      | none =>
        match cs with
        | '"' :: rest => (readString rest).map fun (s, rest) => (.str s, rest)
        | _ => readNumber cs

/-- The items of an array up to its closing bracket, at most `fuel` of them. -/
def readItems (value : Read Json) : (fuel : Nat) → Read (List Json)
  | 0, _ => none
  | fuel + 1, cs => do
    let (v, cs) ← value (skipSpace cs)
    match skipSpace cs with
    | ']' :: rest => some ([v], rest)
    | ',' :: rest =>
      let (vs, rest) ← readItems value fuel rest
      some (v :: vs, rest)
    | _ => none

/-- A name, a colon and a value. -/
def readMember (value : Read Json) : Read (String × Json) := fun cs =>
  match skipSpace cs with
  | '"' :: cs => do
    let (name, cs) ← readString cs
    match skipSpace cs with
    | ':' :: cs =>
      let (v, cs) ← value (skipSpace cs)
      some ((name, v), cs)
    | _ => none
  | _ => none

/-- The members of an object up to its closing brace, at most `fuel` of them. -/
def readMembers (value : Read Json) : (fuel : Nat) → Read (List (String × Json))
  | 0, _ => none
  | fuel + 1, cs => do
    let (m, cs) ← readMember value cs
    match skipSpace cs with
    | '\x7d' :: rest => some ([m], rest)
    | ',' :: rest =>
      let (ms, rest) ← readMembers value fuel rest
      some (m :: ms, rest)
    | _ => none

/-- An object. A name that comes again keeps its first place and takes the last value. -/
def ofMembers (members : List (String × Json)) : Json :=
  .obj (members.foldl (fun ms (name, v) => Table.set name v ms) [])

/-- A value with at most `depth` arrays and objects inside one another. -/
def readValue : (depth : Nat) → Read Json
  | 0, cs => readScalar cs
  | depth + 1, cs =>
    match cs with
    | '[' :: cs =>
      match skipSpace cs with
      | ']' :: rest => some (.arr [], rest)
      | cs => (readItems (readValue depth) cs.length cs).map fun (vs, rest) => (.arr vs, rest)
    | '\x7b' :: cs =>
      match skipSpace cs with
      | '\x7d' :: rest => some (.obj [], rest)
      | cs =>
        (readMembers (readValue depth) cs.length cs).map fun (ms, rest) => (ofMembers ms, rest)
    | _ => readScalar cs

/-- How many arrays and objects may lie inside one another. -/
def maxDepth : Nat := 127

/-- The value of a JSON text, `none` where it is not one. -/
def read? (text : String) : Option Json :=
  match readValue maxDepth (skipSpace text.toList) with
  | some (v, rest) => if skipSpace rest = [] then some v else none
  | none => none

end SoapClient.Json
