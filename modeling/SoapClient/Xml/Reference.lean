import SoapClient.Text.Cut
import SoapClient.Text.Hexadecimal
import SoapClient.Decimal.Digits

/-!
References to characters inside texts and attribute values, and the five characters that are
written as references.
-/

namespace SoapClient.Xml

/-- The character of a name that is always declared. -/
def namedChar? (name : List Char) : Option Char :=
  if name = "lt".toList then some '<'
  else if name = "gt".toList then some '>'
  else if name = "amp".toList then some '&'
  else if name = "apos".toList then some '\''
  else if name = "quot".toList then some '"'
  else none

/-- The character with a code point. NUL and the surrogates are none. -/
def charOfCode? (n : Nat) : Option Char :=
  if n ≠ 0 ∧ n.isValidChar then some (Char.ofNat n) else none

/-- The character of what stands between `&` and `;`. -/
def referencedChar? (name : List Char) : Option Char :=
  match name with
  | '#' :: 'x' :: ds => if ds = [] then none else (Text.Hexadecimal.read? ds).bind charOfCode?
  | '#' :: ds => (Decimal.readDigits? ds).bind charOfCode?
  | _ => namedChar? name

/-- The characters with every reference resolved, `none` where one is not closed or not known. -/
def resolveReferences? : List Char → Option (List Char)
  | [] => some []
  | c :: cs =>
    if c = '&' then
      match h : Text.cutAt ';' cs with
      | some (name, rest) =>
        have : rest.length ≤ cs.length := by
          rw [(Text.cutAt_eq_some h).1]
          simp
          omega
        match referencedChar? name, resolveReferences? rest with
        | some d, some ds => some (d :: ds)
        | _, _ => none
      | none => none
    else (resolveReferences? cs).map (c :: ·)
  termination_by cs => cs.length

/-- A character as it is written in texts and attribute values. -/
def escapeChar (c : Char) : List Char :=
  if c = '<' then "&lt;".toList
  else if c = '>' then "&gt;".toList
  else if c = '&' then "&amp;".toList
  else if c = '\'' then "&apos;".toList
  else if c = '"' then "&quot;".toList
  else [c]

/-- Characters as they are written in texts and attribute values. -/
def escape (cs : List Char) : List Char := cs.flatMap escapeChar

end SoapClient.Xml
