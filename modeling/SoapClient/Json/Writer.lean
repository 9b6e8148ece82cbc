import SoapClient.Json.Basic
import SoapClient.Decimal.Layout
import SoapClient.Text.Hexadecimal

/-!
Writing JSON, without any blanks or spread over lines with two blanks per level.
-/

namespace SoapClient.Json

/-- Numbers are written without an exponent while their leading digit stands within five places
behind the point or sixteen before it; whole ones then end in `.0`. -/
def numberLayout : Decimal.Layout := ⟨fun lead => -5 ≤ lead && lead ≤ 15, true, .toEven⟩

/-- The text of a number. -/
def realText (x : Decimal.Binary64) : String := String.ofList (numberLayout.render x)

/-- The text of a whole number. -/
def wholeText (n : Whole) : String := Decimal.intText n.value

/-- The text of a truth value. -/
def boolText (flag : Bool) : String := if flag then "true" else "false"

/-- A character inside a string. Quotes, backslashes and control characters are escaped. -/
def escapeChar (c : Char) : List Char :=
  if c = '"' then ['\\', '"']
  else if c = '\\' then ['\\', '\\']
  else if c.toNat = 8 then ['\\', 'b']
  else if c.toNat = 9 then ['\\', 't']
  else if c.toNat = 10 then ['\\', 'n']
  else if c.toNat = 12 then ['\\', 'f']
  else if c.toNat = 13 then ['\\', 'r']
  else if c.toNat < 32 then
    ['\\', 'u', '0', '0', Text.Hexadecimal.digit (c.toNat / 16),
      Text.Hexadecimal.digit (c.toNat % 16)]
  else [c]

/-- A string in quotes. -/
def quote (s : String) : String :=
  String.ofList ('"' :: s.toList.flatMap escapeChar ++ ['"'])

mutual

/-- The value without blanks. -/
def compact : Json → String
  | .null => "null"
  | .bool flag => boolText flag
  | .whole n => wholeText n
  | .real x => realText x
  | .str s => quote s
  | .arr items => "[" ++ ",".intercalate (compactItems items) ++ "]"
  | .obj members => "\x7b" ++ ",".intercalate (compactMembers members) ++ "\x7d"

/-- The items of an array without blanks. -/
def compactItems : List Json → List String
  | [] => []
  | v :: rest => v.compact :: compactItems rest

/-- The members of an object without blanks. -/
def compactMembers : List (String × Json) → List String
  | [] => []
  | (name, v) :: rest => (quote name ++ ":" ++ v.compact) :: compactMembers rest

end

/-- A line break and the blanks of a level. -/
def newLine (level : Nat) : String := String.ofList ('\n' :: List.replicate (2 * level) ' ')

/-- Parts in brackets, each on a line of its own. -/
def spread (opening closing : String) (level : Nat) (parts : List String) : String :=
  if parts.isEmpty then opening ++ closing
  else
    opening ++ newLine (level + 1) ++ ("," ++ newLine (level + 1)).intercalate parts ++
      newLine level ++ closing

mutual

/-- The value spread over lines, from a level of nesting. -/
def prettyAt (level : Nat) : Json → String
  | .null => "null"
  | .bool flag => boolText flag
  | .whole n => wholeText n
  | .real x => realText x
  | .str s => quote s
  | .arr items => spread "[" "]" level (prettyItems (level + 1) items)
  | .obj members => spread "\x7b" "\x7d" level (prettyMembers (level + 1) members)

/-- The items of an array spread over lines. -/
def prettyItems (level : Nat) : List Json → List String
  | [] => []
  | v :: rest => v.prettyAt level :: prettyItems level rest

/-- The members of an object spread over lines. -/
def prettyMembers (level : Nat) : List (String × Json) → List String
  | [] => []
  | (name, v) :: rest => (quote name ++ ": " ++ v.prettyAt level) :: prettyMembers level rest

end

/-- The value spread over lines. -/
def pretty (v : Json) : String := v.prettyAt 0

end SoapClient.Json
