import SoapClient.Text.Cut
import SoapClient.Text.Hexadecimal

/-!
Tables of classes of characters. A class is a run of code points. A table is written as entries with
blanks between them, in the order of the code points: where a class begins, in hexadecimal digits,
and a letter that names it.
-/

namespace SoapClient.Text

/-- The words of a text, which blanks and line breaks part. -/
def words (text : String) : List (List Char) :=
  (cutAll ' ' (text.toList.map fun c => if c = '\n' then ' ' else c)).filter (· ≠ [])

/-- Where classes of characters begin, the least code point first. -/
structure ClassTable where
  starts : List (Nat × Char)

namespace ClassTable

/-- An entry: where a class begins, and its letter. -/
def entry? (word : List Char) : Option (Nat × Char) := do
  let letter ← word.getLast?
  let start ← Hexadecimal.read? word.dropLast
  some (start, letter)

/-- The table that is written down as a text. -/
def ofText (text : String) : ClassTable := ⟨(words text).filterMap entry?⟩

/-- The letter of the class that a character is in: that of the last start not behind it. -/
def letter? (t : ClassTable) (c : Char) : Option Char :=
  (t.starts.takeWhile (·.1 ≤ c.toNat)).getLast?.map (·.2)

end ClassTable

end SoapClient.Text
