import SoapClient.Model.TypeRef
import SoapClient.Json.Basic
import SoapClient.Decimal.Digits

/-!
Where a value does not fit its type, and why. The place is a list of steps from where the look at
the value started; only showing it turns it into text.
-/

namespace SoapClient

/-- A step into a value. -/
inductive Step where
  | field (name : String)
  | item (index : Nat)
  deriving DecidableEq

/-- A place inside a value: the name of the whole, and the steps from there. -/
structure Path where
  start : String
  steps : List Step
  deriving DecidableEq

namespace Path

/-- The whole value. -/
def ofStart (start : String) : Path := ⟨start, []⟩

/-- One step further. -/
def step (p : Path) (s : Step) : Path := ⟨p.start, p.steps ++ [s]⟩

/-- The text of a place with one more step. A field that nothing stands before has no point. -/
def extend (text : String) : Step → String
  | .field name => if text = "" then name else text ++ "." ++ name
  | .item index => text ++ "[" ++ Decimal.natText index ++ "]"

/-- The place as shown to a reader. -/
def text (p : Path) : String := p.steps.foldl extend p.start

@[simp] theorem text_step (p : Path) (s : Step) : (p.step s).text = extend p.text s := by
  simp [text, step]

end Path

/-- Why a value does not fit. -/
inductive Fault where
  /-- The value is of a kind that the type does not take. -/
  | wrongKind (expected : TypeRef) (actual : Json.Kind)
  /-- The text is not one of a value of the kind. -/
  | unreadable (expected : PrimitiveKind) (text : String)
  /-- A field that has to be there is not. -/
  | missing (expected : TypeRef)
  /-- The type has no such field. -/
  | undeclared (typeName : String)
  /-- The type is not part of the model. -/
  | undefinedType (typeName : String)
  deriving DecidableEq

namespace Fault

/-- What was expected, as shown to a reader. -/
def expected : Fault → String
  | .wrongKind t _ => t.text
  | .unreadable kind _ => kind.text
  | .missing t => t.text
  | .undeclared typeName => "a field of " ++ typeName
  | .undefinedType typeName => typeName

/-- What was found, as shown to a reader. -/
def actual : Fault → String
  | .wrongKind _ kind => kind.name
  | .unreadable _ text => "'" ++ text ++ "'"
  | .missing _ => "nothing"
  | .undeclared _ => "an unknown field"
  | .undefinedType _ => "an undefined type"

end Fault

/-- A value that does not fit its type. -/
structure Mismatch where
  path : Path
  fault : Fault
  deriving DecidableEq

/-- The mismatch as shown to a reader. -/
def Mismatch.message (m : Mismatch) : String :=
  "expected " ++ m.fault.expected ++ " at '" ++ m.path.text ++ "', found " ++ m.fault.actual

end SoapClient
