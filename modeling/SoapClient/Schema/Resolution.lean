import SoapClient.Schema.Components
import SoapClient.Model.Basic
import SoapClient.Decimal.Digits

/-!
The state of a resolution: the structured types that are in the model so far, and the types that
are resolved or being resolved. Types are entered before their fields are known, so that types can
refer to themselves.
-/

namespace SoapClient.Schema

open Xml (QName)

/-- Which declaration of a structured type is meant. -/
inductive TypeKey where
  | named (name : QName)
  /-- A type declared inside an element, by the path of the declaration. -/
  | inPlace (path : List Nat)
  deriving DecidableEq

/-- What has been resolved so far. -/
structure Resolution where
  /-- The structured types of the model, in the order in which they were entered. -/
  types : List ComplexType
  /-- What the structured types stand for. -/
  resolved : List (TypeKey × TypeRef)
  /-- The named types that are being resolved. -/
  inProgress : List QName
  /-- The model names of the types whose content is being collected, the innermost first. -/
  enclosing : List String

namespace Resolution

/-- Nothing has been resolved. -/
def start : Resolution := ⟨[], [], [], []⟩

/-- Whether a type of the model has the name. -/
def hasType (s : Resolution) (name : String) : Bool := s.types.any (·.name = name)

/-- The fields of a type of the model. -/
def fields? (s : Resolution) (name : String) : Option (List Parameter) :=
  (s.types.find? (·.name = name)).map (·.fields)

/-- Enters a type without fields under a key, and starts to collect its content. -/
def enter (s : Resolution) (key : TypeKey) (name : String) : Resolution :=
  { s with
    types := s.types ++ [⟨name, []⟩]
    resolved := (key, .complex name) :: s.resolved
    enclosing := name :: s.enclosing }

/-- Gives a type of the model its fields, its content being collected. -/
def leave (s : Resolution) (name : String) (fields : List Parameter) : Resolution :=
  { s with
    types := s.types.map fun t => if t.name = name then { t with fields := fields } else t
    enclosing := s.enclosing.drop 1 }

/-- The names that an anonymous type may get, the preferred one first: the name of the element,
that name qualified by the enclosing type, and numbered variants of this one. -/
def candidates (s : Resolution) (element : String) (variants : Nat) : List String :=
  let base :=
    match s.enclosing with
    | outer :: _ => outer ++ "." ++ element
    | [] => element
  element :: base :: (List.range variants).map fun n => base ++ Decimal.natText (n + 2)

/-- Whether a name is in the model or kept for a named type. -/
def isTaken (s : Resolution) (reserved : List String) (name : String) : Bool :=
  s.hasType name || reserved.contains name

/-- The name of an anonymous type of an element: the first candidate that is free. More variants
than there are names cannot all be taken. -/
def anonymousName (s : Resolution) (reserved : List String) (element : String) : String :=
  let candidates := s.candidates element (s.types.length + reserved.length + 1)
  (candidates.find? fun name => !s.isTaken reserved name).getD element

end Resolution

/-- A step of a resolution, which may fail. -/
abbrev Resolve := StateT Resolution (Except DescriptionError)

end SoapClient.Schema
