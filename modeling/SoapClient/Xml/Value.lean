import SoapClient.Xml.Element
import SoapClient.Json.Basic

/-!
The JSON value of an element. An element without children is its text, one with children is an
object; children of one name share a member, as an array where there is more than one.
-/

namespace SoapClient.Xml

/-- The namespace of the attribute that marks an element as nil. -/
def instanceNamespace : String := "http://www.w3.org/2001/XMLSchema-instance"

/-- Whether the element stands for no value. -/
def Element.isNil (e : Element) : Bool := e.attributeIn? instanceNamespace "nil" = some "true"

/-- Adds a value to the group of its name, a new one at the end where there is none yet. -/
def addToGroup (name : String) (v : Json) :
    List (String × List Json) → List (String × List Json)
  | [] => [(name, [v])]
  | (n, vs) :: groups =>
    if n = name then (n, vs ++ [v]) :: groups else (n, vs) :: addToGroup name v groups

/-- Named values by name, the names in order of their first occurrence. -/
def groupByName (values : List (String × Json)) : List (String × List Json) :=
  values.foldl (fun groups (name, v) => addToGroup name v groups) []

/-- One value stands for itself, none or several form an array. -/
def ofGroup : List Json → Json
  | [v] => v
  | vs => .arr vs

mutual

/-- The value of an element. -/
def Element.value : Element → Json
  | e@⟨_, _, _, _, children, text⟩ =>
    if e.isNil then .null
    else
      match children with
      | [] => .str text
      | c :: cs =>
        .obj ((groupByName (childValues (c :: cs))).map fun (name, vs) => (name, ofGroup vs))

/-- The values of children under their local names. -/
def childValues : List Element → List (String × Json)
  | [] => []
  | e :: es => (e.localName, e.value) :: childValues es

end

end SoapClient.Xml
