import SoapClient.Model.Lookup
import SoapClient.Json.Basic

/-!
Bringing the members of objects into the declared order of their fields, which is significant on
the wire. A member that is taken out leaves its place to the last one; what is left over when all
declared members have been taken follows them.
-/

namespace SoapClient

/-- Takes the member with a name out, the last one moving into its place. -/
def takeMember? (name : String) (members : List (String × α)) :
    Option (α × List (String × α)) :=
  match members.findIdx? (·.1 = name), members.lookup name with
  | some i, some v =>
    match members.getLast? with
    | some l => some (v, (members.set i l).dropLast)
    | none => none
  | _, _ => none

/-- The members in the order of the names, and behind them those with other names. -/
def orderMembers : List String → List (String × α) → List (String × α)
  | [], members => members
  | name :: names, members =>
    match takeMember? name members with
    | some (v, others) => (name, v) :: orderMembers names others
    | none => orderMembers names members

mutual

/-- The value with the members of its objects in declared order. -/
def arrange (m : ServiceModel) : Json → TypeRef → Json
  | .arr items, .array item => .arr (arrangeItems m item items)
  | .obj members, .complex typeName =>
    match m.complexType? typeName with
    | some t => .obj (orderMembers (t.fields.map (·.name)) (arrangeMembers m t members))
    | none => .obj members
  | v, _ => v

/-- The items of an array, each arranged. -/
def arrangeItems (m : ServiceModel) (item : TypeRef) : List Json → List Json
  | [] => []
  | v :: rest => arrange m v item :: arrangeItems m item rest

/-- The members of an object, the declared ones arranged by the type of their field. -/
def arrangeMembers (m : ServiceModel) (t : ComplexType) :
    List (String × Json) → List (String × Json)
  | [] => []
  | (name, v) :: rest =>
    let arranged :=
      match t.field? name with
      | some field => arrange m v field.type
      | none => v
    (name, arranged) :: arrangeMembers m t rest

end

end SoapClient
