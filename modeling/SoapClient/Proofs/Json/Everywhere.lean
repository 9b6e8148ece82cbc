import SoapClient.Json.Basic
import SoapClient.Proofs.Xml.Name

/-!
# What holds everywhere inside of a value

A value holds others: the items of arrays and what the members of objects stand for. Conditions on
each of them are stated once for all conditions.
-/

namespace SoapClient.Json

mutual

/-- A condition holds of a value and of all values inside of it. -/
def Everywhere (P : Json → Prop) : Json → Prop
  | arr items => P (arr items) ∧ EverywhereInItems P items
  | obj members => P (obj members) ∧ EverywhereInMembers P members
  | v => P v

/-- A condition holds everywhere inside of some items. -/
def EverywhereInItems (P : Json → Prop) : List Json → Prop
  | [] => True
  | v :: rest => v.Everywhere P ∧ EverywhereInItems P rest

/-- A condition holds everywhere inside of some members. -/
def EverywhereInMembers (P : Json → Prop) : List (String × Json) → Prop
  | [] => True
  | (_, v) :: rest => v.Everywhere P ∧ EverywhereInMembers P rest

end

variable {P : Json → Prop}

theorem everywhereInItems_iff {items : List Json} :
    EverywhereInItems P items ↔ ∀ v ∈ items, v.Everywhere P := by
  induction items with
  | nil => simp [EverywhereInItems]
  | cons v rest ih => simp [EverywhereInItems, ih]

theorem everywhereInMembers_iff {members : List (String × Json)} :
    EverywhereInMembers P members ↔ ∀ member ∈ members, member.2.Everywhere P := by
  induction members with
  | nil => simp [EverywhereInMembers]
  | cons member rest ih => simp [EverywhereInMembers, ih]

theorem everywhere_arr {items : List Json} :
    (arr items).Everywhere P ↔ P (arr items) ∧ ∀ v ∈ items, v.Everywhere P := by
  rw [Everywhere, everywhereInItems_iff]

theorem everywhere_obj {members : List (String × Json)} :
    (obj members).Everywhere P ↔ P (obj members) ∧ ∀ member ∈ members, member.2.Everywhere P := by
  rw [Everywhere, everywhereInMembers_iff]

/-- A property of all values follows where arrays have it from their items and objects from what
their members stand for. -/
theorem inductionOn (v : Json) (null : P null) (bool : ∀ flag, P (bool flag))
    (whole : ∀ n, P (whole n)) (real : ∀ x, P (real x)) (str : ∀ s, P (str s))
    (arr : ∀ items, (∀ v ∈ items, P v) → P (arr items))
    (obj : ∀ members, (∀ member ∈ members, P member.2) → P (obj members)) : P v := by
  match v with
  | .null => exact null
  | .bool flag => exact bool flag
  | .whole n => exact whole n
  | .real x => exact real x
  | .str s => exact str s
  | .arr items =>
    exact arr items fun v _ => inductionOn v null bool whole real str arr obj
  | .obj members =>
    exact obj members fun member _ => inductionOn member.2 null bool whole real str arr obj
termination_by sizeOf v
decreasing_by
  · have := List.sizeOf_lt_of_mem ‹v ∈ items›
    simp only [Json.arr.sizeOf_spec]
    omega
  · have := List.sizeOf_lt_of_mem ‹member ∈ members›
    cases member
    simp only [Json.obj.sizeOf_spec, Prod.mk.sizeOf_spec] at *
    omega

/-- The items of an array, and what the members of an object stand for. -/
def parts : Json → List Json
  | arr items => items
  | obj members => members.map (·.2)
  | _ => []

/-- A property of all values follows where values have it from their parts. -/
theorem inductionOnParts (v : Json) (step : ∀ v, (∀ w ∈ v.parts, P w) → P v) : P v := by
  induction v using inductionOn with
  | arr items ih => exact step _ ih
  | obj members ih =>
    apply step
    intro w hw
    obtain ⟨member, hmember, rfl⟩ := List.mem_map.mp hw
    exact ih member hmember
  | _ =>
    apply step
    intro w hw
    cases hw

/-! ## Conditions -/

/-- No two members of an object share a name. Objects are maps, so this holds of every value that
is read or built by inserting members. -/
def HasDistinctNames : Json → Prop
  | obj members => (members.map (·.1)).Nodup
  | _ => True

/-- The members of an object have names that can stand in a tag. -/
def HasNCNames : Json → Prop
  | obj members => ∀ member ∈ members, Xml.isNCName member.1
  | _ => True

end SoapClient.Json
