import Mathlib.Data.List.Perm.Basic
import SoapClient.Proofs.Envelope.Repetition

/-!
# What the value of an element holds

Main statement: the value of an element holds a value for each of its children, under their names,
and none besides, at every depth (`value_holds_children`). Only a nil element stands for nothing,
whatever is inside of it (`children_lost_in_nil`).
-/

namespace SoapClient

/-! ## Values inside of values -/

namespace Json

/-- The values that a member stands for: the items of an array, and any other value itself. -/
def singles : Json → List Json
  | .arr items => items
  | v => [v]

/-- The values directly inside of an object, with those in arrays one by one. -/
def inside : Json → List Json
  | .obj members => members.flatMap fun member => member.2.singles
  | _ => []

/-- The values at a depth. -/
def atDepth : Nat → Json → List Json
  | 0, v => [v]
  | n + 1, v => v.inside.flatMap (atDepth n)

theorem singles_of_ne {v : Json} (h : ∀ items, v ≠ .arr items) : v.singles = [v] := by
  cases v with
  | arr items => exact absurd rfl (h items)
  | _ => rfl

end Json

namespace Xml

variable {e : Element}

/-! ## Nil elements -/

namespace Element

/-- The written name of an attribute stands for a name: its qualifier is bound to the namespace. -/
def Denotes (e : Element) (name ns localName : String) : Prop :=
  ∃ qualifier, ':' ∉ qualifier.toList ∧ name = qualifier ++ ":" ++ localName ∧
    e.scope.find? qualifier = some ns

/-- The first attribute that stands for the name of the mark says that the element is nil. -/
def IsMarkedNil (e : Element) : Prop :=
  ∃ before name after, e.attributes = before ++ (name, "true") :: after ∧
    e.Denotes name instanceNamespace "nil" ∧ ∀ a ∈ before, ¬ e.Denotes a.1 instanceNamespace "nil"

/-- The elements directly inside of one, none where it is nil. -/
def inside (e : Element) : List Element := if e.isNil then [] else e.children

/-- The elements at a depth, but for those inside of nil ones. -/
def atDepth : Nat → Element → List Element
  | 0, e => [e]
  | n + 1, e => e.inside.flatMap (atDepth n)

/-- Looking up an attribute finds one whose name stands for the name that is asked for. -/
theorem denotes_iff (name value ns localName : String) {found : String} :
    (match splitName? name with
      | some (qualifier, loc) =>
        if loc = localName ∧ e.scope.find? qualifier = some ns then some value else none
      | none => none) = some found ↔ e.Denotes name ns localName ∧ value = found := by
  rw [Denotes]
  cases hsplit : splitName? name with
  | none =>
    have hnone := splitName?_eq_none_iff.mp hsplit
    simp only [reduceCtorEq, false_iff, not_and, forall_exists_index, and_imp]
    rintro qualifier - rfl
    exact absurd (by simp) hnone
  | some cut =>
    obtain ⟨qualifier, loc⟩ := cut
    simp only [Option.ite_none_right_eq_some, Option.some.injEq]
    refine and_congr_left fun _ => ⟨?_, ?_⟩
    · rintro ⟨rfl, hfind⟩
      obtain ⟨hqualifier, hname⟩ := splitName?_eq_some_iff.mp hsplit
      exact ⟨qualifier, hqualifier, hname, hfind⟩
    · rintro ⟨qualifier', hqualifier, hname, hfind⟩
      have hcut := splitName?_eq_some_iff.mpr ⟨hqualifier, hname⟩
      obtain ⟨rfl, rfl⟩ := Prod.mk.inj (Option.some.inj (hsplit.symm.trans hcut))
      exact ⟨rfl, hfind⟩

/-- An attribute that is looked up by its name is the first one with this name. -/
theorem attributeIn?_eq_some_iff {ns localName value : String} :
    e.attributeIn? ns localName = some value ↔
      ∃ before name after, e.attributes = before ++ (name, value) :: after ∧
        e.Denotes name ns localName ∧ ∀ a ∈ before, ¬ e.Denotes a.1 ns localName := by
  rw [attributeIn?, List.findSome?_eq_some_iff]
  constructor
  · rintro ⟨before, ⟨name, other⟩, after, hattributes, hfirst, hbefore⟩
    obtain ⟨hdenotes, rfl⟩ := (denotes_iff name other ns localName).mp hfirst
    refine ⟨before, name, after, hattributes, hdenotes, fun a ha hearlier => ?_⟩
    have hsome := (denotes_iff a.1 a.2 ns localName).mpr ⟨hearlier, rfl⟩
    cases (hbefore a ha).symm.trans hsome
  · rintro ⟨before, name, after, hattributes, hdenotes, hbefore⟩
    refine ⟨before, (name, value), after, hattributes,
      (denotes_iff name value ns localName).mpr ⟨hdenotes, rfl⟩, fun a ha => ?_⟩
    rw [Option.eq_none_iff_forall_ne_some]
    intro found hfound
    exact hbefore a ha ((denotes_iff a.1 a.2 ns localName).mp hfound).1

theorem isNil_iff : e.isNil = true ↔ e.IsMarkedNil := by
  rw [isNil, decide_eq_true_eq, attributeIn?_eq_some_iff, IsMarkedNil]

theorem isNil_eq_false_iff : e.isNil = false ↔ ¬ e.IsMarkedNil := by
  rw [← isNil_iff, Bool.not_eq_true]

/-! ## The kinds of values -/

theorem value_of_isNil (h : e.isNil = true) : e.value = .null := by
  rw [value_eq, if_pos h]

theorem value_of_no_children (h : e.isNil = false) (hchildren : e.children = []) :
    e.value = .str e.text := by
  rw [value_eq, if_neg (by rw [h]; decide), if_pos hchildren]

/-- Where there are children, their values stand under their names. -/
theorem value_of_some_children (h : e.isNil = false) (hchildren : e.children ≠ []) :
    e.value = .obj ((namesOf (childValues e.children)).map fun name =>
      (name, ofGroup ((e.called name).map value))) := by
  rw [value_eq, if_neg (by rw [h]; decide), if_neg hchildren]

/-- No element stands for an array. -/
theorem value_ne_arr (e : Element) (items : List Json) : e.value ≠ .arr items := by
  rw [value_eq]
  split
  · nofun
  · split
    · nofun
    · nofun

/-- An element is null where it is nil, a text where it has no children, and else an object. -/
theorem value_cases (e : Element) :
    (e.isNil = true ∧ e.value = .null) ∨
      (e.isNil = false ∧ e.children = [] ∧ e.value = .str e.text) ∨
      (e.isNil = false ∧ e.children ≠ [] ∧ e.value = .obj ((namesOf (childValues e.children)).map
        fun name => (name, ofGroup ((e.called name).map value)))) := by
  cases h : e.isNil with
  | true => exact .inl ⟨rfl, value_of_isNil h⟩
  | false =>
    by_cases hchildren : e.children = []
    · exact .inr (.inl ⟨rfl, hchildren, value_of_no_children h hchildren⟩)
    · exact .inr (.inr ⟨rfl, hchildren, value_of_some_children h hchildren⟩)

/-- The names of the members are those of the children. -/
theorem namesOf_childValues (es : List Element) :
    namesOf (childValues es) = (es.map (·.localName)).eraseDups := by
  rw [namesOf, Envelope.childValues_eq_map, List.map_map]
  rfl

end Element

/-! ## Nothing is lost in groups -/

/-- A value that is added to a group is the only one more. -/
theorem perm_addToGroup (name : String) (v : Json) (groups : List (String × List Json)) :
    ((addToGroup name v groups).flatMap (·.2)).Perm (groups.flatMap (·.2) ++ [v]) := by
  induction groups with
  | nil => exact .refl _
  | cons group groups ih =>
    obtain ⟨n, vs⟩ := group
    rw [addToGroup]
    split
    · -- the value stands behind those of its group, and in front of all other groups
      rw [List.flatMap_cons, List.flatMap_cons, List.append_assoc, List.append_assoc]
      exact .append_left vs List.perm_append_comm
    · rw [List.flatMap_cons, List.flatMap_cons, List.append_assoc]
      exact ih.append_left vs

theorem perm_groupInto (values : List (String × Json)) (groups : List (String × List Json)) :
    ((groupInto groups values).flatMap (·.2)).Perm (groups.flatMap (·.2) ++ values.map (·.2)) := by
  induction values generalizing groups with
  | nil => simp [groupInto]
  | cons value values ih =>
    obtain ⟨n, v⟩ := value
    rw [groupInto_cons]
    refine (ih _).trans ?_
    rw [List.map_cons, ← List.singleton_append, ← List.append_assoc]
    exact (perm_addToGroup n v groups).append_right _

/-- The groups hold the values, each as often as it comes. -/
theorem perm_groupByName (values : List (String × Json)) :
    ((groupByName values).flatMap (·.2)).Perm (values.map (·.2)) :=
  perm_groupInto values []

/-- The values of a group are those that its member stands for. -/
theorem singles_ofGroup {vs : List Json} (h : ∀ v ∈ vs, ∀ items, v ≠ .arr items) :
    (ofGroup vs).singles = vs := by
  match vs with
  | [] => rfl
  | [v] => exact Json.singles_of_ne (h v List.mem_cons_self)
  | v :: v' :: rest => rfl

namespace Element

/-- The values directly inside of the value of an element are those of the elements inside of it. -/
theorem perm_inside_value (e : Element) : e.value.inside.Perm (e.inside.map value) := by
  obtain ⟨hnil, hvalue⟩ | ⟨hnil, hchildren, hvalue⟩ | ⟨hnil, -, hvalue⟩ := e.value_cases
  · rw [hvalue, inside, if_pos hnil]
    exact .refl _
  · rw [hvalue, inside, hchildren, ite_self]
    exact .refl _
  · -- a member stands for the values of its group, as none of them is itself an array
    have hsingles : e.value.inside = (groupByName (childValues e.children)).flatMap (·.2) := by
      rw [hvalue, Json.inside, groupByName_eq, List.flatMap_map, List.flatMap_map]
      refine List.flatMap_congr fun name _ => ?_
      rw [e.valuesUnder_childValues]
      exact singles_ofGroup (List.forall_mem_map.mpr fun child _ => child.value_ne_arr)
    rw [hsingles, inside, hnil, if_neg Bool.false_ne_true]
    refine (perm_groupByName _).trans ?_
    rw [Envelope.childValues_eq_map, List.map_map]
    exact .refl _

/-- The values at a depth are those of the elements at this depth. -/
theorem perm_atDepth_value (depth : Nat) (e : Element) :
    (e.value.atDepth depth).Perm ((e.atDepth depth).map value) := by
  induction depth generalizing e with
  | zero => exact .refl _
  | succ n ih =>
    rw [Json.atDepth, atDepth]
    calc (e.value.inside.flatMap (Json.atDepth n)).Perm
          ((e.inside.map value).flatMap (Json.atDepth n)) := e.perm_inside_value.flatMap_right _
      _ = e.inside.flatMap fun child => child.value.atDepth n := List.flatMap_map ..
      List.Perm _ (e.inside.flatMap fun child => (child.atDepth n).map value) :=
        List.Perm.flatMap_left _ fun child _ => ih child
      _ = (e.inside.flatMap (atDepth n)).map value := (List.map_flatMap ..).symm

/-! ## All together -/

/-- An element is null exactly where it is marked as nil. -/
theorem value_eq_null_iff : e.value = .null ↔ e.IsMarkedNil := by
  rw [← isNil_iff]
  obtain ⟨hnil, hvalue⟩ | ⟨hnil, -, hvalue⟩ | ⟨hnil, -, hvalue⟩ := e.value_cases
  · simp [hnil, hvalue]
  · simp [hnil, hvalue]
  · simp [hnil, hvalue]

/-- An element is its text exactly where there is nothing else inside of it. -/
theorem value_eq_text_iff : e.value = .str e.text ↔ ¬ e.IsMarkedNil ∧ e.children = [] := by
  rw [← isNil_eq_false_iff]
  obtain ⟨hnil, hvalue⟩ | ⟨hnil, hchildren, hvalue⟩ | ⟨hnil, hchildren, hvalue⟩ := e.value_cases
  · simp [hnil, hvalue]
  · simp [hnil, hchildren, hvalue]
  · simp [hchildren, hvalue]

/-- An element is an object exactly where there are children, and it is not marked as nil. -/
theorem exists_value_eq_obj_iff :
    (∃ members, e.value = .obj members) ↔ ¬ e.IsMarkedNil ∧ e.children ≠ [] := by
  rw [← isNil_eq_false_iff]
  obtain ⟨hnil, hvalue⟩ | ⟨hnil, hchildren, hvalue⟩ | ⟨hnil, hchildren, hvalue⟩ := e.value_cases
  · simp [hnil, hvalue]
  · simp [hchildren, hvalue]
  · simp [hnil, hchildren, hvalue]

/-- What the member of a name holds: the value of the only child of this name, or an array of the
values of all of them. -/
theorem ofGroup_called {name : String} (h : e.called name ≠ []) :
    (∃ child, e.called name = [child] ∧ ofGroup ((e.called name).map value) = child.value) ∨
      (2 ≤ (e.called name).length ∧
        ofGroup ((e.called name).map value) = .arr ((e.called name).map value)) := by
  match hcalled : e.called name with
  | [] => exact absurd hcalled h
  | [child] => exact .inl ⟨child, rfl, rfl⟩
  | child :: child' :: rest => exact .inr ⟨Nat.le_add_left 2 _, rfl⟩

/-- An object has a member for each name of the children, in the order in which these names come
first. -/
theorem members_of_value {members : List (String × Json)} (h : e.value = .obj members) :
    members.map (·.1) = (e.children.map (·.localName)).eraseDups ∧
      ∀ name v, (name, v) ∈ members →
        (∃ child, e.called name = [child] ∧ v = child.value) ∨
        (2 ≤ (e.called name).length ∧ v = .arr ((e.called name).map value)) := by
  obtain ⟨-, hvalue⟩ | ⟨-, -, hvalue⟩ | ⟨-, -, hvalue⟩ := e.value_cases
  · cases hvalue.symm.trans h
  · cases hvalue.symm.trans h
  · obtain rfl := Json.obj.inj (hvalue.symm.trans h)
    refine ⟨?_, fun name v hmember => ?_⟩
    · rw [List.map_map, ← namesOf_childValues]
      exact List.map_id _
    · obtain ⟨n, hn, heq⟩ := List.mem_map.mp hmember
      obtain ⟨rfl, rfl⟩ := Prod.mk.inj heq
      exact ofGroup_called (mem_namesOf_iff.mp hn)

/-- An element that is not marked as nil holds as many values as it has children. -/
theorem length_inside_value (h : ¬ e.IsMarkedNil) :
    e.value.inside.length = e.children.length := by
  have hlength := e.perm_inside_value.length_eq
  rwa [List.length_map, inside, isNil_eq_false_iff.mpr h, if_neg Bool.false_ne_true] at hlength

/-- The value of an element holds one value for each child, and none besides. It is never an array.
It is null where the element is marked as nil, its text where it has no children, and else an
object: with a member for each name of the children, in the order in which these names come first,
which holds the value of the only child of this name, or those of all of them in their order. At
each depth the values are those of the elements there, but for what is inside of nil ones. -/
theorem value_holds_children (e : Element) :
    (∀ items, e.value ≠ .arr items) ∧
    (e.value = .null ↔ e.IsMarkedNil) ∧
    (e.value = .str e.text ↔ ¬ e.IsMarkedNil ∧ e.children = []) ∧
    ((∃ members, e.value = .obj members) ↔ ¬ e.IsMarkedNil ∧ e.children ≠ []) ∧
    (∀ members, e.value = .obj members →
      members.map (·.1) = (e.children.map (·.localName)).eraseDups ∧
      ∀ name v, (name, v) ∈ members →
        (∃ child, e.called name = [child] ∧ v = child.value) ∨
        (2 ≤ (e.called name).length ∧ v = .arr ((e.called name).map value))) ∧
    (¬ e.IsMarkedNil → e.value.inside.length = e.children.length) ∧
    ∀ depth, (e.value.atDepth depth).Perm ((e.atDepth depth).map value) :=
  ⟨e.value_ne_arr, value_eq_null_iff, value_eq_text_iff, exists_value_eq_obj_iff,
    fun _ => members_of_value, length_inside_value, fun depth => perm_atDepth_value depth e⟩

/-- An element without attributes. -/
def plainElement (localName text : String) (children : List Element) : Element :=
  ⟨none, localName, [], [("i", instanceNamespace)], children, text⟩

/-- An order with two items, a note between them and nothing for the address. -/
def basketElement : Element :=
  plainElement "order" "" [plainElement "item" "a" [], plainElement "note" "n" [],
    plainElement "item" "" [plainElement "code" "b" []],
    { plainElement "address" "" [] with attributes := [("i:nil", "true")] }]

/-- The items share a member, the null value stands for its element, and there are four values for
the four elements inside of the order, and one further inside. -/
theorem value_holds_children_basket :
    basketElement.value = .obj [("item", .arr [.str "a", .obj [("code", .str "b")]]),
        ("note", .str "n"), ("address", .null)] ∧
      basketElement.value.inside.length = 4 ∧ (basketElement.value.atDepth 2).length = 1 := by
  obtain ⟨-, hnull, -, -, -, hcount, hdepth⟩ := value_holds_children basketElement
  have hvalue : basketElement.value = .obj [("item", .arr [.str "a", .obj [("code", .str "b")]]),
      ("note", .str "n"), ("address", .null)] := rfl
  have hmarked : ¬ basketElement.IsMarkedNil := by
    rw [← hnull, hvalue]
    nofun
  exact ⟨hvalue, hcount hmarked, (hdepth 2).length_eq⟩

/-- A nil element with a child. -/
def hidingElement : Element :=
  { plainElement "x" "content" [plainElement "y" "" []] with attributes := [("i:nil", "true")] }

/-- An element with two marks, of which the first one says that it is not nil. -/
def doubtfulElement : Element :=
  { plainElement "x" "" [] with
    attributes := [("p:nil", "false"), ("q:nil", "true")]
    scope := [("q", instanceNamespace), ("p", instanceNamespace)] }

/-- The child of a nil element is lost, and a second mark does not count. -/
theorem children_lost_in_nil :
    hidingElement.value = .null ∧ doubtfulElement.value = .str "" ∧
      ¬ (∀ e : Element, e.value.inside.length = e.children.length) ∧
      ¬ ∀ e : Element, e.value = .null ↔
        ∃ name, (name, "true") ∈ e.attributes ∧ e.Denotes name instanceNamespace "nil" := by
  have hhiding : hidingElement.value = .null := value_of_isNil (by decide)
  have hdoubtful : doubtfulElement.value = .str "" := value_of_no_children (by decide) rfl
  refine ⟨hhiding, hdoubtful, fun hcount => ?_, fun hmark => ?_⟩
  · have hlength := hcount hidingElement
    rw [hhiding] at hlength
    cases hlength
  · have hnull := (hmark doubtfulElement).mpr
      ⟨"q:nil", by decide, "q", by decide, by decide, by decide⟩
    rw [hdoubtful] at hnull
    cases hnull

end Element

end Xml

end SoapClient
