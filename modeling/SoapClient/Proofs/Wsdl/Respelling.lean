import SoapClient.Proofs.Wsdl.AgreeingModels

/-!
# Prefixes of names do not matter

Names in a document may be written with any prefixes, or in a default namespace. Main statement: two
documents in which every name stands for the same, however it is written, have the same model, or
none of them has one (`modelOf_of_respelled`).
-/

namespace SoapClient.Wsdl

open Xml (Element Comparison Resembles)
open Schema

/-- Elements that say the same, and hold elements that do, and no others. -/
def respelled : Comparison := ⟨SaysSame, fun _ _ => False⟩

/-- Two documents of the same shape, with elements of the same names and attributes of the same
values, have the same model, or none of them has one. A name in an attribute may be written in any
way that stands for the same name there, or for none in both. -/
theorem modelOf_of_respelled {root root' : Element} (h : Resembles respelled root root')
    (m : ServiceModel) : modelOf root = .ok m ↔ modelOf root' = .ok m := by
  have hextended : Resembles extended root root' := by
    refine h.mono (fun _ _ hsame => ?_) fun _ _ hnone => ?_
    · exact hsame
    · exact False.elim hnone
  exact modelOf_eq_ok_iff hextended m

/-! ## A document with other prefixes -/

/-- An attribute says the same in both elements. -/
def SaysSameIn (e e' : Element) (a a' : String × String) : Prop :=
  a.1 = a'.1 ∧ if a.1 ∈ referring then e.resolve? a.2 = e'.resolve? a'.2 else a.2 = a'.2

instance (e e' : Element) (a a' : String × String) : Decidable (SaysSameIn e e' a a') :=
  inferInstanceAs (Decidable (_ ∧ _))

/-- The first attributes with a name say the same. -/
theorem rel_find?_attribute {e e' : Element} {attributes attributes' : List (String × String)}
    (h : List.Forall₂ (SaysSameIn e e') attributes attributes') (name : String) :
    Option.Rel (fun a a' => SaysSameIn e e' a a' ∧ a.1 = name)
      (attributes.find? (·.1 = name)) (attributes'.find? (·.1 = name)) := by
  induction h with
  | nil => exact .none
  | @cons a a' _ _ hfirst _ ih =>
    rw [List.find?_cons, List.find?_cons, ← hfirst.1]
    by_cases hname : a.1 = name
    · simp only [hname, decide_true]
      exact .some ⟨hfirst, hname⟩
    · simp only [hname, decide_false]
      exact ih

/-- Elements of the same name say the same where their attributes do, one by one. -/
theorem saysSame_of_forall₂ {e e' : Element} (hns : e.namespaceName = e'.namespaceName)
    (hlocal : e.localName = e'.localName)
    (h : List.Forall₂ (SaysSameIn e e') e.attributes e'.attributes) : SaysSame e e' := by
  have hvalues : ∀ name, Option.Rel
      (fun v v' => if name ∈ referring then e.resolve? v = e'.resolve? v' else v = v')
      (e.attribute? name) (e'.attribute? name) := by
    intro name
    have ha := rel_find?_attribute h name
    unfold Element.attribute?
    generalize e.attributes.find? _ = a at ha
    generalize e'.attributes.find? _ = a' at ha
    cases ha with
    | none => exact .none
    | some ha =>
      obtain ⟨⟨-, hvalue⟩, rfl⟩ := ha
      exact .some hvalue
  refine ⟨hns, hlocal, fun name _ hplain => ?_, fun name hreferring => ?_⟩
  · have hv := hvalues name
    simp only [if_neg hplain] at hv
    generalize e.attribute? name = v at hv
    generalize e'.attribute? name = v' at hv
    cases hv with
    | none => rfl
    | some hv => exact congrArg some hv
  · have hv := hvalues name
    simp only [if_pos hreferring] at hv
    generalize e.attribute? name = v at hv
    generalize e'.attribute? name = v' at hv
    cases hv with
    | none => rfl
    | some hv => exact congrArg some hv

/-- A document with a type that refers to itself, and with some declarations of namespaces in force.
The names of the types that it refers to are given as they are written. -/
def nodeDocument (scope : Xml.Scope) (number node : String) : Element :=
  { smallDocument [] [] with
    scope
    children := [
      { smallElement namespaceName "types" [] [] with
        scope
        children := [
          { xsd "schema" [("targetNamespace", "urn:t")] [] with
            scope
            children := [
              { xsd "complexType" [("name", "Node")] [] with
                scope
                children := [
                  { xsd "sequence" [] [] with
                    scope
                    children := [
                      { xsd "element" [("name", "value"), ("type", number)] [] with scope },
                      { xsd "element" [("name", "next"), ("type", node), ("minOccurs", "0")] [] with
                        scope }] }] }] }] }] }

/-- The type of this document. -/
def nodeType : ComplexType := ⟨"Node", [⟨"value", .primitive .int, false⟩,
  ⟨"next", .complex "Node", true⟩]⟩

/-- The document with two prefixes. -/
def prefixedDocument : Element :=
  nodeDocument [("xsd", Schema.namespaceName), ("t", "urn:t")] "xsd:int" "t:Node"

/-- The document with another prefix, and with the names of schemas in the default namespace. -/
def defaultDocument : Element :=
  nodeDocument [("", Schema.namespaceName), ("s", "urn:t")] "int" "s:Node"

/-- The two have the same model. -/
theorem modelOf_of_respelled_nodeDocument :
    Resembles respelled prefixedDocument defaultDocument ∧
      modelOf defaultDocument = .ok ⟨some "urn:t", [], [nodeType]⟩ := by
  have hresembles : Resembles respelled prefixedDocument defaultDocument := by
    refine .intro (saysSame_of_forall₂ rfl rfl (by decide)) (.cons ?_ .nil)
    refine .intro (saysSame_of_forall₂ rfl rfl (by decide)) (.cons ?_ .nil)
    refine .intro (saysSame_of_forall₂ rfl rfl (by decide)) (.cons ?_ .nil)
    refine .intro (saysSame_of_forall₂ rfl rfl (by decide)) (.cons ?_ .nil)
    refine .intro (saysSame_of_forall₂ rfl rfl (by decide)) (.cons ?_ (.cons ?_ .nil))
    · exact .intro (saysSame_of_forall₂ rfl rfl (by decide)) .nil
    · exact .intro (saysSame_of_forall₂ rfl rfl (by decide)) .nil
  refine ⟨hresembles, (modelOf_of_respelled hresembles _).mp ?_⟩
  decide +kernel

end SoapClient.Wsdl
