import SoapClient.Proofs.Wsdl.AgreeingModels

/-!
# Foreign elements are ignored

A description may hold elements of other namespaces. Main statement: where these are put into a
document its model stays the same, or it goes on having none (`modelOf_of_inserted`), but for
children of complex or simple content, each of which is taken for a derivation: one with a base
counts, whatever its name (`foreign_derivation_counts`), and in complex content so does one with
parts of a content model inside.
-/

namespace SoapClient.Wsdl

open Xml (Element Comparison Resembles)
open Schema

/-- Two tags are the same, with the same declarations of namespaces in force. -/
structure SameTag (e e' : Element) : Prop where
  namespaceName : e.namespaceName = e'.namespaceName
  localName : e.localName = e'.localName
  attributes : e.attributes = e'.attributes
  scope : e.scope = e'.scope

/-- A document, and the document with elements inserted where they are admitted. -/
def inserted (admits : Element → Element → Prop) : Comparison := ⟨SameTag, admits⟩

theorem SameTag.saysSame {e e' : Element} (h : SameTag e e') : SaysSame e e' := by
  have hattribute : ∀ name, e.attribute? name = e'.attribute? name := by
    intro name
    rw [Element.attribute?, Element.attribute?, h.attributes]
  have hresolve : e.resolve? = e'.resolve? := by
    funext text
    rw [Element.resolve?, Element.resolve?, h.scope]
  refine ⟨h.namespaceName, h.localName, fun name _ _ => hattribute name, fun name _ => ?_⟩
  rw [hattribute, hresolve]

/-- A document with foreign elements inserted anywhere has the same model, or goes on having none,
where those that are put into complex or simple content have no base, and those in complex content
no parts of a content model inside. -/
theorem modelOf_of_inserted {root root' : Element} (h : Resembles (inserted Admits) root root')
    (m : ServiceModel) : modelOf root = .ok m ↔ modelOf root' = .ok m := by
  have hextended : Resembles extended root root' := by
    refine h.mono (fun _ _ hsame => ?_) fun _ _ hadmits => ?_
    · exact SameTag.saysSame hsame
    · exact hadmits
  exact modelOf_eq_ok_iff hextended m

/-! ## A document with a signature -/

/-- The content of a type that extends another one, with elements behind the extension. -/
def contentElement (extras : List Element) : Element :=
  xsd "complexContent" []
    (xsd "extension" [("base", "t:Entry")]
      [xsd "sequence" [] [xsd "element" [("name", "amount"), ("type", "xsd:decimal")] []]] ::
      extras)

/-- A document with this type. -/
def ledgerDocument (extras : List Element) : Element :=
  smallDocument
    [xsd "complexType" [("name", "Stamp")]
      [xsd "sequence" [] [xsd "element" [("name", "author"), ("type", "xsd:string")] []]],
     xsd "complexType" [("name", "Entry")]
      [xsd "sequence" [] [xsd "element" [("name", "id"), ("type", "xsd:int")] []]],
     xsd "complexType" [("name", "Booking")] [contentElement extras]]
    []

/-- The model of the document, with the fields of the type given. -/
def ledgerModel (fields : List Parameter) : ServiceModel :=
  ⟨some "urn:t", [],
    [⟨"Stamp", [⟨"author", .primitive .string, false⟩]⟩,
     ⟨"Entry", [⟨"id", .primitive .int, false⟩]⟩, ⟨"Booking", fields⟩]⟩

/-- The fields that are declared. -/
def bookingFields : List Parameter :=
  [⟨"id", .primitive .int, false⟩, ⟨"amount", .primitive .decimal, false⟩]

/-- A signature, an element of another namespace. -/
def signature (attributes : List (String × String)) : Element :=
  smallElement "urn:audit" "signed" attributes []

theorem isForeign_signature (attributes : List (String × String)) :
    IsForeign (signature attributes) := by
  have hns : ∀ ns ∈ understood, some "urn:audit" ≠ some ns := by decide
  exact hns

/-- The document with a signature is the one without it, and a signature inserted. -/
theorem resembles_ledgerDocument {admits : Element → Element → Prop} {e : Element}
    (h : admits (contentElement []) e) :
    Resembles (inserted admits) (ledgerDocument []) (ledgerDocument [e]) := by
  have hself : ∀ e, Resembles (inserted admits) e e :=
    Resembles.refl fun _ => ⟨rfl, rfl, rfl, rfl⟩
  refine .intro ⟨rfl, rfl, rfl, rfl⟩ (.cons ?_ .nil)
  refine .intro ⟨rfl, rfl, rfl, rfl⟩ (.cons ?_ .nil)
  refine .intro ⟨rfl, rfl, rfl, rfl⟩ (.cons (hself _) (.cons (hself _) (.cons ?_ .nil)))
  refine .intro ⟨rfl, rfl, rfl, rfl⟩ (.cons ?_ .nil)
  exact .intro ⟨rfl, rfl, rfl, rfl⟩ (.cons (hself _) (.extra h .nil))

/-- A signature without a base changes nothing. -/
theorem modelOf_of_inserted_signature :
    Resembles (inserted Admits) (ledgerDocument []) (ledgerDocument [signature [("by", "me")]]) ∧
      modelOf (ledgerDocument [signature [("by", "me")]]) = .ok (ledgerModel bookingFields) := by
  have hinserted : Resembles (inserted Admits) (ledgerDocument [])
      (ledgerDocument [signature [("by", "me")]]) :=
    resembles_ledgerDocument {
      foreign := isForeign_signature [("by", "me")]
      complex := fun _ => ⟨rfl, List.forall_mem_nil _⟩
      simple := fun _ => rfl }
  refine ⟨hinserted, (modelOf_of_inserted hinserted _).mp ?_⟩
  decide +kernel

/-- An element of a description or of a schema may hold any foreign one. -/
def AdmitsForeign (parent e : Element) : Prop :=
  (parent.namespaceName = some namespaceName ∨ parent.namespaceName = some Schema.namespaceName) ∧
    IsForeign e

/-- A signature with a base counts as a derivation: the type gets the fields of that base too, and
where nothing is bound to the prefix of the base there is no model any more. -/
theorem foreign_derivation_counts :
    modelOf (ledgerDocument [signature [("base", "t:Stamp")]]) =
        .ok (ledgerModel (bookingFields ++ [⟨"author", .primitive .string, false⟩])) ∧
      (∀ m, modelOf (ledgerDocument [signature [("base", "urn:stamp")]]) ≠ .ok m) ∧
      ¬ ∀ root root', Resembles (inserted AdmitsForeign) root root' →
        ∀ m, modelOf root = .ok m ↔ modelOf root' = .ok m := by
  have hplain : modelOf (ledgerDocument []) = .ok (ledgerModel bookingFields) := by decide +kernel
  have hsigned : modelOf (ledgerDocument [signature [("base", "t:Stamp")]]) =
      .ok (ledgerModel (bookingFields ++ [⟨"author", .primitive .string, false⟩])) := by
    decide +kernel
  have hunbound : modelOf (ledgerDocument [signature [("base", "urn:stamp")]]) =
      .error (.unboundReference "urn:stamp") := by decide +kernel
  refine ⟨hsigned, fun m hm => ?_, fun hignored => ?_⟩
  · rw [hunbound] at hm
    cases hm
  · have hinserted : Resembles (inserted AdmitsForeign) (ledgerDocument [])
        (ledgerDocument [signature [("base", "t:Stamp")]]) :=
      resembles_ledgerDocument ⟨.inr rfl, isForeign_signature [("base", "t:Stamp")]⟩
    have hsame := (hignored _ _ hinserted _).mp hplain
    rw [hsigned] at hsame
    exact absurd (Except.ok.inj hsame) (by decide)

end SoapClient.Wsdl
