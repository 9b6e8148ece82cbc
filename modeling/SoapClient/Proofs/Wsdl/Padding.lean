import SoapClient.Proofs.Text.Utf8
import SoapClient.Proofs.Wsdl.Respelling
import SoapClient.Proofs.Xml.Padding

/-!
# Blanks around names in a description

The names that a description refers to may be written with blanks around them. Main statement: names
without a qualifier, and names that stand for nothing, may, and the model stays the same
(`parse_of_padded`). A name with a qualifier may not: blanks behind it make it another name, and
with blanks in front of it it stands for nothing (`qualified_names_not_trimmed`).
-/

namespace SoapClient

open Xml (Element Comparison Markup Resembles AreSpaces)

/-! ## Comparing the elements of a document -/

namespace Xml

variable {C D : Comparison}

mutual

/-- A comparison that tells less apart among the elements of one tree. -/
theorem Resembles.mono_of_mem {e e' : Element}
    (htag : ∀ d ∈ e.subtrees, ∀ d', C.tag d d' → D.tag d d')
    (hextra : ∀ parent d, C.extra parent d → D.extra parent d) (h : Resembles C e e') :
    Resembles D e e' := by
  match h with
  | .intro hfirst hinside =>
    rw [Element.subtrees_eq, List.forall_mem_cons] at htag
    exact .intro (htag.1 _ hfirst) (hinside.mono_of_mem htag.2 hextra)

theorem ResembleInside.mono_of_mem {parent : Element} {es es' : List Element}
    (htag : ∀ d ∈ Element.subtreesAll es, ∀ d', C.tag d d' → D.tag d d')
    (hextra : ∀ parent d, C.extra parent d → D.extra parent d)
    (h : ResembleInside C parent es es') : ResembleInside D parent es es' := by
  match h with
  | .nil => exact .nil
  | .cons hfirst hrest =>
    rw [Element.subtreesAll, List.forall_mem_append] at htag
    exact .cons (hfirst.mono_of_mem htag.1 hextra) (hrest.mono_of_mem htag.2 hextra)
  | .extra hfirst hrest => exact .extra (hextra _ _ hfirst) (hrest.mono_of_mem htag hextra)

end

end Xml

namespace Wsdl

open Schema

/-! ## Padded documents -/

/-- An attribute of an element, with blanks around its value where that is a name that ignores
them. -/
def IsPaddedIn (e : Element) (a a' : String × String) : Prop :=
  a.1 = a'.1 ∧ (a.2 = a'.2 ∨ a.1 ∈ referring ∧ e.IgnoresBlanks a.2 ∧
    ∃ front back, AreSpaces front ∧ AreSpaces back ∧ a'.2 = front ++ a.2 ++ back)

/-- A tag with blanks around the names in its attributes. -/
structure IsPadded (e e' : Element) : Prop where
  namespaceName : e.namespaceName = e'.namespaceName
  localName : e.localName = e'.localName
  scope : e.scope = e'.scope
  attributes : List.Forall₂ (IsPaddedIn e) e.attributes e'.attributes

/-- A document, and the document with blanks around its names. -/
def padded : Comparison := ⟨IsPadded, fun _ _ => False⟩

/-- A tag says the same with blanks around the names that ignore them. -/
theorem IsPadded.saysSame {bytes : List UInt8} {root e e' : Element}
    (hroot : Element.ofBytes bytes = .ok root) (he : e ∈ root.subtrees) (h : IsPadded e e') :
    SaysSame e e' := by
  have hresolve : e.resolve? = e'.resolve? := by
    funext text
    rw [Element.resolve?, Element.resolve?, h.scope]
  refine saysSame_of_forall₂ h.namespaceName h.localName (h.attributes.imp fun a a' ha => ?_)
  obtain ⟨hname, hsame | ⟨hreferring, hignores, front, back, hfront, hback, hvalue⟩⟩ := ha
  · -- the value is written alike, and stands for the same by the same declarations
    refine ⟨hname, ?_⟩
    rw [hresolve, hsame]
    split <;> rfl
  · have hpadded := (Element.resolve?_padded_iff hroot he hfront hback).mpr (.inl hignores)
    refine ⟨hname, ?_⟩
    rw [if_pos hreferring, ← hresolve, hvalue, hpadded]

/-- Bytes that are read as a document have its model. -/
theorem parse_eq_ok_iff {bytes : List UInt8} {root : Element}
    (h : Element.ofBytes bytes = .ok root) (m : ServiceModel) :
    ServiceModel.parse bytes = .ok m ↔ modelOf root = .ok m := by
  rw [ServiceModel.parse, h, Outcome.mapError_ok, Outcome.ok_bind]
  cases modelOf root with
  | ok model => rw [Outcome.mapError_ok, Except.ok.injEq, Except.ok.injEq]
  | error cause => exact iff_of_false nofun nofun

/-- How an element reads names with blanks around them. -/
structure ReadsPadded (e : Element) : Prop where
  /-- Any blanks of running text around a name without a qualifier are cut off. -/
  unqualified : ∀ text front back, ':' ∉ text.toList → Text.isBlankText front →
    Text.isBlankText back → e.resolve? (front ++ text ++ back) = e.resolve? text
  /-- A blank of markup in front of a name with a qualifier unbinds the qualifier, and whatever
  stands behind it is a part of the local name. -/
  qualified : ∀ qualifier localName front back, ':' ∉ qualifier.toList → AreSpaces front →
    e.resolve? (front ++ (qualifier ++ ":" ++ localName) ++ back) =
      if front = "" then
        (e.resolve? (qualifier ++ ":" ++ localName)).map fun name =>
          ⟨name.namespaceName, name.localName ++ back⟩
      else none
  /-- Just these texts stand for the same with blanks around them. -/
  same : ∀ text front back, AreSpaces front → AreSpaces back →
    (e.resolve? (front ++ text ++ back) = e.resolve? text ↔
      e.IgnoresBlanks text ∨ (front = "" ∧ back = ""))

/-- Blanks around the names in a description that is read do not change its model, nor whether it
has one, where these names have no qualifier or stand for nothing. For others every blank counts. -/
theorem parse_of_padded {bytes : List UInt8} {root : Element}
    (hroot : Element.ofBytes bytes = .ok root) :
    (∀ e ∈ root.subtrees, ReadsPadded e) ∧
      ∀ bytes' root', Element.ofBytes bytes' = .ok root' → Resembles padded root root' →
        ∀ m, ServiceModel.parse bytes = .ok m ↔ ServiceModel.parse bytes' = .ok m := by
  refine ⟨fun e he => ?_, fun bytes' root' hroot' hpadded m => ?_⟩
  · exact {
      unqualified _ _ _ htext hfront hback := e.resolve?_padded_unqualified htext hfront hback
      qualified _ _ _ _ hqualifier hfront :=
        Element.resolve?_padded_qualified hroot he hqualifier hfront
      same _ _ _ hfront hback := Element.resolve?_padded_iff hroot he hfront hback }
  · have hextended : Resembles extended root root' := by
      refine hpadded.mono_of_mem (fun e he e' hsame => ?_) fun _ _ hnone => ?_
      · exact IsPadded.saysSame hroot he hsame
      · exact False.elim hnone
    rw [parse_eq_ok_iff hroot, parse_eq_ok_iff hroot']
    exact modelOf_eq_ok_iff hextended m

/-! ## A document with one name -/

/-- What is declared in this document. -/
def billScope : Xml.Scope := [("x", Schema.namespaceName), ("", Schema.namespaceName),
  ("w", Wsdl.namespaceName), ("xml", "http://www.w3.org/XML/1998/namespace")]

/-- An element of this document. -/
def billElement (ns localName : String) (attributes : List (String × String))
    (children : List Element) : Element :=
  ⟨some ns, localName, attributes, billScope, children, ""⟩

/-- A document with a type, and the type of its element as it is written. -/
def billDocument (type : String) : Element :=
  billElement namespaceName "definitions" [] [
    billElement namespaceName "types" [] [
      billElement Schema.namespaceName "schema" [] [
        billElement Schema.namespaceName "complexType" [("name", "Bill")] [
          billElement Schema.namespaceName "sequence" [] [
            billElement Schema.namespaceName "element" [("name", "total"), ("type", type)] []]]]]]

/-- How it is written. -/
def billMarkup (type : String) : Markup :=
  .element "w:definitions" [("xmlns:w", namespaceName), ("xmlns", Schema.namespaceName),
      ("xmlns:x", Schema.namespaceName)]
    [.element "w:types" []
      [.element "schema" []
        [.element "complexType" [("name", "Bill")]
          [.element "sequence" [] [.empty "element" [("name", "total"), ("type", type)]]]]]]

/-- Its bytes. -/
def billBytes (type : String) : List UInt8 :=
  Text.Utf8.encode (Markup.document (billMarkup type))

/-- Its model, with the type of the element. -/
def billModel (kind : PrimitiveKind) : ServiceModel :=
  ⟨none, [], [⟨"Bill", [⟨"total", .primitive kind, false⟩]⟩]⟩

theorem isWritten_billMarkup (type : String) : (billMarkup type).IsWritten := by
  have htag (name : String) (h : Xml.IsWrittenName name.toList) : Xml.IsWrittenTag name [] :=
    ⟨h, .nil⟩
  have hroot : Xml.IsWrittenTag "w:definitions" [("xmlns:w", namespaceName),
      ("xmlns", Schema.namespaceName), ("xmlns:x", Schema.namespaceName)] :=
    ⟨by decide, by decide, by decide⟩
  have hbill : Xml.IsWrittenTag "complexType" [("name", "Bill")] :=
    ⟨by decide, by decide, by decide⟩
  have htotal : Markup.IsWritten (.empty "element" [("name", "total"), ("type", type)]) :=
    ⟨by decide, by simp; decide, by simp⟩
  exact ⟨hroot, .inr ⟨⟨htag _ (by decide), .inr ⟨⟨htag _ (by decide), .inr ⟨⟨hbill,
    .inr ⟨⟨htag _ (by decide), .inr ⟨htotal, trivial⟩⟩, trivial⟩⟩, trivial⟩⟩, trivial⟩⟩, trivial⟩⟩

/-- The bytes are read as the document, whatever the name is. -/
theorem ofBytes_billBytes (type : String) :
    Element.ofBytes (billBytes type) = .ok (billDocument type) := by
  have hroot : Element.ofTag Xml.Scope.outermost "w:definitions" [("xmlns:w", namespaceName),
      ("xmlns", Schema.namespaceName), ("xmlns:x", Schema.namespaceName)] =
      .ok (billElement namespaceName "definitions" [] []) := rfl
  have htypes : Element.ofTag billScope "w:types" [] =
      .ok (billElement namespaceName "types" [] []) := rfl
  have hschema : Element.ofTag billScope "schema" [] =
      .ok (billElement Schema.namespaceName "schema" [] []) := rfl
  have hbill : Element.ofTag billScope "complexType" [("name", "Bill")] =
      .ok (billElement Schema.namespaceName "complexType" [("name", "Bill")] []) := rfl
  have hsequence : Element.ofTag billScope "sequence" [] =
      .ok (billElement Schema.namespaceName "sequence" [] []) := rfl
  have htotal : Markup.build billScope (.empty "element" [("name", "total"), ("type", type)]) =
      .ok (billElement Schema.namespaceName "element" [("name", "total"), ("type", type)] []) := rfl
  have hbuild : (billMarkup type).build Xml.Scope.outermost = .ok (billDocument type) := by
    refine Markup.build_element hroot (Markup.buildAll_singleton ?_)
    refine Markup.build_element htypes (Markup.buildAll_singleton ?_)
    refine Markup.build_element hschema (Markup.buildAll_singleton ?_)
    refine Markup.build_element hbill (Markup.buildAll_singleton ?_)
    exact Markup.build_element hsequence (Markup.buildAll_singleton htotal)
  rw [Element.ofBytes, billBytes, Text.Utf8.decode?_encode]
  exact (Element.ofText_document (isWritten_billMarkup type)).trans hbuild

/-- The document with blanks around the name, where it ignores them. -/
theorem resembles_billDocument {type front back : String}
    (hignores : ':' ∉ type.toList ∨ (billDocument type).resolve? type = none)
    (hfront : AreSpaces front) (hback : AreSpaces back) :
    Resembles padded (billDocument type) (billDocument (front ++ type ++ back)) := by
  have hsame : ∀ ns localName attributes children children',
      IsPadded (billElement ns localName attributes children)
        (billElement ns localName attributes children') := fun _ _ _ _ _ =>
    ⟨rfl, rfl, rfl, List.forall₂_same.mpr fun _ _ => ⟨rfl, .inl rfl⟩⟩
  refine .intro (hsame ..) (.cons ?_ .nil)
  refine .intro (hsame ..) (.cons ?_ .nil)
  refine .intro (hsame ..) (.cons ?_ .nil)
  refine .intro (hsame ..) (.cons ?_ .nil)
  refine .intro (hsame ..) (.cons ?_ .nil)
  have hreferring : "type" ∈ referring := by decide
  have htype : IsPaddedIn (billDocument type) ("type", type) ("type", front ++ type ++ back) :=
    ⟨rfl, .inr ⟨hreferring, hignores, front, back, hfront, hback, rfl⟩⟩
  exact .intro ⟨rfl, rfl, rfl, .cons ⟨rfl, .inl rfl⟩ (.cons htype .nil)⟩ .nil

/-- Blanks around the name of a type in the default namespace do not count. -/
theorem parse_of_padded_bill :
    Element.ofBytes (billBytes "int") = .ok (billDocument "int") ∧
      ServiceModel.parse (billBytes ("\t\n " ++ "int" ++ " ")) = .ok (billModel .int) := by
  have hpadded : Resembles padded (billDocument "int") (billDocument ("\t\n " ++ "int" ++ " ")) :=
    resembles_billDocument (.inl (by decide)) (by decide) (by decide)
  have hmodel : ServiceModel.parse (billBytes "int") = .ok (billModel .int) := by
    rw [parse_eq_ok_iff (ofBytes_billBytes _)]
    decide +kernel
  have hsame := (parse_of_padded (ofBytes_billBytes "int")).2 _ _ (ofBytes_billBytes _) hpadded
  exact ⟨ofBytes_billBytes _, (hsame _).mp hmodel⟩

/-- Names with a qualifier are not trimmed: with a blank behind it the name of a type stands for
another one, and with a blank in front of it the document has no model. -/
theorem qualified_names_not_trimmed :
    ServiceModel.parse (billBytes "x:int") = .ok (billModel .int) ∧
      ServiceModel.parse (billBytes "x:int ") = .ok (billModel .anyType) ∧
      ServiceModel.parse (billBytes " x:int") =
        .error (.unsupported (.unboundReference " x:int")) ∧
      ¬ ∀ bytes root, Element.ofBytes bytes = .ok root → ∀ e ∈ root.subtrees,
        ∀ text front back, AreSpaces front → AreSpaces back →
          e.resolve? (front ++ text ++ back) = e.resolve? text := by
  refine ⟨?_, ?_, ?_, fun hlaw => ?_⟩
  · rw [parse_eq_ok_iff (ofBytes_billBytes _)]
    decide +kernel
  · rw [parse_eq_ok_iff (ofBytes_billBytes _)]
    decide +kernel
  · have hmodel : modelOf (billDocument " x:int") = .error (.unboundReference " x:int") := by
      decide +kernel
    rw [ServiceModel.parse, ofBytes_billBytes, Outcome.mapError_ok, Outcome.ok_bind, hmodel]
    rfl
  · have hself : billDocument "x:int" ∈ (billDocument "x:int").subtrees := by
      rw [Element.subtrees_eq]
      exact List.mem_cons_self
    have hsame :=
      hlaw _ _ (ofBytes_billBytes "x:int") _ hself "x:int" " " "" (by decide) (by decide)
    exact absurd hsame (by decide +kernel)

end Wsdl

end SoapClient
