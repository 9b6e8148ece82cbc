import SoapClient.Proofs.Value.Closed
import SoapClient.Proofs.Wsdl.Interpretation

/-!
# Models refer to nothing but their types

Whatever document is interpreted, all types that its model refers to are types of the model, and
no look at a value comes to a type that is not defined. Main statement: `isClosed_of_modelOf`.
-/

namespace SoapClient.Wsdl

open Xml (Element)

/-- No look-up fails while a document is interpreted. What comes of it is closed: the types of
parameters, results and fields are all found, and so the values of these types are checked, read
and ordered without coming to a type that is not defined. -/
theorem isClosed_of_modelOf (root : Element) :
    NeverMisses (modelOf root) ∧ ∀ m, modelOf root = .ok m →
      m.IsClosed ∧ (∀ name ∈ m.typeNames, (m.complexType? name).isSome) ∧
        ∀ t : TypeRef, t.IsResult m.typeNames → ∀ v,
          (∀ isOptional path, FindsTypes (check m v t isOptional path)) ∧
          FindsTypes (coerce m v t) ∧
          ∀ fallback, arrangeOr fallback m v t = arrange m v t := by
  refine ⟨neverMisses_modelOf root, fun m h => ?_⟩
  obtain ⟨I⟩ := exists_interpretation h
  refine ⟨I.isClosed, fun name hname => ServiceModel.isSome_complexType?_iff.mpr hname, ?_⟩
  intro t ht v
  refine ⟨fun isOptional path => ?checks, ?reads, fun fallback => ?orders⟩
  case checks => exact findsTypes_check I.isClosed ht isOptional path
  case reads => exact findsTypes_coerceAt I.isClosed ht _
  case orders => exact arrangeOr_eq_arrange I.isClosed fallback ht

/-- A document with a service that appends a tree to a tree. -/
def forestDocument : Element :=
  smallDocument
    [xsd "complexType" [("name", "Tree")]
      [xsd "sequence" []
        [xsd "element" [("name", "label"), ("type", "xsd:string")] [],
         xsd "element" [("name", "tree"), ("type", "t:Tree"), ("minOccurs", "0"),
           ("maxOccurs", "unbounded")] []]]]
    [smallElement namespaceName "message" [("name", "In")]
      [smallElement namespaceName "part" [("name", "tree"), ("type", "t:Tree")] []],
     smallElement namespaceName "message" [("name", "Out")]
      [smallElement namespaceName "part" [("name", "result"), ("type", "t:Tree")] []],
     smallElement namespaceName "portType" [("name", "Trees")]
      [smallElement namespaceName "operation" [("name", "append")]
        [smallElement namespaceName "input" [("message", "t:In")] [],
         smallElement namespaceName "output" [("message", "t:Out")] []]],
     smallElement namespaceName "binding" [("name", "OverSoap"), ("type", "t:Trees")]
      [smallElement (bindingNamespace .soap11) "binding" [("style", "rpc")] []],
     smallElement namespaceName "service" [("name", "Forest")]
      [smallElement namespaceName "port" [("name", "p"), ("binding", "t:OverSoap")] []]]

/-- The model of this document. -/
def forestModel : ServiceModel where
  targetNamespace := some "urn:t"
  services := [{
    name := "Forest"
    endpoint := none
    operations := [{
      name := "append"
      parameters := [⟨"tree", .complex "Tree", false⟩]
      returnType := .complex "Tree"
      soapAction := none
      style := .rpc
      soapVersion := .soap11
      namespaceName := some "urn:t"
      requestElement := "append"
      qualifiedParameters := false
      resultElement := some "result" }] }]
  types := [⟨"Tree",
    [⟨"label", .primitive .string, false⟩, ⟨"tree", .array (.complex "Tree"), true⟩]⟩]

/-- The trees of this document can be nested without end, and no look into one comes to an
undefined type. -/
theorem isClosed_of_modelOf_forestDocument :
    modelOf forestDocument = .ok forestModel ∧ forestModel.IsClosed ∧
      ∀ v, FindsTypes (check forestModel v (.complex "Tree") false (.ofStart "tree")) := by
  have hmodel : modelOf forestDocument = .ok forestModel := by decide +kernel
  obtain ⟨hclosed, -, hvalues⟩ := (isClosed_of_modelOf forestDocument).2 forestModel hmodel
  have htree : (TypeRef.complex "Tree").IsResult forestModel.typeNames := .inr List.mem_cons_self
  exact ⟨hmodel, hclosed, fun v => (hvalues _ htree v).1 false _⟩

end SoapClient.Wsdl
