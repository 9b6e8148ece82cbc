import SoapClient.Proofs.Envelope.Request
import SoapClient.Proofs.Invocation
import SoapClient.Proofs.Wsdl.Naming

/-!
# Requests of accepted arguments

Names are written into a request as they are. Those that a description gives are in general names
that can stand in a tag, but the members of an object that stands where anything can have any names.
Main statement: where these can stand in a tag too, the arguments stay inside of the element around
them, each under the name of its parameter (`exists_payload_of_bindArguments`). Where they cannot,
an argument can add elements beside its own (`exists_children_of_bindArguments`).
-/

namespace SoapClient.Envelope

open Outcome
open Xml (Element isNCName childValues)

variable {root : Element} {m : ServiceModel} {s : Service} {op : Operation}
  {parameters : List Parameter} {values : List Json} {arguments : List (String × Json)}

/-! ## Names in arguments -/

/-- What the arguments for some parameters hold where anything can stand has members with names that
can stand in a tag. -/
def HaveNCNames (m : ServiceModel) (parameters : List Parameter) (values : List Json) : Prop :=
  ∀ bound ∈ parameters.zip values, ∀ w,
    m.HoldsValue bound.2 bound.1.type w (.primitive .anyType) → w.Everywhere Json.HasNCNames

/-- Arguments that are bound have the names of the parameters. -/
theorem map_fst_of_bindArguments (hlength : values.length = parameters.length)
    (h : bindArguments m parameters values = .ok arguments) :
    arguments.map (·.1) = parameters.map (·.name) := by
  obtain ⟨-, rfl⟩ := bindArguments_eq_ok_iff.mp h
  rw [List.map_map]
  have hcomp : (fun a : String × Json => a.1) ∘ argumentFor m = (·.name) ∘ Prod.fst := rfl
  rw [hcomp, ← List.map_map, List.map_fst_zip hlength.ge]

/-- Arguments that are bound have names that can stand in a tag, at any depth. -/
theorem hasNCNames_of_bindArguments (hm : Wsdl.IsNamed m (isNCName ·))
    (hparameters : ∀ p ∈ parameters, isNCName p.name) (hlength : values.length = parameters.length)
    (hvalues : ∀ v ∈ values, v.Everywhere Json.HasDistinctNames)
    (hany : HaveNCNames m parameters values)
    (h : bindArguments m parameters values = .ok arguments) :
    (Json.obj arguments).Everywhere Json.HasNCNames := by
  have hnames := map_fst_of_bindArguments hlength h
  obtain ⟨hfits, rfl⟩ := bindArguments_eq_ok_iff.mp h
  rw [Json.everywhere_obj]
  refine ⟨fun a ha => ?_, List.forall_mem_map.mpr fun bound hbound => ?_⟩
  · have hname : a.1 ∈ parameters.map (·.name) := hnames ▸ List.mem_map.mpr ⟨a, ha, rfl⟩
    obtain ⟨p, hp, heq⟩ := List.mem_map.mp hname
    exact heq ▸ hparameters p hp
  · -- what is sent is what was given, in another order
    have hgiven : bound.2.Everywhere Json.HasNCNames :=
      hasNCNames_of_fits (fits_of_check (hfits bound hbound))
        (hvalues _ (List.of_mem_zip hbound).2)
        (fun _ _ _ _ hc => hm.name_of_complexType? hc) (hany bound hbound)
    exact (reorders_arrange m bound.2 bound.1.type).hasNCNames hgiven

/-! ## Requests of a description -/

/-- The names of the children that stand for some members. -/
theorem map_localName_of_childValues {es : List Element}
    (h : childValues es = memberOccurrences arguments) :
    es.map (·.localName) = arguments.flatMap fun (name, v) =>
      List.replicate (occurrences v).length name := by
  have hnames : es.map (·.localName) = (childValues es).map (·.1) := by
    rw [childValues_eq_map, List.map_map]
    rfl
  rw [hnames, h, memberOccurrences_eq, List.map_flatMap]
  congr
  funext ⟨name, v⟩
  rw [List.map_map]
  exact List.map_const'

/-- The request for an operation of a description that gives names that can stand in a tag, where
the operation is not bare and its arguments are accepted and hold such names too. It is read as an
envelope with one body element. This has the name of the request's element, and its children are
those of one argument after the other, in the order of the parameters and each with the name of its
parameter. Only with an empty namespace the request cannot be read. -/
theorem exists_payload_of_bindArguments (hmodel : Wsdl.modelOf root = .ok m)
    (hnames : ∀ name ∈ Wsdl.givenNames root, isNCName name) (hs : s ∈ m.services)
    (hop : op ∈ s.operations) (hstyle : op.style ≠ .documentBare)
    (hlength : values.length = op.parameters.length)
    (hbind : bindArguments m op.parameters values = .ok arguments)
    (hvalues : ∀ v ∈ values, v.Everywhere Json.HasDistinctNames)
    (hany : HaveNCNames m op.parameters values) :
    arguments.map (·.1) = op.parameters.map (·.name) ∧
    (op.namespaceName ≠ some "" → ∃ envelope body payload : Element,
      Element.ofText (encode op arguments) = .ok envelope ∧
      envelope.is (namespaceName op.soapVersion) "Envelope" ∧ envelope.children = [body] ∧
      body.is (namespaceName op.soapVersion) "Body" ∧ body.children = [payload] ∧
      payload.localName = op.requestElement ∧ payload.namespaceName = op.namespaceName ∧
      payload.children.map (·.localName) = arguments.flatMap fun (name, v) =>
        List.replicate (occurrences v).length name) ∧
    (op.namespaceName = some "" → Element.ofText (encode op arguments) =
      .error (.unboundQualifier operationQualifier
        (operationQualifier ++ ":" ++ op.requestElement))) := by
  have hm : Wsdl.IsNamed m (isNCName ·) := Wsdl.isNamed_of_modelOf hnames hmodel
  have hopNames := hm.operations s hs op hop
  have harguments := hasNCNames_of_bindArguments hm hopNames.parameters hlength hvalues hany hbind
  have hrequest : isNCName op.requestElement := hopNames.requestElement hstyle
  refine ⟨map_fst_of_bindArguments hlength hbind, fun hns => ?_, fun hns => ?_⟩
  · obtain ⟨envelope, body, payload, htext, henvelope, hbodies, hbody, hpayloads, hlocal, hpayload,
      -, hchildren, -⟩ := exists_payload_of_encode ⟨hstyle, hns, hrequest⟩ harguments
    exact ⟨envelope, body, payload, htext, henvelope, hbodies, hbody, hpayloads, hlocal, hpayload,
      map_localName_of_childValues hchildren⟩
  · exact ofText_encode_of_empty_namespace hstyle hns hrequest harguments

/-! ## A store of any values -/

/-- A document with a service that keeps a value of any type for some time. -/
def storeDocument : Element :=
  Wsdl.smallDocument []
    [Wsdl.smallElement Wsdl.namespaceName "message" [("name", "In")]
      [Wsdl.smallElement Wsdl.namespaceName "part" [("name", "value"), ("type", "xsd:anyType")] [],
       Wsdl.smallElement Wsdl.namespaceName "part" [("name", "days"), ("type", "xsd:int")] []],
     Wsdl.smallElement Wsdl.namespaceName "portType" [("name", "Store")]
      [Wsdl.smallElement Wsdl.namespaceName "operation" [("name", "keep")]
        [Wsdl.smallElement Wsdl.namespaceName "input" [("message", "t:In")] []]],
     Wsdl.smallElement Wsdl.namespaceName "binding" [("name", "OverSoap"), ("type", "t:Store")]
      [Wsdl.smallElement (Wsdl.bindingNamespace .soap11) "binding" [("style", "rpc")] []],
     Wsdl.smallElement Wsdl.namespaceName "service" [("name", "Keeper")]
      [Wsdl.smallElement Wsdl.namespaceName "port" [("name", "p"), ("binding", "t:OverSoap")] []]]

/-- The operation of this service. -/
def keepOperation : Operation where
  name := "keep"
  parameters := [⟨"value", .primitive .anyType, false⟩, ⟨"days", .primitive .int, false⟩]
  returnType := .void
  soapAction := none
  style := .rpc
  soapVersion := .soap11
  namespaceName := some "urn:t"
  requestElement := "keep"
  qualifiedParameters := false
  resultElement := none

/-- The service. -/
def keeperService : Service := ⟨"Keeper", none, [keepOperation]⟩

/-- The model of this document. -/
def storeModel : ServiceModel := ⟨some "urn:t", [keeperService], []⟩

/-- Arguments of the operation. -/
def keepArguments (value : Json) : List Json := [value, .whole ⟨7, by decide, by decide⟩]

/-- A list with markup in it is kept inside of the request. -/
theorem exists_payload_of_bindArguments_keep :
    Wsdl.modelOf storeDocument = .ok storeModel ∧
    ∃ arguments, bindArguments storeModel keepOperation.parameters
        (keepArguments (.arr [.obj [("note", .str "</value>")], .null])) = .ok arguments ∧
      ∃ envelope body payload : Element,
        Element.ofText (encode keepOperation arguments) = .ok envelope ∧
        envelope.children = [body] ∧ body.children = [payload] ∧ payload.localName = "keep" ∧
        payload.children.map (·.localName) = ["value", "value", "days"] := by
  have hmodel : Wsdl.modelOf storeDocument = .ok storeModel := by decide +kernel
  have hnames : ∀ name ∈ Wsdl.givenNames storeDocument, isNCName name := by decide +kernel
  have hvalues : ∀ v ∈ keepArguments (.arr [.obj [("note", .str "</value>")], .null]),
      v.Everywhere Json.HasDistinctNames := by
    simp [keepArguments, Json.Everywhere, Json.EverywhereInMembers, Json.EverywhereInItems,
      Json.HasDistinctNames]
  have hany : HaveNCNames storeModel keepOperation.parameters
      (keepArguments (.arr [.obj [("note", .str "</value>")], .null])) := by
    have hnote : isNCName "note" := by decide
    intro bound hbound w hw
    simp only [keepOperation, keepArguments, List.zip_cons_cons, List.zip_nil_right, List.mem_cons,
      List.not_mem_nil, or_false] at hbound
    rcases hbound with rfl | rfl
    · cases hw
      simp [Json.Everywhere, Json.EverywhereInMembers, Json.EverywhereInItems, Json.HasNCNames,
        hnote]
    · cases hw
  have hservice : keeperService ∈ storeModel.services := List.mem_cons_self
  have hoperation : keepOperation ∈ keeperService.operations := List.mem_cons_self
  obtain ⟨-, hrequest, -⟩ := exists_payload_of_bindArguments hmodel hnames hservice hoperation
    (by decide) rfl rfl hvalues hany
  obtain ⟨envelope, body, payload, htext, -, hbodies, -, hpayloads, hlocal, -, hchildren⟩ :=
    hrequest (by decide)
  exact ⟨hmodel, _, rfl, envelope, body, payload, htext, hbodies, hpayloads, hlocal, hchildren⟩

/-- An object whose only member has a name with markup in it. -/
def strayValue : Json := .obj [("a/></value><days>0</days><value><b", .null)]

/-- The names of the children of the only element in the only body of an envelope. -/
def payloadNames (envelope : Element) : List (List String) :=
  envelope.children.flatMap fun body => body.children.map fun payload =>
    payload.children.map (·.localName)

/-- The name of a member is enough to end the element of an argument and to put another one behind
it, although the description gives names that can stand in a tag and the argument is accepted. -/
theorem exists_children_of_bindArguments :
    Wsdl.modelOf storeDocument = .ok storeModel ∧
    (∀ name ∈ Wsdl.givenNames storeDocument, isNCName name) ∧
    (∀ v ∈ keepArguments strayValue, v.Everywhere Json.HasDistinctNames) ∧
    ∃ arguments, bindArguments storeModel keepOperation.parameters (keepArguments strayValue) =
        .ok arguments ∧
      (Element.ofText (encode keepOperation arguments)).toOption.map payloadNames =
        some [["value", "days", "value", "days"]] := by
  refine ⟨by decide +kernel, by decide +kernel, ?_, _, rfl, ?_⟩
  · simp [keepArguments, strayValue, Json.Everywhere, Json.EverywhereInMembers,
      Json.HasDistinctNames]
  · rw [encode, Element.ofText_eq_ofScan]
    decide +kernel

end SoapClient.Envelope
