import SoapClient.Proofs.Envelope.Body
import SoapClient.Proofs.Wsdl.Layout

/-!
# Body elements of bare operations

A bare operation takes parts that are elements. Of these the model keeps the name of the first one,
and the names of the parts. Main statement: a request has one body element for each part, in their
order. The first one has the name of the element that its part refers to, the others have the names
of their parts, in the namespace of the first one (`hasBodyElements_of_modelOf`).
-/

namespace SoapClient.Wsdl

open Xml (Element QName Scope)
open Envelope

variable {root e : Element} {m : ServiceModel} {name : String} {es : List Element}
  {parts : List Part} {shape : Shape} {op : Operation}

/-- The namespace of the element that the first part refers to. -/
def bodyNamespace? (parts : List Element) : Option String :=
  (parts.head?.bind (referredName? · "element")).bind (·.namespaceName)

/-- The local names of the elements for the parts: the first one has the name of the element that
its part refers to, the others have the names of their parts. -/
def bodyNames : List Element → List (Option String)
  | [] => []
  | first :: rest =>
    (referredName? first "element").map (·.localName) :: rest.map (·.attribute? "name")

/-- No qualifier is bound to the empty namespace. -/
theorem find?_ne_empty (scope : Scope) (qualifier : String) :
    scope.find? qualifier ≠ some "" := by
  induction scope with
  | nil => exact Option.some_ne_none _ ∘ Eq.symm
  | cons declared outer ih =>
    obtain ⟨q, ns⟩ := declared
    rw [Scope.find?]
    split
    · split
      · exact Option.some_ne_none _ ∘ Eq.symm
      · simpa
    · exact ih

/-- A name that a text stands for is not in the empty namespace. -/
theorem namespaceName_ne_of_resolve? {text : String} {found : QName}
    (h : e.resolve? text = some found) : found.namespaceName ≠ some "" := by
  rw [Element.resolve?] at h
  split at h
  · obtain ⟨ns, hns, rfl⟩ := Option.map_eq_some_iff.mp h
    exact fun hempty => find?_ne_empty _ _ (hns.trans hempty)
  · obtain rfl := Option.some.inj h
    exact find?_ne_empty _ _

theorem bodyNamespace?_ne_empty (es : List Element) : bodyNamespace? es ≠ some "" := by
  intro hempty
  rw [bodyNamespace?, Option.bind_eq_some_iff] at hempty
  obtain ⟨found, hfound, hempty⟩ := hempty
  obtain ⟨first, -, hfirst⟩ := Option.bind_eq_some_iff.mp hfound
  obtain ⟨text, -, hresolve⟩ := Option.bind_eq_some_iff.mp hfirst
  exact namespaceName_ne_of_resolve? hresolve hempty

/-- A part with a reference to an element refers to one. -/
theorem exists_referredName? {p : Part} (hpart : IsPart e p)
    (helement : (e.attribute? "element").isSome) :
    ∃ found, p.element = some found ∧ referredName? e "element" = some found := by
  rw [hpart.hasElement] at helement
  obtain ⟨found, hfound⟩ := Option.isSome_iff_exists.mp helement
  exact ⟨found, hfound, hpart.element.trans hfound⟩

/-- Where all parts refer to elements, the first element is that of the first part. -/
theorem findSome?_element (hparts : List.Forall₂ IsPart es parts)
    (helements : ∀ part ∈ es, (part.attribute? "element").isSome) :
    parts.findSome? (·.element) = es.head?.bind (referredName? · "element") := by
  cases hparts with
  | nil => rfl
  | @cons first p rest others hfirst _ =>
    obtain ⟨found, hfound, hreferred⟩ :=
      exists_referredName? hfirst (helements first List.mem_cons_self)
    rw [List.findSome?_cons, hfound, List.head?_cons, Option.bind_some, hreferred]

theorem names_of_forall₂ (hparts : List.Forall₂ IsPart es parts) :
    es.map (·.attribute? "name") = (parts.map (·.name)).map some := by
  induction hparts with
  | nil => rfl
  | cons hfirst _ ih => rw [List.map_cons, hfirst.name, ih, List.map_cons, List.map_cons]

/-- A bare operation of which all parts refer to elements has the namespace of the first one. -/
theorem namespaceName_of_hasBareParts (hparts : List.Forall₂ IsPart es parts)
    (helements : ∀ part ∈ es, (part.attribute? "element").isSome) (hop : HasShape op shape)
    (hshape : shape.HasBareParts name parts) : op.namespaceName = bodyNamespace? es := by
  rw [hop.namespaceName (by rw [hshape.style]; decide), hshape.namespaceName,
    findSome?_element hparts helements, bodyNamespace?]

/-- Its arguments stand in the body under the names of the parts, but for the first one, which has
the name of its element. -/
theorem exists_names_of_hasBareParts (hparts : List.Forall₂ IsPart es parts)
    (helements : ∀ part ∈ es, (part.attribute? "element").isSome) (hop : HasShape op shape)
    (hshape : shape.HasBareParts name parts) :
    ∃ names, bodyNames es = names.map some ∧
      ∀ arguments : List (String × Json), arguments.map (·.1) = op.parameters.map (·.name) →
        (renameFirst op.requestElement arguments).map (·.1) = names := by
  have hrequest := hop.requestElement.trans hshape.requestElement
  rw [hop.parameters, hshape.parameters]
  rw [findSome?_element hparts helements] at hrequest
  cases hparts with
  | nil =>
    refine ⟨[], rfl, fun arguments harguments => ?_⟩
    obtain rfl := List.map_eq_nil_iff.mp harguments
    rfl
  | @cons first p rest others hfirst hrest =>
    obtain ⟨found, -, hreferred⟩ :=
      exists_referredName? hfirst (helements first List.mem_cons_self)
    rw [List.head?_cons, Option.bind_some, hreferred] at hrequest
    refine ⟨found.localName :: others.map (·.name), ?_, fun arguments harguments => ?_⟩
    · rw [bodyNames, hreferred, names_of_forall₂ hrest]
      rfl
    · obtain ⟨argument, values, rfl, -, hvalues⟩ := List.map_eq_cons_iff.mp harguments
      rw [renameFirst, List.map_cons, hvalues, hrequest]
      rfl

/-- The request of a bare operation all parts of which refer to elements. For arguments that are no
arrays it has one body element for each part, in the order of the parts, and all in the namespace of
the element that the first part refers to. The first one has the local name of this element, the
others have the names of their parts. -/
theorem hasBodyElements_of_modelOf (h : modelOf root = .ok m) {service : Service}
    (hservice : service ∈ m.services) (hop : op ∈ service.operations)
    (hstyle : op.style = .documentBare) :
    ∃ operation, operationElement? root service.name op.name = some operation ∧
      ((∀ part ∈ inputParts root operation, (part.attribute? "element").isSome) →
        op.namespaceName = bodyNamespace? (inputParts root operation) ∧
        ∃ names, bodyNames (inputParts root operation) = names.map some ∧
          ∀ arguments : List (String × Json),
            arguments.map (·.1) = op.parameters.map (·.name) →
            (∀ argument ∈ arguments, argument.2.kind ≠ .array) →
            HasBodyElements op arguments names) := by
  obtain ⟨I, operation, soap, s₁, s₂, hoperation, hbind⟩ := exists_bindOperation h hservice hop
  obtain ⟨parts, shape, htakes, hshape, hlayout⟩ := exists_shape_of_bindOperation hbind
  have hparts := forall₂_inputParts I.read I.defined htakes
  refine ⟨operation, hoperation, fun helements => ?_⟩
  have hbare : shape.HasBareParts op.name parts := by
    rcases hlayout with hrpc | hbare | ⟨element, hwrapper⟩
    · exact absurd (hstyle.symm.trans hrpc) (by decide)
    · exact hbare
    · exact absurd ((hstyle.symm.trans hshape.style).trans hwrapper.style) (by decide)
  have hns := namespaceName_of_hasBareParts hparts helements hshape hbare
  obtain ⟨names, hnames, hmembers⟩ := exists_names_of_hasBareParts hparts helements hshape hbare
  refine ⟨hns, names, hnames, fun arguments harguments hkinds => ?_⟩
  rw [← hmembers arguments harguments]
  have hempty := bodyNamespace?_ne_empty (inputParts root operation)
  exact hasBodyElements_of_bare hstyle (hns ▸ hempty) hkinds

/-! ## A document with two namespaces -/

/-- An operation of a small document, with the message that it takes. -/
def smallOperation (name message : String) : Element :=
  smallElement namespaceName "operation" [("name", name)]
    [smallElement namespaceName "input" [("message", message)] []]

/-- A part that refers to an element in the other namespace. -/
def notePart : Element :=
  { smallElement namespaceName "part" [("name", "note"), ("element", "u:Remark")] [] with
    scope := [("u", "urn:u")] }

/-- A document with two operations that take an order: one takes it together with a note, the other
one has the name of its element. -/
def deskDocument : Element :=
  smallElement namespaceName "definitions" [("targetNamespace", "urn:t")]
    [smallElement namespaceName "types" []
      [xsd "schema" [("targetNamespace", "urn:t")]
        [xsd "element" [("name", "Order")]
          [xsd "complexType" []
            [xsd "sequence" [] [xsd "element" [("name", "id"), ("type", "xsd:string")] []]]]],
       xsd "schema" [("targetNamespace", "urn:u")]
        [xsd "element" [("name", "Remark"), ("type", "xsd:string")] []]],
     smallElement namespaceName "message" [("name", "Sent")]
      [smallElement namespaceName "part" [("name", "order"), ("element", "t:Order")] [], notePart],
     smallElement namespaceName "message" [("name", "Ordered")]
      [smallElement namespaceName "part" [("name", "parameters"), ("element", "t:Order")] []],
     smallElement namespaceName "portType" [("name", "Desk")]
      [smallOperation "send" "t:Sent", smallOperation "Order" "t:Ordered"],
     smallElement namespaceName "binding" [("name", "OverSoap"), ("type", "t:Desk")]
      [smallElement (bindingNamespace .soap11) "binding" [] []],
     smallElement namespaceName "service" [("name", "Front")]
      [smallElement namespaceName "port" [("name", "p"), ("binding", "t:OverSoap")] []]]

/-- The operation that takes an order and a note. -/
def sendOperation : Operation where
  name := "send"
  parameters := [⟨"order", .complex "Order", false⟩, ⟨"note", .primitive .string, false⟩]
  returnType := .void
  soapAction := none
  style := .documentBare
  soapVersion := .soap11
  namespaceName := some "urn:t"
  requestElement := "Order"
  qualifiedParameters := true
  resultElement := none

/-- The operation that takes the number of an order. -/
def numberOperation : Operation where
  name := "Order"
  parameters := [⟨"id", .primitive .string, false⟩]
  returnType := .void
  soapAction := none
  style := .documentWrapped
  soapVersion := .soap11
  namespaceName := some "urn:t"
  requestElement := "Order"
  qualifiedParameters := false
  resultElement := none

/-- The service of this document. -/
def frontService : Service := ⟨"Front", none, [sendOperation, numberOperation]⟩

/-- The model of this document. -/
def deskModel : ServiceModel :=
  ⟨some "urn:t", [frontService], [⟨"Order", [⟨"id", .primitive .string, false⟩]⟩]⟩

/-- An order and a note. -/
def sendArguments : List (String × Json) :=
  [("order", .obj [("id", .str "A&B")]), ("note", .str "late")]

/-- The order goes under the name of its element, the note under the name of its part. -/
theorem hasBodyElements_of_modelOf_desk :
    modelOf deskDocument = .ok deskModel ∧
      HasBodyElements sendOperation sendArguments ["Order", "note"] := by
  have hmodel : modelOf deskDocument = .ok deskModel := by decide +kernel
  have hservice : frontService ∈ deskModel.services := List.mem_cons_self
  have hop : sendOperation ∈ frontService.operations := List.mem_cons_self
  have hsend : operationElement? deskDocument "Front" "send" =
      some (smallOperation "send" "t:Sent") := rfl
  obtain ⟨operation, hoperation, hbody⟩ := hasBodyElements_of_modelOf hmodel hservice hop rfl
  obtain rfl := Option.some.inj (hsend.symm.trans hoperation)
  have helements : ∀ part ∈ inputParts deskDocument (smallOperation "send" "t:Sent"),
      (part.attribute? "element").isSome := by decide +kernel
  obtain ⟨-, names, hnames, hrequest⟩ := hbody helements
  have hdesk : bodyNames (inputParts deskDocument (smallOperation "send" "t:Sent")) =
      ["Order", "note"].map some := by decide +kernel
  obtain rfl := List.map_injective_iff.mpr (Option.some_injective String)
    (hdesk.symm.trans hnames)
  exact ⟨hmodel, hrequest sendArguments rfl (by decide)⟩

/-- The names of the elements in the bodies of an envelope. -/
def bodyElementNames (envelope : Element) : List QName :=
  envelope.children.flatMap fun body => body.children.map fun e => ⟨e.namespaceName, e.localName⟩

/-- Only the first body element of a bare request has the name of the element that its part refers
to: of another part neither the local name nor the namespace of the element is kept. -/
theorem second_element_named_as_part :
    modelOf deskDocument = .ok deskModel ∧ frontService ∈ deskModel.services ∧
      sendOperation ∈ frontService.operations ∧ sendOperation.style = .documentBare ∧
      (operationElement? deskDocument "Front" "send").map (fun operation =>
          (inputParts deskDocument operation).map (referredName? · "element")) =
        some [some ⟨some "urn:t", "Order"⟩, some ⟨some "urn:u", "Remark"⟩] ∧
      sendArguments.map (·.1) = sendOperation.parameters.map (·.name) ∧
      (∀ argument ∈ sendArguments, argument.2.kind ≠ .array) ∧
      (Element.ofText (encode sendOperation sendArguments)).toOption.map bodyElementNames =
        some [⟨some "urn:t", "Order"⟩, ⟨some "urn:t", "note"⟩] := by
  refine ⟨by decide +kernel, List.mem_cons_self, List.mem_cons_self, rfl, by decide +kernel, rfl,
    by decide, ?_⟩
  rw [encode, Element.ofText_eq_ofScan]
  decide +kernel

end SoapClient.Wsdl
