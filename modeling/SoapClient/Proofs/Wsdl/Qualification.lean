import SoapClient.Proofs.Wsdl.BodyElements

/-!
# Local elements of requests

A schema says whether the elements that are declared inside of others are in its namespace. Main
statement: where all schemas of a description say the same, the elements inside of the body elements
are in the namespace of the operation as they say, where the operation is wrapped, and always where
it is bare (`hasLocalForm_of_modelOf`).
-/

namespace SoapClient.Schema.Components

open Outcome

variable {schema : SchemaDecl} {schemas : List SchemaDecl} {c c' : Components}

/-- The elements of components have the forms of some schemas. -/
def HasFormsOf (c : Components) (schemas : List SchemaDecl) : Prop :=
  ∀ entry ∈ c.elements, ∃ schema ∈ schemas, entry.2.isQualified = schema.isQualified

theorem hasFormsOf_add (hschema : schema ∈ schemas) {d : TopLevel} (hc : c.HasFormsOf schemas)
    (h : add schema c d = .ok c') : c'.HasFormsOf schemas := by
  match d with
  | .imported none =>
    obtain rfl := Except.ok.inj h
    exact hc
  | .imported (some _) => cases h
  | .included _ _ => cases h
  | .element none _ => cases h
  | .complexType none _ => cases h
  | .simpleType none _ => cases h
  | .element (some name) type =>
    obtain rfl := Except.ok.inj h
    intro entry hentry
    rcases mem_of_mem_set hentry with heq | hentry
    · exact ⟨schema, hschema, by rw [heq]⟩
    · exact hc entry hentry
  | .complexType (some name) decl =>
    obtain rfl := Except.ok.inj h
    exact hc
  | .simpleType (some name) decl =>
    obtain rfl := Except.ok.inj h
    exact hc

/-- Each element has the form of a schema that was gathered. -/
theorem hasFormsOf_of_ofSchemas (h : ofSchemas schemas = .ok c) : c.HasFormsOf schemas := by
  have hempty : empty.HasFormsOf schemas := List.forall_mem_nil _
  refine foldlM_keeps (I := (HasFormsOf · schemas)) (fun schema hschema _ _ hc hadd => ?_) hempty h
  exact foldlM_keeps (I := (HasFormsOf · schemas))
    (fun _ _ _ _ hc hadd => hasFormsOf_add hschema hc hadd) hc hadd

end SoapClient.Schema.Components

namespace SoapClient.Wsdl

open Xml (Element QName)
open Schema Envelope

variable {root : Element} {m : ServiceModel} {op : Operation} {isQualified : Bool}

/-- The schemas of a document. -/
def schemaElements (root : Element) : List Element :=
  (root.childrenNamed namespaceName "types").flatMap
    (·.childrenNamed Schema.namespaceName "schema")

/-- All schemas of a document say that local elements are qualified, or all say that they are not,
which they are not either where a schema says nothing. -/
def HasElementForm (root : Element) (isQualified : Bool) : Prop :=
  ∀ schema ∈ schemaElements root,
    (schema.attribute? "elementFormDefault" = some "qualified" ↔ isQualified)

instance (root : Element) (isQualified : Bool) : Decidable (HasElementForm root isQualified) :=
  List.decidableBAll _ (schemaElements root)

/-- Where all schemas have one form, all global elements have it. -/
theorem isQualified_of_hasElementForm (hform : HasElementForm root isQualified) {c : Components}
    (h : Components.ofSchemas (readSchemas root) = .ok c) {name : QName} {decl : ElementDecl}
    (hdecl : Table.find? name c.elements = some decl) : decl.isQualified = isQualified := by
  obtain ⟨schema, hschema, heq⟩ :=
    Components.hasFormsOf_of_ofSchemas h _ (Components.mem_of_find? hdecl)
  obtain ⟨i, hi, rfl⟩ := List.mem_mapIdx.mp hschema
  rw [heq, Bool.eq_iff_iff, ← hform _ (List.getElem_mem hi)]
  exact decide_eq_true_iff

/-- The namespace, the request's element and the form of an operation in document style, of which
the first part refers to an element. -/
theorem form_of_isDocument {c : Components} {name : String} {shape : Shape} {p : Part}
    {others : List Part} {found : QName}
    (hform : ∀ decl, Table.find? found c.elements = some decl → decl.isQualified = isQualified)
    (hfound : p.element = some found) (hop : HasShape op shape)
    (hshape : shape.IsDocument c name (p :: others)) :
    op.namespaceName = found.namespaceName ∧ op.requestElement = found.localName ∧
      op.qualifiedParameters = (decide (op.style = .documentBare) || isQualified) := by
  rw [hop.namespaceName hshape.style_ne_rpc, hop.requestElement, hop.qualifiedParameters, hop.style]
  rcases hshape with hbare | ⟨element, hwrapper⟩
  · have hfirst : (p :: others).findSome? (·.element) = some found := by
      rw [List.findSome?_cons, hfound]
    rw [hbare.namespaceName, hbare.requestElement, hbare.qualifiedParameters, hbare.style, hfirst]
    exact ⟨rfl, rfl, rfl⟩
  · have hpart := hwrapper.wrapper
    cases others with
    | cons second rest => cases hpart
    | nil =>
      -- the element around the parameters is that of the only part
      obtain rfl := Option.some.inj (hfound.symm.trans hpart)
      obtain ⟨decl, hdecl, hqualified⟩ := hwrapper.qualifiedParameters
      rw [hwrapper.namespaceName, hwrapper.requestElement, hqualified, hwrapper.style,
        hform decl hdecl]
      exact ⟨rfl, rfl, rfl⟩

/-- Where all schemas of a description have one form, this is the form of the request of each
operation in document style of which the first part refers to an element in a namespace, unless the
operation is bare: then all elements inside of the body elements are in the namespace. -/
theorem hasLocalForm_of_modelOf (h : modelOf root = .ok m)
    (hform : HasElementForm root isQualified) {service : Service} (hservice : service ∈ m.services)
    (hop : op ∈ service.operations) (hstyle : op.style ≠ .rpc) :
    ∃ operation, operationElement? root service.name op.name = some operation ∧
      ∀ first rest ns localName, inputParts root operation = first :: rest →
        referredName? first "element" = some ⟨some ns, localName⟩ →
        op.namespaceName = some ns ∧ op.requestElement = localName ∧
        ∀ arguments,
          HasLocalForm op arguments (decide (op.style = .documentBare) || isQualified) := by
  obtain ⟨I, operation, soap, s₁, s₂, hoperation, hbind⟩ := exists_bindOperation h hservice hop
  obtain ⟨parts, shape, htakes, hshape, hlayout⟩ := exists_shape_of_bindOperation hbind
  have hparts := forall₂_inputParts I.read I.defined htakes
  refine ⟨operation, hoperation, fun first rest ns localName hinput hreferred => ?_⟩
  rw [hinput] at hparts
  cases hparts with
  | @cons _ p _ others hfirst _ =>
    have hfound : p.element = some ⟨some ns, localName⟩ := hfirst.element.symm.trans hreferred
    obtain ⟨hns, hrequest, hqualified⟩ := form_of_isDocument
      (fun _ => isQualified_of_hasElementForm hform I.gathered) hfound hshape
      (hlayout.resolve_left hstyle)
    refine ⟨hns, hrequest, fun arguments => ?_⟩
    obtain ⟨text, -, hresolve⟩ := Option.bind_eq_some_iff.mp hreferred
    have hempty : op.namespaceName ≠ some "" := hns ▸ namespaceName_ne_of_resolve? hresolve
    have hforms : Envelope.isQualified op = (decide (op.style = .documentBare) || isQualified) := by
      rw [Envelope.isQualified, hns, hqualified]
      rfl
    rw [← hforms]
    exact hasLocalForm hempty arguments

/-- The number of an order has no namespace where the operation has the name of the element around
it, and has one where the operation has another name. -/
theorem hasLocalForm_of_modelOf_desk :
    modelOf deskDocument = .ok deskModel ∧ HasElementForm deskDocument false ∧
      (∀ arguments, HasLocalForm numberOperation arguments false) ∧
      ∀ arguments, HasLocalForm sendOperation arguments true := by
  have hmodel : modelOf deskDocument = .ok deskModel := by decide +kernel
  have hform : HasElementForm deskDocument false := by decide +kernel
  have hservice : frontService ∈ deskModel.services := List.mem_cons_self
  have hnumber : numberOperation ∈ frontService.operations :=
    List.mem_cons_of_mem _ List.mem_cons_self
  have hsend : sendOperation ∈ frontService.operations := List.mem_cons_self
  have hnumberElement : operationElement? deskDocument "Front" "Order" =
      some (smallOperation "Order" "t:Ordered") := rfl
  have hsendElement : operationElement? deskDocument "Front" "send" =
      some (smallOperation "send" "t:Sent") := rfl
  obtain ⟨operation, hoperation, hnumberForm⟩ :=
    hasLocalForm_of_modelOf hmodel hform hservice hnumber (by decide)
  obtain rfl := Option.some.inj (hnumberElement.symm.trans hoperation)
  obtain ⟨operation', hoperation', hsendForm⟩ :=
    hasLocalForm_of_modelOf hmodel hform hservice hsend (by decide)
  obtain rfl := Option.some.inj (hsendElement.symm.trans hoperation')
  exact ⟨hmodel, hform, (hnumberForm _ _ "urn:t" "Order" rfl rfl).2.2,
    (hsendForm _ _ "urn:t" "Order" rfl rfl).2.2⟩

/-- The names of the children of the body elements of an envelope. -/
def localElementNames (envelope : Element) : List (List QName) :=
  envelope.children.flatMap fun body => body.children.map fun payload =>
    payload.children.map fun e => ⟨e.namespaceName, e.localName⟩

/-- No schema says that local elements are qualified, and the number of an order is not where the
operation is wrapped, but it is where the operation is bare. -/
theorem number_qualified_in_bare_request :
    modelOf deskDocument = .ok deskModel ∧ HasElementForm deskDocument false ∧
      frontService ∈ deskModel.services ∧
      frontService.operations = [sendOperation, numberOperation] ∧
      sendOperation.style = .documentBare ∧ numberOperation.style = .documentWrapped ∧
      (operationElement? deskDocument "Front" "send").bind (fun operation =>
          (inputParts deskDocument operation).head?.bind (referredName? · "element")) =
        some ⟨some "urn:t", "Order"⟩ ∧
      (Element.ofText (encode numberOperation [("id", .str "A&B")])).toOption.map
        localElementNames = some [[⟨none, "id"⟩]] ∧
      (Element.ofText (encode sendOperation sendArguments)).toOption.map localElementNames =
        some [[⟨some "urn:t", "id"⟩], []] := by
  refine ⟨by decide +kernel, by decide +kernel, List.mem_cons_self, rfl, rfl, rfl,
    by decide +kernel, ?wrapped, ?bare⟩
  case wrapped =>
    rw [encode, Element.ofText_eq_ofScan]
    decide +kernel
  case bare =>
    rw [encode, Element.ofText_eq_ofScan]
    decide +kernel

end SoapClient.Wsdl
