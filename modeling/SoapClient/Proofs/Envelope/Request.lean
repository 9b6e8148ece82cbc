import SoapClient.Proofs.Envelope.Erasure

/-!
# Requests

The arguments of an operation stand inside of one body element, unless they are sent bare. Main
statement: a request is an envelope that says what the arguments say, no more and no less
(`exists_payload_of_encode`).
-/

namespace SoapClient.Envelope

open Outcome
open Xml (Element Markup Scope splitName? isNCName childValues)

/-- An operation of which all that is sent stands inside one body element. The name of this element
can stand in a tag, and a namespace that is given is not empty. -/
structure IsEnclosed (op : Operation) : Prop where
  style : op.style ≠ .documentBare
  namespaced : op.namespaceName ≠ some ""
  requestElement : isNCName op.requestElement

/-! ## The envelope -/

/-- The declarations in force in a request. -/
def requestScope (op : Operation) : Scope := Scope.outermost.enter (declarations op)

/-- Whether arguments, and the members of objects, are in the operation's namespace. -/
def isQualified (op : Operation) : Bool := op.namespaceName.isSome && op.qualifiedParameters

variable {op : Operation} {arguments : List (String × Json)}

theorem namespaceOf_isSome (ns : Option String) : namespaceOf ns.isSome ns = ns := by
  cases ns <;> rfl

theorem namespaceOf_isQualified (op : Operation) :
    namespaceOf (isQualified op) op.namespaceName =
      if op.qualifiedParameters then op.namespaceName else none := by
  rw [namespaceOf, isQualified]
  cases op.namespaceName <;> simp

theorem body_of_ne_bare (hstyle : op.style ≠ .documentBare) (arguments : List (String × Json)) :
    body op arguments =
      [.element (qualify op.namespaceName.isSome op.requestElement) []
        (ofMembers (isQualified op) arguments)] := by
  rw [body]
  cases hop : op.style with
  | documentBare => exact absurd hop hstyle
  | _ => rfl

/-- What an envelope declares can stand in its tag. -/
theorem areWrittenAttributes_declarations (op : Operation) :
    Xml.AreWrittenAttributes (declarations op) := by
  cases hns : op.namespaceName with
  | none =>
    refine ⟨?_, ?_⟩
    · simp only [declarations, hns, List.append_nil, List.forall_mem_cons]
      exact ⟨by decide, by decide, List.forall_mem_nil _⟩
    · simp only [declarations, hns, List.append_nil, List.map_cons, List.map_nil]
      decide
  | some ns =>
    refine ⟨?_, ?_⟩
    · simp only [declarations, hns, List.cons_append, List.nil_append, List.forall_mem_cons]
      exact ⟨by decide, by decide, by decide, List.forall_mem_nil _⟩
    · simp only [declarations, hns, List.cons_append, List.nil_append, List.map_cons, List.map_nil]
      decide

/-- The declarations in force, the nearest first. -/
theorem requestScope_eq (op : Operation) :
    requestScope op =
      (match op.namespaceName with
        | some ns => [(operationQualifier, ns)]
        | none => []) ++
      [("xsi", Xml.instanceNamespace), ("soap", namespaceName op.soapVersion)] ++
      Scope.outermost := by
  have hsoap : Scope.declared? "xmlns:soap" = some "soap" := by decide
  have hxsi : Scope.declared? "xmlns:xsi" = some "xsi" := by decide
  have hoperation : Scope.declared? ("xmlns:" ++ operationQualifier) = some operationQualifier := by
    decide
  rw [requestScope, declarations]
  cases op.namespaceName with
  | none => simp [Scope.enter, hsoap, hxsi]
  | some ns => simp [Scope.enter, hsoap, hxsi, hoperation]

/-- Names inside of a request mean what they are written for. -/
theorem isRequestScope_requestScope (h : op.namespaceName ≠ some "") :
    IsRequestScope (requestScope op) op.namespaceName := by
  rw [requestScope_eq]
  cases hns : op.namespaceName with
  | none => exact ⟨rfl, rfl, by simp⟩
  | some ns =>
    refine ⟨rfl, rfl, ?_⟩
    rintro n hn
    obtain rfl := Option.some.inj hn
    have hempty : ns ≠ "" := by
      rintro rfl
      exact h hns
    simp [Scope.find?, hempty]

theorem find?_soap (op : Operation) :
    (requestScope op).find? "soap" = some (namespaceName op.soapVersion) := by
  have hempty : namespaceName op.soapVersion ≠ "" := by cases op.soapVersion <;> decide
  rw [requestScope_eq]
  cases op.namespaceName with
  | none => simp [Scope.find?, hempty]
  | some ns => simp [Scope.find?, hempty, operationQualifier]

/-- A tag of the protocol itself opens an element in the namespace of envelopes. -/
theorem ofTag_soap (op : Operation) {outer : Scope} {written name : String}
    {attributes : List (String × String)} (hscope : outer.enter attributes = requestScope op)
    (hname : splitName? written = some ("soap", name))
    (hattributes : ∀ a ∈ attributes, (Scope.declared? a.1).isSome) :
    Element.ofTag outer written attributes =
      .ok ⟨some (namespaceName op.soapVersion), name, [], requestScope op, [], ""⟩ := by
  rw [Element.ofTag, hname]
  simp [hscope, filter_of_declared hattributes, find?_soap]

theorem declared?_of_mem_declarations {a : String × String} (ha : a ∈ declarations op) :
    (Scope.declared? a.1).isSome := by
  have hdeclared : ∀ name ∈ ["xmlns:soap", "xmlns:xsi", "xmlns:" ++ operationQualifier],
      (Scope.declared? name).isSome := by decide
  apply hdeclared
  rw [declarations] at ha
  cases hns : op.namespaceName with
  | none =>
    simp only [hns, List.append_nil, List.mem_cons, List.not_mem_nil, or_false] at ha
    rcases ha with rfl | rfl <;> simp
  | some ns =>
    simp only [hns, List.cons_append, List.nil_append, List.mem_cons, List.not_mem_nil,
      or_false] at ha
    rcases ha with rfl | rfl | rfl <;> simp

/-- The body of a request can be read back. -/
theorem areWritten_body (hstyle : op.style ≠ .documentBare) (hname : isNCName op.requestElement)
    (harguments : (Json.obj arguments).Everywhere Json.HasNCNames) :
    Markup.AreWritten (body op arguments) := by
  rw [body_of_ne_bare hstyle]
  exact ⟨⟨isWrittenTag_qualify hname _,
    .inr (areWritten_ofMembers (isQualified op) arguments harguments.1 harguments.2)⟩, trivial⟩

/-- The element around the body of a request. -/
theorem areWritten_bodyElement {children : List Markup} (h : Markup.AreWritten children) :
    Markup.AreWritten [.element "soap:Body" [] children] :=
  ⟨⟨⟨by decide, Xml.AreWrittenAttributes.nil⟩, .inr h⟩, trivial⟩

/-- The envelope of a request can be read back where its body can. -/
theorem isWritten_ofRequest (h : Markup.AreWritten (body op arguments)) :
    (ofRequest op arguments).IsWritten :=
  ⟨⟨by decide, areWrittenAttributes_declarations op⟩, .inr (areWritten_bodyElement h)⟩

/-- The tag of the envelope. -/
theorem ofTag_envelope (op : Operation) :
    Element.ofTag Scope.outermost "soap:Envelope" (declarations op) =
      .ok ⟨some (namespaceName op.soapVersion), "Envelope", [], requestScope op, [], ""⟩ :=
  ofTag_soap op rfl rfl fun _ ha => declared?_of_mem_declarations ha

/-- The tag of the body. -/
theorem ofTag_body (op : Operation) :
    Element.ofTag (requestScope op) "soap:Body" [] =
      .ok ⟨some (namespaceName op.soapVersion), "Body", [], requestScope op, [], ""⟩ :=
  ofTag_soap op rfl rfl (List.forall_mem_nil _)

/-- A request is read as an envelope with what its body is read as. -/
theorem ofText_encode_of_body {es : List Element} (hwritten : Markup.AreWritten (body op arguments))
    (hes : Markup.buildAll (requestScope op) (body op arguments) = .ok es) :
    Element.ofText (encode op arguments) =
      .ok ⟨some (namespaceName op.soapVersion), "Envelope", [], requestScope op,
        [⟨some (namespaceName op.soapVersion), "Body", [], requestScope op, es, ""⟩], ""⟩ := by
  -- from the inside out: the body around the elements, and the envelope around the body
  have hbody := Markup.buildAll_singleton (Markup.build_element (ofTag_body op) hes)
  have hroot := Markup.build_element (ofTag_envelope op) hbody
  exact (Element.ofText_document (isWritten_ofRequest hwritten)).trans hroot

/-- A request is read as an envelope of which the body holds one element, named as the operation
says and with the arguments as its children. -/
theorem exists_ofText_encode (hop : IsEnclosed op)
    (harguments : (Json.obj arguments).Everywhere Json.HasNCNames) :
    ∃ payload : Element,
      Element.ofText (encode op arguments) =
        .ok ⟨some (namespaceName op.soapVersion), "Envelope", [], requestScope op,
          [⟨some (namespaceName op.soapVersion), "Body", [], requestScope op, [payload], ""⟩],
          ""⟩ ∧
      payload.localName = op.requestElement ∧ payload.namespaceName = op.namespaceName ∧
      (∀ e : Element, e.Inside payload →
        e.namespaceName = if op.qualifiedParameters then op.namespaceName else none) ∧
      childValues payload.children = memberOccurrences arguments ∧
      payload.value = ofOccurrences (memberOccurrences arguments) := by
  have hscope := isRequestScope_requestScope hop.namespaced
  have hqualified : isQualified op = true → op.namespaceName.isSome = true := by
    simp only [isQualified, Bool.and_eq_true]
    exact And.left
  have hnamespaced : op.namespaceName.isSome = true → op.namespaceName.isSome = true := id
  obtain ⟨es, hes, hnamed, hvalues⟩ :=
    exists_buildAll_ofMembers hscope hqualified arguments harguments.1 harguments.2
  have hpayload := Markup.build_element
    (ofTag_qualify hscope hnamespaced hop.requestElement (List.forall_mem_nil _)) hes
  have hbody := Markup.buildAll_singleton hpayload
  rw [← body_of_ne_bare hop.style] at hbody
  have hwritten := areWritten_body hop.style hop.requestElement harguments
  refine ⟨_, ofText_encode_of_body hwritten hbody, rfl, namespaceOf_isSome op.namespaceName, ?_,
    hvalues, ?_⟩
  · intro e hinside
    rw [namespaceName_of_inside hnamed hinside, namespaceOf_isQualified]
  · rw [value_of_children, hvalues]

/-- With an empty namespace the element around the arguments has an unbound qualifier, whatever the
arguments are. -/
theorem ofText_encode_of_empty_namespace (hstyle : op.style ≠ .documentBare)
    (hns : op.namespaceName = some "") (hname : isNCName op.requestElement)
    (harguments : (Json.obj arguments).Everywhere Json.HasNCNames) :
    Element.ofText (encode op arguments) =
      .error (.unboundQualifier operationQualifier
        (operationQualifier ++ ":" ++ op.requestElement)) := by
  have hbody := areWritten_body hstyle hname harguments
  have hfind : (requestScope op).find? operationQualifier = none := by
    rw [requestScope_eq, hns]
    rfl
  have hsplit := splitName?_qualified (q := operationQualifier) (by decide) op.requestElement
  have htag : Element.ofTag (requestScope op) (qualify true op.requestElement) [] =
      .error (.unboundQualifier operationQualifier (qualify true op.requestElement)) := by
    have hqualified : qualify true op.requestElement =
        operationQualifier ++ ":" ++ op.requestElement := rfl
    have hempty : operationQualifier ≠ "" := by decide
    simp [hqualified, Element.ofTag, hsplit, Scope.enter, hfind, hempty]
  have hwrapper : Markup.buildAll (requestScope op) (body op arguments) =
      .error (.unboundQualifier operationQualifier (qualify true op.requestElement)) := by
    rw [body_of_ne_bare hstyle, hns, Markup.buildAll, Markup.build, Option.isSome_some, htag]
    rfl
  rw [encode, Element.ofText_document (isWritten_ofRequest hbody), ofRequest,
    Markup.build_of_areWritten (areWritten_bodyElement hbody), ofTag_envelope, ok_bind,
    Markup.buildAll, Markup.build_of_areWritten hbody, ofTag_body, ok_bind, hwrapper]
  rfl

/-! ## What a request says -/

/-- Whatever the arguments are, a request is read as the envelope of the operation's version of the
protocol. Its body holds one element with the name of the request's element in the operation's
namespace, and all inside of that element is in the operation's namespace where parameters are
qualified, else in none. The children are the occurrences of the arguments, one argument after the
other, and the element stands for these, gathered by name. Nested objects are gathered likewise. -/
theorem exists_payload_of_encode (hop : IsEnclosed op)
    (harguments : (Json.obj arguments).Everywhere Json.HasNCNames) :
    ∃ root body payload : Element,
      Element.ofText (encode op arguments) = .ok root ∧
      root.is (namespaceName op.soapVersion) "Envelope" ∧ root.children = [body] ∧
      body.is (namespaceName op.soapVersion) "Body" ∧ body.children = [payload] ∧
      payload.localName = op.requestElement ∧ payload.namespaceName = op.namespaceName ∧
      (∀ e : Element, e.Inside payload →
        e.namespaceName = if op.qualifiedParameters then op.namespaceName else none) ∧
      childValues payload.children = memberOccurrences arguments ∧
      payload.value = gathered (memberOccurrences arguments) ∧
      ∀ members, occurrences (.obj members) = [gathered (memberOccurrences members)] := by
  obtain ⟨payload, htext, hlocal, hns, hinside, hchildren, hvalue⟩ :=
    exists_ofText_encode hop harguments
  refine ⟨_, _, payload, htext, ?_, rfl, ?_, rfl, hlocal, hns, hinside, hchildren, ?_, ?_⟩
  · simp [Element.is]
  · simp [Element.is]
  · rw [hvalue, ofOccurrences_eq_gathered]
  · intro members
    rw [occurrences, ofOccurrences_eq_gathered]

/-- An operation with parameters in a namespace. -/
def orderOperation : Operation where
  name := "order"
  parameters := []
  returnType := .void
  soapAction := none
  style := .rpc
  soapVersion := .soap11
  namespaceName := some "urn:orders?a=1&b=\"2\""
  requestElement := "order"
  qualifiedParameters := true
  resultElement := none

/-- Arguments in which one name comes twice, with nested and empty arrays and objects, with nulls
and with markup in texts. -/
def orderArguments : List (String × Json) :=
  [("item", .arr [.arr [.str " </m:item>", .bool true], .arr [], .obj []]),
    ("note", .obj [("b", .null), ("a", .arr []), ("c", .str "&amp;"),
      ("b", .whole ⟨-7, by decide, by decide⟩)]),
    ("item", .null), ("none", .arr [])]

/-- These arguments are told by their request. -/
theorem exists_payload_of_encode_order :
    ∃ root body payload : Element,
      Element.ofText (encode orderOperation orderArguments) = .ok root ∧
      root.is (namespaceName .soap11) "Envelope" ∧ root.children = [body] ∧
      body.is (namespaceName .soap11) "Body" ∧ body.children = [payload] ∧
      payload.localName = "order" ∧ payload.namespaceName = orderOperation.namespaceName ∧
      (∀ e : Element, e.Inside payload → e.namespaceName = orderOperation.namespaceName) ∧
      payload.value = .obj
        [("item", .arr [.str " </m:item>", .str "true", .str "", .null]),
          ("note", .obj [("b", .arr [.null, .str "-7"]), ("c", .str "&amp;")])] := by
  have hop : IsEnclosed orderOperation := ⟨by decide, by decide, by decide⟩
  have hnames : (Json.obj orderArguments).Everywhere Json.HasNCNames := by
    have hkeys : isNCName "item" ∧ isNCName "note" ∧ isNCName "none" ∧ isNCName "a" ∧
        isNCName "b" ∧ isNCName "c" := by decide
    simp [orderArguments, Json.Everywhere, Json.EverywhereInMembers, Json.EverywhereInItems,
      Json.HasNCNames, hkeys]
  obtain ⟨root, body, payload, htext, hroot, hbodies, hbody, hpayloads, hlocal, hns, hinside, -,
    hvalue, -⟩ := exists_payload_of_encode hop hnames
  refine ⟨root, body, payload, htext, hroot, hbodies, hbody, hpayloads, hlocal, hns, hinside, ?_⟩
  rw [hvalue]
  rfl

end SoapClient.Envelope
