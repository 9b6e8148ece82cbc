import SoapClient.Envelope.Decode
import SoapClient.Proofs.Xml.Tree

/-!
# Outcomes of responses

What a response comes to when it reports a fault or when its status is one of failure. Main
statement: a fault is reported whatever the status is, and a status of failure is reported with the
text of the response wherever there is no fault, only not for an envelope without a body element
(`decode_outcomes`, `decode_ne_status_noBody`).
-/

namespace SoapClient.Envelope

open Outcome
open Xml (Element Markup)

variable {root fault body : Element} {ns text : String} {status : Nat} {op : Operation}

/-- An element is an envelope of one of the two versions, with the namespace of this version. -/
def IsEnvelope (ns : String) (root : Element) : Prop :=
  root.is ns "Envelope" ∧ ∃ version : SoapVersion, ns = namespaceName version

/-- An envelope reports a fault: its first body element starts with the fault element of the
version of the envelope. -/
def Reports (root fault : Element) : Prop :=
  ∃ ns body, IsEnvelope ns root ∧ root.child? ns "Body" = some body ∧
    body.children.head? = some fault ∧ fault.is ns "Fault"

/-- An envelope has no body element. -/
def LacksBody (root : Element) : Prop := ∃ ns, IsEnvelope ns root ∧ root.child? ns "Body" = none

/-- The namespace of an envelope is found exactly where there is an envelope. -/
theorem envelopeNamespace?_eq_some_iff :
    envelopeNamespace? root = some ns ↔ IsEnvelope ns root := by
  have hversion : (∃ version : SoapVersion, ns = namespaceName version) ↔
      ns = namespaceName .soap11 ∨ ns = namespaceName .soap12 :=
    ⟨fun ⟨version, h⟩ => by cases version <;> simp [h],
      fun h => h.elim (fun h => ⟨.soap11, h⟩) (fun h => ⟨.soap12, h⟩)⟩
  rw [envelopeNamespace?, IsEnvelope, hversion, Element.is]
  by_cases hname : root.localName = "Envelope"
  · simp [hname, Option.filter_eq_some_iff]
  · simp [hname]

theorem isSuccess_eq_false_iff : isSuccess status = false ↔ ¬ (200 ≤ status ∧ status < 300) := by
  simp [isSuccess]

/-! ## One way out after the other -/

/-- What is not XML says nothing about a failure beyond its status. -/
theorem decode_of_malformed {cause : Xml.DocumentError} (h : Element.ofText text = .error cause)
    (hstatus : isSuccess status = false) :
    decode text status op = .error (.status status text) := by
  simp [decode, h, hstatus]

/-- The same holds for a root that is no envelope. -/
theorem decode_of_not_envelope (h : Element.ofText text = .ok root)
    (hroot : ∀ ns, ¬ IsEnvelope ns root) (hstatus : isSuccess status = false) :
    decode text status op = .error (.status status text) := by
  have hnone : envelopeNamespace? root = none := by
    rw [Option.eq_none_iff_forall_ne_some]
    exact fun ns hns => hroot ns (envelopeNamespace?_eq_some_iff.mp hns)
  simp [decode, h, hnone, hstatus]

/-- An envelope without a body element is a malformed response, whatever its status is. -/
theorem decode_of_no_body (h : Element.ofText text = .ok root) (hroot : IsEnvelope ns root)
    (hbody : root.child? ns "Body" = none) :
    decode text status op = .error (.invalidResponse .noBody) := by
  simp [decode, h, envelopeNamespace?_eq_some_iff.mpr hroot, hbody]

/-- In an envelope with a body element, this one decides. -/
theorem decode_of_body (h : Element.ofText text = .ok root) (hroot : IsEnvelope ns root)
    (hbody : root.child? ns "Body" = some body) :
    decode text status op = decodeBody ns body text status op := by
  simp [decode, h, envelopeNamespace?_eq_some_iff.mpr hroot, hbody]

/-- A fault at the start of a body is reported before anything else is looked at. -/
theorem decodeBody_of_fault (hfault : body.children.head? = some fault)
    (his : fault.is ns "Fault") :
    decodeBody ns body text status op = .error (faultError fault) := by
  have hsome : body.children.head?.filter (·.is ns "Fault") = some fault := by
    rw [hfault, Option.filter_some, if_pos his]
  rw [decodeBody, hsome]

/-- Without a fault a status of failure is reported before the payload is looked at. -/
theorem decodeBody_of_no_fault
    (hfault : ∀ fault, body.children.head? = some fault → ¬ fault.is ns "Fault")
    (hstatus : isSuccess status = false) :
    decodeBody ns body text status op = .error (.status status text) := by
  have hnone : body.children.head?.filter (·.is ns "Fault") = none := by
    rw [Option.filter_eq_none_iff]
    exact hfault
  rw [decodeBody, hnone]
  simp [hstatus]

/-! ## All of them -/

/-- A fault is reported with its texts for every status and every operation. A status of failure is
reported with the text of the response where this reports no fault and is no envelope without a
body element. Such an envelope is reported as a malformed response, with a status of failure too. -/
theorem decode_outcomes (text : String) (status : Nat) (op : Operation) :
    (∀ root fault, Element.ofText text = .ok root → Reports root fault →
      decode text status op = .error (.fault
        (textAt [["faultcode"], ["Code", "Value"]] fault)
        (textAt [["faultstring"], ["Reason", "Text"]] fault))) ∧
    (¬ (200 ≤ status ∧ status < 300) →
      (∀ root, Element.ofText text = .ok root →
        (∀ fault, ¬ Reports root fault) ∧ ¬ LacksBody root) →
      decode text status op = .error (.status status text)) ∧
    (∀ root, Element.ofText text = .ok root → LacksBody root →
      decode text status op = .error (.invalidResponse .noBody)) := by
  refine ⟨?fault, ?status, ?noBody⟩
  case fault =>
    rintro root fault hroot ⟨ns, body, henvelope, hbody, hhead, hfault⟩
    rw [decode_of_body hroot henvelope hbody, decodeBody_of_fault hhead hfault, faultError]
  case noBody =>
    rintro root hroot ⟨ns, henvelope, hbody⟩
    exact decode_of_no_body hroot henvelope hbody
  case status =>
    intro hfailure hother
    have hstatus : isSuccess status = false := isSuccess_eq_false_iff.mpr hfailure
    cases hroot : Element.ofText text with
    | error cause => exact decode_of_malformed hroot hstatus
    | ok root =>
      obtain ⟨hfault, hlacks⟩ := hother root hroot
      by_cases henvelope : ∃ ns, IsEnvelope ns root
      · obtain ⟨ns, henvelope⟩ := henvelope
        cases hbody : root.child? ns "Body" with
        | none => exact absurd ⟨ns, henvelope, hbody⟩ hlacks
        | some body =>
          rw [decode_of_body hroot henvelope hbody]
          exact decodeBody_of_no_fault
            (fun fault hhead his => hfault fault ⟨ns, body, henvelope, hbody, hhead, his⟩) hstatus
      · exact decode_of_not_envelope hroot (not_exists.mp henvelope) hstatus

/-! ## Three envelopes -/

/-- What is declared inside of the envelopes. -/
def envelopeScope : Xml.Scope := ("soap", namespaceName .soap11) :: Xml.Scope.outermost

/-- An element inside of the envelopes. -/
def envelopeElement (ns : Option String) (localName : String) (children : List Element)
    (content : String) : Element :=
  ⟨ns, localName, [], envelopeScope, children, content⟩

/-- An element of the protocol inside of the envelopes. -/
def protocolElement (localName : String) (children : List Element) : Element :=
  envelopeElement (some (namespaceName .soap11)) localName children ""

/-- An envelope with some content. -/
def envelopeMarkup (content : List Markup) : Markup :=
  .element "soap:Envelope" [("xmlns:soap", namespaceName .soap11)] content

/-- The content of an envelope that reports a fault. -/
def faultContent : List Markup :=
  [.element "soap:Body" []
    [.element "soap:Fault" []
      [.element "faultcode" [] [.text "soap:Server"],
       .element "faultstring" [] [.text "No rates"]]]]

/-- The fault that is reported there. -/
def faultElement : Element :=
  protocolElement "Fault"
    [envelopeElement none "faultcode" [] "soap:Server",
     envelopeElement none "faultstring" [] "No rates"]

/-- An operation whose answers are read. -/
def rateOperation : Operation where
  name := "rate"
  parameters := []
  returnType := .primitive .int
  soapAction := none
  style := .rpc
  soapVersion := .soap11
  namespaceName := none
  requestElement := "rate"
  qualifiedParameters := false
  resultElement := none

/-- Such an envelope is read as an element with the elements of its content. -/
theorem ofText_envelopeMarkup {content : List Markup} {es : List Element}
    (hwritten : Markup.AreWritten content)
    (hcontent : Markup.buildAll envelopeScope content = .ok es) :
    Element.ofText (Markup.document (envelopeMarkup content)) =
      .ok (protocolElement "Envelope" es) := by
  have htag : Element.ofTag Xml.Scope.outermost "soap:Envelope"
      [("xmlns:soap", namespaceName .soap11)] = .ok (protocolElement "Envelope" []) := rfl
  have hroot : (envelopeMarkup content).IsWritten :=
    ⟨⟨by decide, by decide, by decide⟩, .inr hwritten⟩
  exact (Element.ofText_document hroot).trans (Markup.build_element htag hcontent)

theorem areWritten_faultContent : Markup.AreWritten faultContent := by
  have htag (name : String) (h : Xml.IsWrittenName name.toList) : Xml.IsWrittenTag name [] :=
    ⟨h, .nil⟩
  have hcode : Markup.IsWritten (.element "faultcode" [] [.text "soap:Server"]) :=
    ⟨htag _ (by decide), .inl ⟨_, rfl⟩⟩
  have hreason : Markup.IsWritten (.element "faultstring" [] [.text "No rates"]) :=
    ⟨htag _ (by decide), .inl ⟨_, rfl⟩⟩
  exact ⟨⟨htag _ (by decide), .inr ⟨⟨htag _ (by decide), .inr ⟨hcode, hreason, trivial⟩⟩,
    trivial⟩⟩, trivial⟩

theorem buildAll_faultContent :
    Markup.buildAll envelopeScope faultContent = .ok [protocolElement "Body" [faultElement]] := by
  have hbody : Element.ofTag envelopeScope "soap:Body" [] = .ok (protocolElement "Body" []) := rfl
  have hfault : Element.ofTag envelopeScope "soap:Fault" [] = .ok (protocolElement "Fault" []) :=
    rfl
  have hcode : Element.ofTag envelopeScope "faultcode" [] =
      .ok (envelopeElement none "faultcode" [] "") := rfl
  have hreason : Element.ofTag envelopeScope "faultstring" [] =
      .ok (envelopeElement none "faultstring" [] "") := rfl
  have htexts : Markup.buildAll envelopeScope
      [.element "faultcode" [] [.text "soap:Server"],
       .element "faultstring" [] [.text "No rates"]] =
        .ok faultElement.children :=
    Markup.buildAll_append (Markup.buildAll_singleton (Markup.build_text hcode))
      (Markup.buildAll_singleton (Markup.build_text hreason))
  exact Markup.buildAll_singleton (Markup.build_element hbody
    (Markup.buildAll_singleton (Markup.build_element hfault htexts)))

/-- Such an envelope has the version that it is written with. -/
theorem isEnvelope_protocolElement (es : List Element) :
    IsEnvelope (namespaceName .soap11) (protocolElement "Envelope" es) := by
  refine ⟨?_, .soap11, rfl⟩
  simp [Element.is, protocolElement, envelopeElement]

/-- It has no other version. -/
theorem eq_of_isEnvelope {es : List Element} (h : IsEnvelope ns (protocolElement "Envelope" es)) :
    ns = namespaceName .soap11 := by
  have his := h.1
  simp only [Element.is, protocolElement, envelopeElement, decide_eq_true_eq] at his
  exact (Option.some.inj his.2).symm

/-- With a status of failure, a fault is reported as such, an empty body as the status, and an
envelope without a body element as a malformed response. -/
theorem decode_outcomes_envelopes :
    decode (Markup.document (envelopeMarkup faultContent)) 500 rateOperation =
        .error (.fault "soap:Server" "No rates") ∧
    decode (Markup.document (envelopeMarkup [.empty "soap:Body" []])) 500 rateOperation =
        .error (.status 500 (Markup.document (envelopeMarkup [.empty "soap:Body" []]))) ∧
    decode (Markup.document (envelopeMarkup [])) 500 rateOperation =
        .error (.invalidResponse .noBody) := by
  refine ⟨?fault, ?status, ?noBody⟩
  case fault =>
    have hroot := ofText_envelopeMarkup areWritten_faultContent buildAll_faultContent
    exact (decode_outcomes _ 500 rateOperation).1 _ faultElement hroot
      ⟨_, _, isEnvelope_protocolElement _, rfl, rfl, by decide⟩
  case status =>
    have hwritten : Markup.AreWritten [.empty "soap:Body" []] := ⟨⟨by decide, .nil⟩, trivial⟩
    have hcontent : Markup.buildAll envelopeScope [.empty "soap:Body" []] =
        .ok [protocolElement "Body" []] := rfl
    have hroot := ofText_envelopeMarkup hwritten hcontent
    refine (decode_outcomes _ 500 rateOperation).2.1 (by decide) fun root h => ?_
    obtain rfl := Except.ok.inj (hroot.symm.trans h)
    have hbody : (protocolElement "Envelope" [protocolElement "Body" []]).child?
        (namespaceName .soap11) "Body" = some (protocolElement "Body" []) := rfl
    refine ⟨?_, ?_⟩
    · rintro fault ⟨ns, body, hns, hchild, hhead, -⟩
      obtain rfl := eq_of_isEnvelope hns
      obtain rfl := Option.some.inj (hbody.symm.trans hchild)
      cases hhead
    · rintro ⟨ns, hns, hchild⟩
      obtain rfl := eq_of_isEnvelope hns
      cases hbody.symm.trans hchild
  case noBody =>
    have hroot := @ofText_envelopeMarkup [] [] trivial rfl
    exact (decode_outcomes _ 500 rateOperation).2.2 _ hroot ⟨_, isEnvelope_protocolElement _, rfl⟩

/-- An envelope without a body element reports no fault, and still its status of failure is not what
is reported. -/
theorem decode_ne_status_noBody :
    ¬ ∀ (text : String) (status : Nat) (op : Operation), ¬ (200 ≤ status ∧ status < 300) →
      (∀ root, Element.ofText text = .ok root → ∀ fault, ¬ Reports root fault) →
      decode text status op = .error (.status status text) := by
  intro hall
  have hroot := @ofText_envelopeMarkup [] [] trivial rfl
  have hnone : (protocolElement "Envelope" []).child? (namespaceName .soap11) "Body" = none := rfl
  have hmalformed : decode (Markup.document (envelopeMarkup [])) 500 rateOperation =
      .error (.invalidResponse .noBody) :=
    decode_of_no_body hroot (isEnvelope_protocolElement []) hnone
  have hreports : ∀ root, Element.ofText (Markup.document (envelopeMarkup [])) = .ok root →
      ∀ fault, ¬ Reports root fault := by
    rintro root h fault ⟨ns, body, hns, hchild, -⟩
    obtain rfl := Except.ok.inj (hroot.symm.trans h)
    obtain rfl := eq_of_isEnvelope hns
    cases hnone.symm.trans hchild
  cases hmalformed.symm.trans (hall _ 500 rateOperation (by decide) hreports)

end SoapClient.Envelope
