import SoapClient.Envelope.Decode
import SoapClient.Proofs.Envelope.Request
import SoapClient.Proofs.Value.ReadBack

/-!
# Requests that are read as responses

A request has the form of a response. Main statement: a value that is sent as the result is the
result that a caller gets (`exists_coerce_decode_encode`).
-/

namespace SoapClient.Envelope

open Outcome
open Xml (Element Scope isNCName ofGroup childValues)

/-- An operation of which all that is sent stands inside one body element. The name of this element
can stand in a tag, and the element is not taken for a fault. -/
structure IsWrapped (op : Operation) : Prop where
  style : op.style ≠ .documentBare
  namespaced : op.namespaceName ≠ some ""
  requestElement : isNCName op.requestElement
  noFault : ¬ (op.requestElement = "Fault" ∧ op.namespaceName = some (namespaceName op.soapVersion))

variable {op : Operation}

/-- All that is sent for such an operation stands inside of one body element. -/
theorem IsWrapped.isEnclosed (h : IsWrapped op) : IsEnclosed op :=
  ⟨h.style, h.namespaced, h.requestElement⟩

/-! ## The result -/

/-- The result is read from the values of the children. -/
theorem resultValue_eq (response : Element) (name : String) :
    resultValue response name =
      match ((childValues response.children).filter (·.1 = name)).map (·.2) with
      | [] => .null
      | vs => ofGroup vs := by
  rw [resultValue, childValues_eq_map, List.filter_map, List.map_map]
  rfl

/-- An element all of whose children have the name of the result holds their values as the
result. -/
theorem resultValue_of_occurrences {response : Element} {name : String} {vs : List Json}
    (h : childValues response.children = vs.map (name, ·)) (hvs : vs ≠ []) :
    resultValue response name = ofGroup vs := by
  have hfilter : (vs.map (name, ·)).filter (·.1 = name) = vs.map (name, ·) := by
    rw [List.filter_eq_self]
    intro a ha
    obtain ⟨w, -, rfl⟩ := List.mem_map.mp ha
    simp
  have hvalues : (vs.map (name, ·)).map (·.2) = vs := by simp [Function.comp_def]
  obtain ⟨w, ws, rfl⟩ := List.exists_cons_of_ne_nil hvs
  rw [resultValue_eq, h, hfilter, hvalues]

/-- An envelope that is answered with success and does not report a fault holds the raw result. -/
theorem decode_of_ofText {text : String} {status : Nat} {ns : String} {scope : Scope}
    {payload : Element} (hstatus : isSuccess status) (hreturn : op.returnType ≠ .void)
    (hns : ns = namespaceName .soap11 ∨ ns = namespaceName .soap12)
    (htext : Element.ofText text = .ok ⟨some ns, "Envelope", [], scope,
      [⟨some ns, "Body", [], scope, [payload], ""⟩], ""⟩)
    (hfault : payload.is ns "Fault" = false) :
    decode text status op = .ok (payloadValue op payload) := by
  have hvoid : op.returnType.isVoid = false := by
    cases hop : op.returnType with
    | void => exact absurd hop hreturn
    | _ => rfl
  have henvelope : envelopeNamespace? ⟨some ns, "Envelope", [], scope,
      [⟨some ns, "Body", [], scope, [payload], ""⟩], ""⟩ = some ns := by
    simpa [envelopeNamespace?] using hns
  -- the payload is no fault, so it is the result, and a result is expected
  have hbody : decodeBody ns ⟨some ns, "Body", [], scope, [payload], ""⟩ text status op =
      .ok (payloadValue op payload) := by
    have hpayload : (some payload).filter (·.is ns "Fault") = none := by
      rw [Option.filter_some, hfault]
      rfl
    simp [decodeBody, hpayload, hstatus, hvoid]
  rw [decode, htext]
  simp only [henvelope, Element.child?, Element.is, List.find?_cons, decide_true, and_self]
  exact hbody

/-- What is sent as the result is read as the occurrences of its value. -/
theorem decode_encode (hop : IsWrapped op) {result : String}
    (hresult : op.resultElement = some result) (hname : isNCName result)
    (hreturn : op.returnType ≠ .void) {status : Nat} (hstatus : isSuccess status)
    {v : Json} (hv : v.Everywhere Json.HasNCNames) (hoccurs : occurrences v ≠ []) :
    decode (encode op [(result, v)]) status op = .ok (ofGroup (occurrences v)) := by
  have harguments : (Json.obj [(result, v)]).Everywhere Json.HasNCNames := by
    rw [Json.everywhere_obj]
    exact ⟨by simpa [Json.HasNCNames] using hname, by simpa using hv⟩
  obtain ⟨payload, htext, hlocal, hns, -, hchildren, -⟩ :=
    exists_ofText_encode hop.isEnclosed harguments
  have hfault : payload.is (namespaceName op.soapVersion) "Fault" = false := by
    have hno := hop.noFault
    simpa [Element.is, hlocal, hns] using hno
  have hversion : namespaceName op.soapVersion = namespaceName .soap11 ∨
      namespaceName op.soapVersion = namespaceName .soap12 := by
    cases op.soapVersion with
    | soap11 => exact .inl rfl
    | soap12 => exact .inr rfl
  -- all children of the payload have the name of the result, so none of them is left out
  have hmembers : memberOccurrences [(result, v)] = (occurrences v).map (result, ·) := by
    rw [memberOccurrences, memberOccurrences, List.append_nil]
  have hread := resultValue_of_occurrences (hchildren.trans hmembers) hoccurs
  have hvalue : payloadValue op payload = ofGroup (occurrences v) := by
    have hstyle := hop.style
    rw [payloadValue, hresult]
    cases hs : op.style with
    | documentBare => exact absurd hs hstyle
    | _ => exact hread
  rw [decode_of_ofText hstatus hreturn hversion htext hfault, hvalue]

/-- A value that is sent as the result of an operation comes back as it was: the raw result that is
read from the request, taken as one of the declared type, is the value. This holds of types where
the text of a value tells the value, and of values whose occurrences tell the arrays. -/
theorem exists_coerce_decode_encode (m : ServiceModel) (hop : IsWrapped op) {result : String}
    (hresult : op.resultElement = some result) (hname : isNCName result)
    (hlegible : m.IsLegible op.returnType) {v : Json}
    (hdistinct : v.Everywhere Json.HasDistinctNames) {path : Path}
    (hcheck : check m v op.returnType true path = .ok ()) (htold : v.Everywhere Json.IsTold)
    {status : Nat} (hstatus : 200 ≤ status ∧ status ≤ 299) :
    ∃ raw, decode (encode op [(result, v)]) status op = .ok raw ∧
      coerce m raw op.returnType = .ok v := by
  have hreturn : op.returnType ≠ .void := by
    intro hvoid
    have hself := hlegible.self
    rw [hvoid] at hself
    exact absurd hself (by decide)
  have hsuccess : isSuccess status = true := by
    simp only [isSuccess, Bool.and_eq_true, decide_eq_true_eq]
    omega
  have hnames := hasNCNames_of_check hlegible hdistinct hcheck
  have hoccurs := occurrences_ne_nil htold
  exact ⟨_, decode_encode hop hresult hname hreturn hsuccess hnames hoccurs,
    coerceAt_ofGroup_occurrences hlegible hcheck hdistinct htold _⟩

/-- A model with a type that refers to itself. -/
def chainModel : ServiceModel where
  targetNamespace := none
  services := []
  types := [⟨"Link", [⟨"label", .primitive .string, false⟩,
    ⟨"weights", .array (.primitive .long), true⟩, ⟨"next", .complex "Link", true⟩]⟩]

/-- An operation that returns a value of this type. -/
def chainOperation : Operation where
  name := "first"
  parameters := []
  returnType := .complex "Link"
  soapAction := none
  style := .documentWrapped
  soapVersion := .soap12
  namespaceName := some "urn:chains"
  requestElement := "first"
  qualifiedParameters := true
  resultElement := some "link"

/-- A chain of two links, with blanks and markup in a text. -/
def chain : Json :=
  .obj [("label", .str " <a & \"b\">\n"),
    ("next", .obj [("weights", .arr [.whole ⟨(7 : Nat), by decide, by decide⟩,
      .whole ⟨-1, by decide, by decide⟩]), ("label", .str ""), ("next", .null)])]

theorem isLegible_chain : chainModel.IsLegible (.complex "Link") := by
  have hlabel : Xml.isNCName "label" ∧ Xml.isNCName "weights" ∧ Xml.isNCName "next" := by decide
  apply ServiceModel.isLegible_of_mem [.complex "Link", .primitive .string, .primitive .long,
    .array (.primitive .long)]
  · simp [TypeRef.isLegible, PrimitiveKind.isLegible, ServiceModel.complexType?, chainModel, hlabel]
  · exact List.mem_cons_self

/-- The chain comes back as it was. -/
theorem exists_coerce_decode_encode_chain :
    ∃ raw, decode (encode chainOperation [("link", chain)]) 200 chainOperation = .ok raw ∧
      coerce chainModel raw chainOperation.returnType = .ok chain := by
  have hop : IsWrapped chainOperation := ⟨by decide, by decide, by decide, by decide⟩
  have hdistinct : chain.Everywhere Json.HasDistinctNames := by
    simp [chain, Json.Everywhere, Json.EverywhereInMembers, Json.EverywhereInItems,
      Json.HasDistinctNames]
  have htold : chain.Everywhere Json.IsTold := by
    simp [chain, Json.Everywhere, Json.EverywhereInMembers, Json.EverywhereInItems, Json.IsTold]
  have hcheck : check chainModel chain chainOperation.returnType true (.ofStart "") = .ok () := rfl
  exact exists_coerce_decode_encode chainModel hop rfl (by decide) isLegible_chain hdistinct hcheck
    htold (by decide)

end SoapClient.Envelope
