import SoapClient.Proofs.Schema.Derivation
import SoapClient.Proofs.Wsdl.Interpretation

/-!
# Types that are derived from themselves

Main statement: a document is not supported where a chain of bases starts at a structured type and
comes back to a type on it, unless the loop takes complex content as well as a restriction of a
simple type (`modelOf_of_loop`). Such a loop goes unnoticed where it is entered by its complex
content (`modelOf_of_mixed_loop`): only structured types are followed before fields are inherited,
and a type counts as resolved before its base is.
-/

namespace SoapClient.Wsdl

open Xml (Element QName)
open Schema

variable {root : Element}

/-- A document of which a structured type leads to a loop of bases has no model, for a fault of the
document, where the loop does without complex content or without restrictions. -/
theorem modelOf_of_loop
    (hloop : ∀ c, Components.ofSchemas (readSchemas root) = .ok c → ∃ start ∈ c.typeNames, ∃ x,
      Relation.ReflTransGen c.Derives (.structured start) x ∧
      (c.LoopsWithout .complexContent x ∨ c.LoopsWithout .restriction x)) :
    ∃ cause : DescriptionError, cause.isInternal = false ∧ modelOf root = .error cause ∧
      ∀ bytes, Element.ofBytes bytes = .ok root →
        ServiceModel.parse bytes = .error (.unsupported cause) := by
  cases hmodel : modelOf root with
  | ok m =>
    obtain ⟨I⟩ := exists_interpretation hmodel
    obtain ⟨start, -, x, hx, hloops⟩ := hloop I.components I.gathered
    -- the types were resolved before the services were bound
    have hresolved := I.resolved
    rw [interpret_eq, Outcome.bind_eq_ok_iff] at hresolved
    obtain ⟨⟨⟨⟩, s⟩, htypes, -⟩ := hresolved
    obtain ⟨hcomplex, hrestriction⟩ := not_loops_of_resolveAll I.consistent htypes hx
    exact absurd hloops (not_or.mpr ⟨hcomplex, hrestriction⟩)
  | error cause =>
    refine ⟨cause, isAnswer_modelOf root cause hmodel, rfl, fun bytes hbytes => ?_⟩
    rw [ServiceModel.parse, hbytes, Outcome.mapError_ok, Outcome.ok_bind, hmodel]
    rfl

/-! ## Two loops -/

/-- The name of a structured type. -/
def orderName : QName := ⟨some "urn:t", "Order"⟩

/-- The name of a simple type. -/
def codeName : QName := ⟨some "urn:t", "Code"⟩

/-- A document with the structured type `Order`, which is derived from the simple type `Code` by
content of a kind, while `Code` is a restriction of `Order`. -/
def loopDocument (content : String) : Element :=
  smallDocument
    [xsd "complexType" [("name", "Order")]
      [xsd content [] [xsd "extension" [("base", "t:Code")] []]],
     xsd "simpleType" [("name", "Code")] [xsd "restriction" [("base", "t:Order")] []]] []

/-- What such a document declares. -/
def loopComponents (order : ComplexDecl) : Components where
  elements := []
  complexTypes := [(orderName, order)]
  simpleTypes := [(codeName, .restriction (some (.to orderName)) none)]

/-- `Code` is derived from `Order`. -/
theorem derivesBy_restriction (order : ComplexDecl) :
    (loopComponents order).DerivesBy .restriction (.simple codeName) (.structured orderName) :=
  .restriction rfl rfl (.other (by decide) rfl (.structured ⟨by decide, rfl⟩))

/-- The name of `Code` means the simple type. -/
theorem means_codeName (order : ComplexDecl) :
    (loopComponents order).Means codeName (.simple codeName) :=
  .simple (by decide) rfl rfl

/-- With simple content the loop is found. -/
theorem modelOf_of_loop_simpleContent :
    ∃ cause : DescriptionError,
      cause.isInternal = false ∧ modelOf (loopDocument "simpleContent") = .error cause := by
  have hcomponents : Components.ofSchemas (readSchemas (loopDocument "simpleContent")) =
      .ok (loopComponents (.mk (some (some (.to codeName))) [])) := rfl
  have hloop : (loopComponents (.mk (some (some (.to codeName))) [])).LoopsWithout .complexContent
      (.structured orderName) :=
    .tail (.single ⟨.simpleContent, by decide, .simpleContent ⟨by decide, rfl⟩ rfl
      (means_codeName _)⟩) ⟨.restriction, by decide, derivesBy_restriction _⟩
  obtain ⟨cause, hcause, hmodel, -⟩ := modelOf_of_loop fun c hc => by
    obtain rfl := Except.ok.inj (hcomponents.symm.trans hc)
    exact ⟨orderName, List.mem_singleton.mpr rfl, _, .refl, .inl hloop⟩
  exact ⟨cause, hcause, hmodel⟩

/-- With complex content the document has a model, although `Order` is derived from itself. -/
theorem modelOf_of_mixed_loop :
    ∃ c m, Components.ofSchemas (readSchemas (loopDocument "complexContent")) = .ok c ∧
      orderName ∈ c.typeNames ∧
      Relation.TransGen c.Derives (.structured orderName) (.structured orderName) ∧
      modelOf (loopDocument "complexContent") = .ok m := by
  refine ⟨loopComponents (.mk none [.derived [(some (.to codeName), [])]]),
    ⟨some "urn:t", [], [⟨"Order", []⟩]⟩, rfl, List.mem_singleton.mpr rfl, ?_, by decide +kernel⟩
  exact .tail (.single ⟨.complexContent, .complexContent ⟨by decide, rfl⟩ rfl (means_codeName _)⟩)
    ⟨.restriction, derivesBy_restriction _⟩

end SoapClient.Wsdl
