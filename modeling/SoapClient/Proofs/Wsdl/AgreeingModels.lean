import SoapClient.Proofs.Wsdl.Agreement
import SoapClient.Proofs.Wsdl.Interpretation

/-!
# Models of descriptions that say the same

Services are bound alike where descriptions agree (`bindServices_agree`). Main statement: the models
of descriptions that say the same, but for foreign elements, are the same, and where there is none
of the one there is none of the other (`modelOf_eq_ok_iff`).
-/

namespace SoapClient.Wsdl

open Relator
open Xml (Element QName Resembles)
open Schema

variable {ρ : List Nat → List Nat → Prop}

/-! ## Operations -/

section

variable {c c' : Components}
  (hresolve : ∀ target, StepsAgree ρ (resolve c target) (resolve c' target))
include hresolve

theorem partType_agree (p : Part) : StepsAgree ρ (partType c p) (partType c' p) := by
  rw [partType, partType]
  cases p.element with
  | some element => exact hresolve _
  | none =>
    cases p.type with
    | some type => exact hresolve _
    | none => exact .throw _ _

theorem partParameters_agree (parts : List Part) :
    StepsAgree ρ (partParameters c parts) (partParameters c' parts) := by
  induction parts with
  | nil => exact .pure _
  | cons p rest ih =>
    rw [partParameters, partParameters]
    exact (partType_agree hresolve p).bind fun _ => ih.map _

theorem firstPartType_agree (parts : Option (List Part)) :
    StepsAgree ρ (firstPartType c parts) (firstPartType c' parts) := by
  rw [firstPartType, firstPartType]
  cases parts.bind List.head? with
  | some p => exact partType_agree hresolve p
  | none => exact .pure _

omit hresolve in
theorem fieldsOfType_agree (t : TypeRef) : StepsAgree ρ (fieldsOfType t) (fieldsOfType t) := by
  cases t with
  | complex name => exact (fieldsOf_agree name).map _
  | primitive kind => exact .pure _
  | array item => exact .pure _
  | void => exact .pure _

theorem rpcShape_agree (name : String) (input : List Part) (output : Option (List Part)) :
    StepsAgree ρ (rpcShape c name input output) (rpcShape c' name input output) :=
  (partParameters_agree hresolve input).bind fun _ =>
    (firstPartType_agree hresolve output).map _

theorem bareShape_agree (name : String) (input : List Part) (output : Option (List Part)) :
    StepsAgree ρ (bareShape c name input output) (bareShape c' name input output) :=
  (partParameters_agree hresolve input).bind fun _ =>
    (firstPartType_agree hresolve output).map _

theorem wrappedResult_agree (output : Option (List Part)) :
    StepsAgree ρ (wrappedResult c output) (wrappedResult c' output) := by
  rw [wrappedResult, wrappedResult]
  cases output.bind wrapper? with
  | some response =>
    refine (hresolve _).bind fun type => (fieldsOfType_agree type).bind fun found => ?_
    rcases found with _ | _ | ⟨_, _ | _⟩
    · exact .pure _
    · exact .pure _
    · exact .pure _
    · exact .pure _
  | none => exact (firstPartType_agree hresolve output).map _

end

section

variable {c c' : Components} (hρ : BiUnique ρ) (hc : c.Agree ρ c')
include hρ hc

theorem wrappedShape_agree (element : QName) (parameters : List Parameter)
    (output : Option (List Part)) :
    StepsAgree ρ (wrappedShape c element parameters output)
      (wrappedShape c' element parameters output) := by
  have hqualified : (Table.find? element c.elements).any (·.isQualified) =
      (Table.find? element c'.elements).any (·.isQualified) := by
    have hfind := hc.elements.find? biUnique_eq (rfl : element = element)
    generalize Table.find? element c.elements = decl at hfind
    generalize Table.find? element c'.elements = decl' at hfind
    cases hfind with
    | none => rfl
    | some hdecl => exact hdecl.isQualified
  rw [wrappedShape, wrappedShape, hqualified]
  exact (wrappedResult_agree (resolve_agree hρ hc) output).map _

theorem documentShape_agree (name : String) (input : List Part) (output : Option (List Part)) :
    StepsAgree ρ (documentShape c name input output) (documentShape c' name input output) := by
  have hresolve := resolve_agree hρ hc
  rw [documentShape, documentShape]
  cases (wrapper? input).filter (·.localName = name) with
  | none => exact bareShape_agree hresolve name input output
  | some element =>
    refine (hresolve _).bind fun type => (fieldsOfType_agree type).bind fun found => ?_
    cases found with
    | some parameters => exact wrappedShape_agree hρ hc element parameters output
    | none => exact bareShape_agree hresolve name input output

end

/-- Two bindings agree, with what they refer to. -/
structure Bound.Agree (ρ : List Nat → List Nat → Prop) (b b' : Bound) : Prop where
  paths : BiUnique ρ
  definitions : b.definitions.Agree b'.definitions
  components : b.components.Agree ρ b'.components
  soap : b.soap = b'.soap

variable {b b' : Bound}

/-- The parts of a message are looked up alike. -/
theorem parts_agree (hb : b.Agree ρ b') (direction : String)
    {target target' : Option Reference} (h : Option.Rel Reference.Agree target target')
    {α : Type} {f f' : List Part → Resolve α} (hf : ∀ parts, StepsAgree ρ (f parts) (f' parts)) :
    StepsAgree ρ (Schema.lift (b.definitions.message direction target) >>= f)
      (Schema.lift (b'.definitions.message direction target') >>= f') := by
  refine .lift_bind (message_agree hb.definitions direction h) fun parts parts' hparts => ?_
  obtain rfl := hparts
  exact hf parts

theorem readShape_agree (hb : b.Agree ρ b') (name style : String) {decl decl' : OperationDecl}
    (hdecl : decl.Agree decl') :
    StepsAgree ρ (readShape b name style decl) (readShape b' name style decl') := by
  have hshape : ∀ input output, StepsAgree ρ
      (if style = "rpc" then rpcShape b.components name input output
        else documentShape b.components name input output)
      (if style = "rpc" then rpcShape b'.components name input output
        else documentShape b'.components name input output) := by
    intro input output
    split
    · exact rpcShape_agree (resolve_agree hb.paths hb.components) name input output
    · exact documentShape_agree hb.paths hb.components name input output
  obtain ⟨opName, input, output⟩ := decl
  obtain ⟨opName', input', output'⟩ := decl'
  obtain ⟨-, hinput, houtput⟩ := hdecl
  rw [readShape, readShape]
  cases hinput with
  | some hinput =>
    refine parts_agree hb "input" hinput fun input => ?_
    cases houtput with
    | some houtput => exact parts_agree hb "output" houtput fun output => hshape input (some output)
    | none => exact hshape input none
  | none =>
    cases houtput with
    | some houtput => exact parts_agree hb "output" houtput fun output => hshape [] (some output)
    | none => exact hshape [] none

theorem bindOperation_agree (hb : b.Agree ρ b') (name : String) {decl decl' : OperationDecl}
    (hdecl : decl.Agree decl') :
    StepsAgree ρ (bindOperation b name decl) (bindOperation b' name decl') := by
  rw [bindOperation, bindOperation, ← hb.soap, ← hb.definitions.targetNamespace]
  refine (readShape_agree hb name _ hdecl).bind fun shape => ?_
  dsimp only
  cases firstRepeated? [] (shape.parameters.map (·.name)) with
  | some parameter => exact .throw _ _
  | none => exact .pure _

theorem bindOperations_agree (hb : b.Agree ρ b') (earlier : List String)
    {decls decls' : List OperationDecl} (h : List.Forall₂ OperationDecl.Agree decls decls') :
    StepsAgree ρ (bindOperations b earlier decls) (bindOperations b' earlier decls') := by
  induction h generalizing earlier with
  | nil => exact .pure _
  | @cons decl decl' _ _ hdecl _ ih =>
    rw [bindOperations, bindOperations, ← hdecl.name]
    refine .lift_bind (required_agree _ _ decl.name) fun name name' hname => ?_
    obtain rfl := hname
    by_cases hrepeated : name ∈ earlier
    · simp only [if_pos hrepeated]
      exact .throw _ _
    · simp only [if_neg hrepeated]
      exact (bindOperation_agree hb name hdecl).bind fun _ => (ih _).map _

/-! ## Services -/

/-- Two ports that are bound to the protocol agree. -/
structure SoapPort.Agree (port port' : SoapPort) : Prop where
  binding : port.binding.Agree port'.binding
  soap : port.soap = port'.soap
  endpoint : port.endpoint = port'.endpoint

variable {d d' : Definitions}

theorem soapPorts_agree (hd : d.Agree d') {ports ports' : List PortDecl}
    (h : List.Forall₂ PortDecl.Agree ports ports') :
    OutcomesAgree (List.Forall₂ SoapPort.Agree) (soapPorts d ports) (soapPorts d' ports') := by
  induction h with
  | nil => exact .ok .nil
  | cons hport _ ih =>
    rw [soapPorts, soapPorts, ← hport.address]
    refine (binding_agree hd hport).bind fun binding binding' hbinding => ?_
    refine ih.bind fun others others' hothers => ?_
    rw [← hbinding.soap]
    cases binding.soap with
    | some soap => exact .ok (.cons ⟨hbinding, rfl, rfl⟩ hothers)
    | none => exact .ok hothers

theorem rel_selectPort {ports ports' : List SoapPort}
    (h : List.Forall₂ SoapPort.Agree ports ports') :
    Option.Rel SoapPort.Agree (selectPort ports) (selectPort ports') := by
  have hfirst : Option.Rel SoapPort.Agree (ports.find? (·.soap.version = .soap11))
      (ports'.find? (·.soap.version = .soap11)) := by
    induction h with
    | nil => exact .none
    | cons hport _ ih =>
      rw [List.find?_cons, List.find?_cons, hport.soap]
      split
      · exact .some hport
      · exact ih
  have hhead := Xml.rel_head? h
  unfold selectPort
  generalize ports.find? _ = found at hfirst
  generalize ports'.find? _ = found' at hfirst
  cases hfirst with
  | some hport => exact .some hport
  | none => exact hhead

variable {c c' : Components}

theorem bindService_agree (hρ : BiUnique ρ) (hd : d.Agree d') (hc : c.Agree ρ c') (name : String)
    {decl decl' : ServiceDecl} (h : decl.Agree decl') :
    StepsAgree ρ (bindService d c name decl) (bindService d' c' name decl') := by
  rw [bindService, bindService]
  refine .lift_bind (soapPorts_agree hd h.ports) fun ports ports' hports => ?_
  have hport := rel_selectPort hports
  generalize selectPort ports = port at hport
  generalize selectPort ports' = port' at hport
  cases hport with
  | none => exact .pure _
  | @some port port' hport =>
    refine .lift_bind (portType_agree hd hport.binding) fun declared declared' hdeclared => ?_
    have hb : Bound.Agree ρ ⟨d, c, port.soap⟩ ⟨d', c', port'.soap⟩ := ⟨hρ, hd, hc, hport.soap⟩
    rw [← hport.endpoint]
    exact (bindOperations_agree hb [] hdeclared).map _

theorem bindServices_agree (hρ : BiUnique ρ) (hd : d.Agree d') (hc : c.Agree ρ c')
    (earlier : List String) {decls decls' : List ServiceDecl}
    (h : List.Forall₂ ServiceDecl.Agree decls decls') :
    StepsAgree ρ (bindServices d c earlier decls) (bindServices d' c' earlier decls') := by
  induction h generalizing earlier with
  | nil => exact .pure _
  | @cons decl decl' _ _ hdecl _ ih =>
    rw [bindServices, bindServices, ← hdecl.name]
    refine .lift_bind (required_agree _ _ decl.name) fun name name' hname => ?_
    obtain rfl := hname
    by_cases hrepeated : name ∈ earlier
    · simp only [if_pos hrepeated]
      exact .throw _ _
    · simp only [if_neg hrepeated]
      exact (bindService_agree hρ hd hc name hdecl).bind fun _ => (ih _).map _

/-! ## Models -/

theorem model_agree (hρ : BiUnique ρ) {d d' : Description} (h : d.Agree ρ d') :
    OutcomesAgree Eq d.model d'.model := by
  rw [model_eq, model_eq]
  refine (ofDescription_agree h).bind fun definitions definitions' hdefinitions => ?_
  refine (ofSchemas_agree h.schemas).bind fun components components' hcomponents => ?_
  have hinterpret : StepsAgree ρ (interpret definitions components d.services)
      (interpret definitions' components' d'.services) :=
    (resolveAll_agree hρ hcomponents).bind fun _ =>
      bindServices_agree hρ hdefinitions hcomponents [] h.services
  refine (hinterpret _ _ .start).bind fun r r' hr => ?_
  obtain ⟨services, s⟩ := r
  obtain ⟨services', s'⟩ := r'
  obtain ⟨rfl, hs⟩ := hr
  have htypes : s.types = s'.types := hs.types
  dsimp only
  rw [h.targetNamespace, htypes]
  exact .ok rfl

/-- Descriptions that say the same, but for foreign elements, have the same model, or none of them
has one. -/
theorem modelOf_eq_ok_iff {root root' : Element} (h : Resembles extended root root')
    (m : ServiceModel) : modelOf root = .ok m ↔ modelOf root' = .ok m := by
  obtain ⟨ρ, hρ, hdescription⟩ := agree_readDescription h
  have hmodel : OutcomesAgree Eq (modelOf root) (modelOf root') :=
    hdescription.bind fun _ _ => model_agree hρ
  exact hmodel.eq_ok_iff

end SoapClient.Wsdl
