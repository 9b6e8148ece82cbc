import SoapClient.Proofs.Schema.AgreeingResolutions
import SoapClient.Proofs.Schema.Rereading
import SoapClient.Wsdl.Definitions

/-!
# Descriptions that agree

What is read from descriptions that say the same agrees (`agree_readDescription`), and descriptions
that agree have the same declarations under the same names, but for the texts of references that are
not bound (`ofDescription_agree`).
-/

namespace SoapClient.Wsdl

open Relator
open Xml (Element Resembles ResembleInside)
open Schema

/-- Two parts of messages agree. -/
structure PartDecl.Agree (p p' : PartDecl) : Prop where
  name : p.name = p'.name
  element : Option.Rel Reference.Agree p.element p'.element
  type : Option.Rel Reference.Agree p.type p'.type

/-- Two operations of port types agree. -/
structure OperationDecl.Agree (o o' : OperationDecl) : Prop where
  name : o.name = o'.name
  input : Option.Rel (Option.Rel Reference.Agree) o.input o'.input
  output : Option.Rel (Option.Rel Reference.Agree) o.output o'.output

/-- Two bindings agree. -/
structure BindingDecl.Agree (b b' : BindingDecl) : Prop where
  portType : Option.Rel Reference.Agree b.portType b'.portType
  soap : b.soap = b'.soap

/-- Two ports agree. -/
structure PortDecl.Agree (p p' : PortDecl) : Prop where
  binding : Option.Rel Reference.Agree p.binding p'.binding
  address : p.address = p'.address

/-- Two services agree. -/
structure ServiceDecl.Agree (s s' : ServiceDecl) : Prop where
  name : s.name = s'.name
  ports : List.Forall₂ PortDecl.Agree s.ports s'.ports

/-- Two declarations agree. -/
inductive Declaration.Agree : Declaration → Declaration → Prop
  | imported (location : Option String) : Agree (.imported location) (.imported location)
  | message (name : Option String) {parts parts' : List PartDecl} :
      List.Forall₂ PartDecl.Agree parts parts' →
      Agree (.message name parts) (.message name parts')
  | portType (name : Option String) {operations operations' : List OperationDecl} :
      List.Forall₂ OperationDecl.Agree operations operations' →
      Agree (.portType name operations) (.portType name operations')
  | binding (name : Option String) {decl decl' : BindingDecl} : decl.Agree decl' →
      Agree (.binding name decl) (.binding name decl')

/-- Two descriptions agree. -/
structure Description.Agree (ρ : List Nat → List Nat → Prop) (d d' : Description) : Prop where
  targetNamespace : d.targetNamespace = d'.targetNamespace
  declarations : List.Forall₂ Declaration.Agree d.declarations d'.declarations
  schemas : List.Forall₂ (SchemaDecl.Agree ρ) d.schemas d'.schemas
  services : List.Forall₂ ServiceDecl.Agree d.services d'.services

/-! ## Reading -/

variable {e e' : Element}

/-- What is read from each member of lists that are related is related. -/
theorem forall₂_map {α β : Type} {R : α → α → Prop} {S : β → β → Prop} {f : α → β}
    {as as' : List α} (h : List.Forall₂ R as as') (hf : ∀ a a', R a a' → S (f a) (f a')) :
    List.Forall₂ S (as.map f) (as'.map f) := by
  rw [List.forall₂_map_left_iff, List.forall₂_map_right_iff]
  exact h.imp hf

theorem agree_readPart (h : Resembles extended e e') : (readPart e).Agree (readPart e') where
  name := SaysSame.value h.tag "name" (by decide) (by decide)
  element := SaysSame.reference? h.tag (by decide)
  type := SaysSame.reference? h.tag (by decide)

theorem rel_readMessageRef (h : Resembles extended e e') (direction : String) :
    Option.Rel (Option.Rel Reference.Agree) (readMessageRef e direction)
      (readMessageRef e' direction) := by
  have hchild := rel_child? h (by decide : namespaceName ∈ understood) direction
  unfold readMessageRef
  generalize e.child? namespaceName direction = child at hchild
  generalize e'.child? namespaceName direction = child' at hchild
  cases hchild with
  | none => exact .none
  | some hchild => exact .some (SaysSame.reference? hchild.tag (by decide))

theorem agree_readOperation (h : Resembles extended e e') :
    (readOperation e).Agree (readOperation e') where
  name := SaysSame.value h.tag "name" (by decide) (by decide)
  input := rel_readMessageRef h "input"
  output := rel_readMessageRef h "output"

theorem bindingNamespace_mem_understood (version : SoapVersion) :
    bindingNamespace version ∈ understood := by
  cases version <;> decide

/-- The value of an attribute of a child is the same, where there is such a child. -/
theorem value_eq_of_rel {child child' : Option Element}
    (h : Option.Rel (Resembles extended) child child') (name : String)
    (hcolon : ':' ∉ name.toList) (hname : name ∉ referring) :
    child.bind (·.attribute? name) = child'.bind (·.attribute? name) := by
  cases h with
  | none => rfl
  | some hchild => exact SaysSame.value hchild.tag name hcolon hname

theorem readBoundOperation_eq (h : Resembles extended e e') (version : SoapVersion) :
    readBoundOperation version e = readBoundOperation version e' := by
  have hns := bindingNamespace_mem_understood version
  have hoperation := rel_child? h hns "operation"
  have hinput := rel_child? h (by decide : namespaceName ∈ understood) "input"
  have hbody : Option.Rel (Resembles extended)
      ((e.child? namespaceName "input").bind (·.child? (bindingNamespace version) "body"))
      ((e'.child? namespaceName "input").bind (·.child? (bindingNamespace version) "body")) := by
    generalize e.child? namespaceName "input" = child at hinput
    generalize e'.child? namespaceName "input" = child' at hinput
    cases hinput with
    | none => exact .none
    | some hchild => exact rel_child? hchild hns "body"
  unfold readBoundOperation
  dsimp only
  rw [SaysSame.value h.tag "name" (by decide) (by decide),
    value_eq_of_rel hoperation "soapAction" (by decide) (by decide),
    value_eq_of_rel hoperation "style" (by decide) (by decide),
    value_eq_of_rel hbody "namespace" (by decide) (by decide)]

theorem readSoapBinding_eq (h : Resembles extended e e') (version : SoapVersion) :
    readSoapBinding version e = readSoapBinding version e' := by
  have hchild := rel_child? h (bindingNamespace_mem_understood version) "binding"
  have hoperations := forall₂_childrenNamed h (by decide : namespaceName ∈ understood) "operation"
  have hread : (e.childrenNamed namespaceName "operation").map (readBoundOperation version) =
      (e'.childrenNamed namespaceName "operation").map (readBoundOperation version) :=
    List.forall₂_eq_eq_eq ▸ forall₂_map hoperations fun _ _ h => readBoundOperation_eq h version
  unfold readSoapBinding
  rw [hread]
  generalize e.child? (bindingNamespace version) "binding" = child at hchild
  generalize e'.child? (bindingNamespace version) "binding" = child' at hchild
  cases hchild with
  | none => rfl
  | some hchild =>
    rw [Option.map_some, Option.map_some,
      SaysSame.value hchild.tag "style" (by decide) (by decide)]

theorem agree_readBinding (h : Resembles extended e e') :
    (readBinding e).Agree (readBinding e') where
  portType := SaysSame.reference? h.tag (by decide)
  soap := by
    unfold readBinding
    rw [readSoapBinding_eq h, readSoapBinding_eq h]

theorem agree_readPort (h : Resembles extended e e') : (readPort e).Agree (readPort e') where
  binding := SaysSame.reference? h.tag (by decide)
  address := by
    funext version
    exact value_eq_of_rel (rel_child? h (bindingNamespace_mem_understood version) "address")
      "location" (by decide) (by decide)

theorem agree_readService (h : Resembles extended e e') :
    (readService e).Agree (readService e') where
  name := SaysSame.value h.tag "name" (by decide) (by decide)
  ports := forall₂_map (forall₂_childrenNamed h (by decide) "port") fun _ _ => agree_readPort

theorem rel_readDeclaration (h : Resembles extended e e') :
    Option.Rel Declaration.Agree (readDeclaration e) (readDeclaration e') := by
  have htag : SaysSame e e' := h.tag
  have hname := htag.value "name" (by decide) (by decide)
  have hlocation := htag.value "location" (by decide) (by decide)
  unfold readDeclaration
  rw [← htag.namespaceName, ← htag.localName, ← hname, ← hlocation]
  split
  · exact .none
  split
  · exact .some (.imported _)
  · exact .some (.message _ (forall₂_map (forall₂_childrenNamed h (by decide) "part")
      fun _ _ => agree_readPart))
  · exact .some (.portType _ (forall₂_map (forall₂_childrenNamed h (by decide) "operation")
      fun _ _ => agree_readOperation))
  · exact .some (.binding _ (agree_readBinding h))
  · exact .none

theorem forall₂_readDeclarations {parent : Element} {es es' : List Element}
    (h : ResembleInside extended parent es es') :
    List.Forall₂ Declaration.Agree (es.filterMap readDeclaration)
      (es'.filterMap readDeclaration) := by
  -- each step of the comparison takes an element of the second list
  induction es' generalizing es with
  | nil => cases h; exact .nil
  | cons e' rest' ih =>
    cases h with
    | extra hextra hrest =>
      have hnone : readDeclaration e' = none := by
        rw [readDeclaration, if_pos (hextra.1 _ (by decide))]
      rw [List.filterMap_cons_none hnone]
      exact ih hrest
    | @cons _ e _ _ _ hfirst hrest =>
      have hdecl := rel_readDeclaration hfirst
      rw [List.filterMap_cons, List.filterMap_cons]
      generalize readDeclaration e = decl at hdecl
      generalize readDeclaration e' = decl' at hdecl
      cases hdecl with
      | none => exact ih hrest
      | some hdecl => exact .cons hdecl (ih hrest)

/-- What is read from each member of lists that are related is related, and so are the indices. -/
theorem forall₂_mapIdx {α β : Type} {R : α → α → Prop} {S : β → β → Prop} {f : Nat → α → β}
    {as as' : List α} (h : List.Forall₂ R as as') (hf : ∀ i a a', R a a' → S (f i a) (f i a')) :
    List.Forall₂ S (as.mapIdx f) (as'.mapIdx f) := by
  induction h generalizing f with
  | nil => exact .nil
  | cons hfirst _ ih =>
    rw [List.mapIdx_cons, List.mapIdx_cons]
    exact .cons (hf 0 _ _ hfirst) (ih fun i => hf (i + 1))

theorem forall₂_readSchemas (h : Resembles extended e e') :
    List.Forall₂ (SchemaDecl.Agree AnyPaths) (readSchemas e) (readSchemas e') := by
  have htypes := forall₂_childrenNamed h (by decide : namespaceName ∈ understood) "types"
  have hschemas := List.rel_flatMap htypes fun _ _ hchild =>
    forall₂_childrenNamed hchild namespaceName_mem_understood "schema"
  exact forall₂_mapIdx hschemas fun i _ _ => agree_readSchema [i] [i]

/-- What is read from descriptions that say the same agrees, the paths in it being paired one to
one. -/
theorem agree_readDescription (h : Resembles extended e e') :
    ∃ ρ, BiUnique ρ ∧
      OutcomesAgree (Description.Agree ρ) (readDescription e) (readDescription e') := by
  have htag : SaysSame e e' := h.tag
  obtain ⟨ρ, hρ, hschemas⟩ := exists_agree_paths (forall₂_readSchemas h)
    (nodup_paths_readSchemas e) (nodup_paths_readSchemas e')
  refine ⟨ρ, hρ, ?_⟩
  unfold readDescription
  rw [← htag.is_eq, ← htag.localName]
  split
  · exact .ok ⟨htag.value "targetNamespace" (by decide) (by decide),
      forall₂_readDeclarations h.inside, hschemas,
      forall₂_map (forall₂_childrenNamed h (by decide) "service") fun _ _ => agree_readService⟩
  · exact .error _ _

/-! ## Following references -/

/-- Definitions agree where they have the same messages, and port types and bindings that agree. -/
structure Definitions.Agree (d d' : Definitions) : Prop where
  targetNamespace : d.targetNamespace = d'.targetNamespace
  messages : d.messages = d'.messages
  portTypes : Table.Agree Eq (List.Forall₂ OperationDecl.Agree) d.portTypes d'.portTypes
  bindings : Table.Agree Eq BindingDecl.Agree d.bindings d'.bindings

theorem PartDecl.Agree.resolve {p p' : PartDecl} (h : p.Agree p') :
    OutcomesAgree Eq p.resolve p'.resolve := by
  rw [PartDecl.resolve, PartDecl.resolve, ← h.name]
  refine (required_agree _ _ p.name).bind fun name name' hname => ?_
  refine (followOption_agree h.element).bind fun element element' helement => ?_
  refine (followOption_agree h.type).bind fun type type' htype => ?_
  rw [hname, helement, htype]
  exact .ok rfl

theorem addDeclaration_agree {d d' : Definitions} {decl decl' : Declaration} (hd : d.Agree d')
    (hdecl : decl.Agree decl') :
    OutcomesAgree Definitions.Agree (d.add decl) (d'.add decl') := by
  cases hdecl with
  | imported location => exact .error _ _
  | message name hparts =>
    refine (required_agree _ _ name).bind fun name name' hname => ?_
    have hresolve := OutcomesAgree.mapM hparts fun _ _ => PartDecl.Agree.resolve
    refine hresolve.bind fun parts parts' hparts => .ok ?_
    obtain rfl : parts = parts' := List.forall₂_eq_eq_eq ▸ hparts
    obtain rfl := hname
    exact { hd with messages := by rw [hd.targetNamespace, hd.messages] }
  | portType name hoperations =>
    refine (required_agree _ _ name).bind fun name name' hname => .ok ?_
    obtain rfl := hname
    have hkey := congrArg (Xml.QName.mk · name) hd.targetNamespace
    exact { hd with portTypes := hd.portTypes.set biUnique_eq hkey hoperations }
  | binding name hbinding =>
    refine (required_agree _ _ name).bind fun name name' hname => .ok ?_
    obtain rfl := hname
    have hkey := congrArg (Xml.QName.mk · name) hd.targetNamespace
    exact { hd with bindings := hd.bindings.set biUnique_eq hkey hbinding }

/-- Descriptions that agree have definitions that agree. -/
theorem ofDescription_agree {ρ : List Nat → List Nat → Prop} {d d' : Description}
    (h : d.Agree ρ d') :
    OutcomesAgree Definitions.Agree (Definitions.ofDescription d)
      (Definitions.ofDescription d') := by
  rw [Definitions.ofDescription, Definitions.ofDescription, ← h.targetNamespace]
  exact .foldlM h.declarations ⟨rfl, rfl, .nil, .nil⟩ fun _ _ _ _ => addDeclaration_agree

variable {d d' : Definitions}

theorem message_agree (h : d.Agree d') (direction : String) {target target' : Option Reference}
    (htarget : Option.Rel Reference.Agree target target') :
    OutcomesAgree Eq (d.message direction target) (d'.message direction target') := by
  rw [Definitions.message, Definitions.message, ← h.messages]
  refine (followRequired_agree direction "message" htarget).bind fun name name' hname => ?_
  obtain rfl := hname
  cases Table.find? name d.messages with
  | some parts => exact .ok rfl
  | none => exact .error _ _

theorem binding_agree (h : d.Agree d') {port port' : PortDecl} (hport : port.Agree port') :
    OutcomesAgree BindingDecl.Agree (d.binding port) (d'.binding port') := by
  rw [Definitions.binding, Definitions.binding]
  refine (followRequired_agree "port" "binding" hport.binding).bind fun name name' hname => ?_
  obtain rfl := hname
  have hfind := h.bindings.find? biUnique_eq (rfl : name = name)
  generalize Table.find? name d.bindings = decl at hfind
  generalize Table.find? name d'.bindings = decl' at hfind
  cases hfind with
  | none => exact .error _ _
  | some hdecl => exact .ok hdecl

theorem portType_agree (h : d.Agree d') {decl decl' : BindingDecl} (hdecl : decl.Agree decl') :
    OutcomesAgree (List.Forall₂ OperationDecl.Agree) (d.portType decl) (d'.portType decl') := by
  rw [Definitions.portType, Definitions.portType]
  refine (followRequired_agree "binding" "type" hdecl.portType).bind fun name name' hname => ?_
  obtain rfl := hname
  have hfind := h.portTypes.find? biUnique_eq (rfl : name = name)
  generalize Table.find? name d.portTypes = operations at hfind
  generalize Table.find? name d'.portTypes = operations' at hfind
  cases hfind with
  | none => exact .error _ _
  | some hoperations => exact .ok hoperations

end SoapClient.Wsdl
