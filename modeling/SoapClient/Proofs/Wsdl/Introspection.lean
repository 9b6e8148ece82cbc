import SoapClient.Proofs.Model.Lookup
import SoapClient.Proofs.Wsdl.Interpretation
import SoapClient.Proofs.Wsdl.References

/-!
# What a model shows of its document

Main statement: the services of a model are those of the document, in its order. Each has the
operations of the port type that the port in use is bound to, in the order of that, and everything
that is listed is found again under its name (`mirrors_of_modelOf`).
-/

namespace SoapClient.Wsdl

open Outcome
open Xml (Element QName)
open Schema

variable {root e : Element} {m : ServiceModel} {description : Description} {d : Definitions}
  {c : Components} {s s' : Resolution}

/-! ## Binding step by step -/

/-- What entries have that others correspond to. -/
theorem forall_of_forall₂ {α β : Type} {R : α → β → Prop} {P : β → Prop} {as : List α} {bs : List β}
    (h : List.Forall₂ R as bs) (hP : ∀ a b, R a b → P b) : ∀ b ∈ bs, P b := by
  have hflip : List.Forall₂ (fun b a => P b ∧ R a b) bs as :=
    List.Forall₂.flip (h.imp fun a b hab => ⟨hP a b hab, hab⟩)
  exact ((List.forall₂_and_left bs as).mp hflip).1

/-- What does not depend on the state leaves it as it is. -/
theorem lift_eq_ok {α : Type} {result : Except DescriptionError α} {a : α}
    (h : lift result s = .ok (a, s')) : result = .ok a ∧ s' = s := by
  cases result with
  | error cause => cases h
  | ok found =>
    obtain ⟨rfl, rfl⟩ := Prod.mk.inj (Except.ok.inj h)
    exact ⟨rfl, rfl⟩

/-- What holds between a declaration and the operation that is bound to it. -/
structure IsBound (version : SoapVersion) (decl : OperationDecl) (op : Operation) : Prop where
  name : decl.name = some op.name
  version : op.soapVersion = version
  parameters : (op.parameters.map (·.name)).Nodup

theorem isBound_of_bindOperation {b : Bound} {decl : OperationDecl} {name : String} {op : Operation}
    (hname : decl.name = some name) (h : bindOperation b name decl s = .ok (op, s')) :
    IsBound b.soap.version decl op := by
  rw [bindOperation, run_bind_eq_ok_iff] at h
  obtain ⟨shape, s₁, -, h⟩ := h
  dsimp only at h
  cases hrepeated : firstRepeated? [] (shape.parameters.map (·.name)) with
  | some parameter =>
    rw [hrepeated] at h
    cases h
  | none =>
    rw [hrepeated] at h
    obtain ⟨rfl, -⟩ := Prod.mk.inj (Except.ok.inj h)
    exact ⟨hname, rfl, (firstRepeated?_eq_none_iff.mp hrepeated).1⟩

/-- The operations of a port type are bound in its order, and no name comes twice. -/
theorem forall₂_of_bindOperations {b : Bound} {earlier : List String} {decls : List OperationDecl}
    {ops : List Operation} (h : bindOperations b earlier decls s = .ok (ops, s')) :
    List.Forall₂ (IsBound b.soap.version) decls ops ∧
      firstRepeated? earlier (ops.map (·.name)) = none := by
  induction decls generalizing earlier s s' ops with
  | nil =>
    obtain ⟨rfl, -⟩ := Prod.mk.inj (Except.ok.inj h)
    exact ⟨.nil, rfl⟩
  | cons decl rest ih =>
    rw [bindOperations, run_bind_eq_ok_iff] at h
    obtain ⟨name, s₁, hname, h⟩ := h
    have hname : decl.name = some name := eq_some_of_required (lift_eq_ok hname).1
    by_cases hearlier : name ∈ earlier
    · simp only [if_pos hearlier] at h
      cases h
    · simp only [if_neg hearlier] at h
      rw [run_bind_eq_ok_iff] at h
      obtain ⟨op, s₂, hop, h⟩ := h
      rw [run_bind_eq_ok_iff] at h
      obtain ⟨others, s₃, hrest, h⟩ := h
      obtain ⟨rfl, -⟩ := Prod.mk.inj (Except.ok.inj h)
      have hbound := isBound_of_bindOperation hname hop
      obtain ⟨hothers, hfresh⟩ := ih hrest
      obtain rfl := Option.some.inj (hname.symm.trans hbound.name)
      refine ⟨.cons hbound hothers, ?_⟩
      rw [List.map_cons, firstRepeated?, if_neg hearlier, hfresh]

/-- What holds between a declaration and the service that is bound to it: it has the operations of
the port in use, and none without such a port. -/
inductive Serves (d : Definitions) (decl : ServiceDecl) : Service → Prop
  | unbound {ports : List SoapPort} {name : String} :
    soapPorts d decl.ports = .ok ports → selectPort ports = none → Serves d decl ⟨name, none, []⟩
  | bound {ports : List SoapPort} {port : SoapPort} {declared : List OperationDecl} {name : String}
      {ops : List Operation} :
    soapPorts d decl.ports = .ok ports → selectPort ports = some port →
      d.portType port.binding = .ok declared →
      List.Forall₂ (IsBound port.soap.version) declared ops → (ops.map (·.name)).Nodup →
      Serves d decl ⟨name, port.endpoint, ops⟩

theorem serves_of_bindService {decl : ServiceDecl} {name : String} {service : Service}
    (h : bindService d c name decl s = .ok (service, s')) :
    service.name = name ∧ Serves d decl service := by
  rw [bindService, run_bind_eq_ok_iff] at h
  obtain ⟨ports, s₁, hports, h⟩ := h
  have hports := (lift_eq_ok hports).1
  cases hselect : selectPort ports with
  | none =>
    simp only [hselect] at h
    obtain ⟨rfl, -⟩ := Prod.mk.inj (Except.ok.inj h)
    exact ⟨rfl, .unbound hports hselect⟩
  | some port =>
    simp only [hselect] at h
    rw [run_bind_eq_ok_iff] at h
    obtain ⟨declared, s₂, hdeclared, h⟩ := h
    rw [run_bind_eq_ok_iff] at h
    obtain ⟨ops, s₃, hops, h⟩ := h
    obtain ⟨rfl, -⟩ := Prod.mk.inj (Except.ok.inj h)
    obtain ⟨hbound, hfresh⟩ := forall₂_of_bindOperations hops
    exact ⟨rfl, .bound hports hselect (lift_eq_ok hdeclared).1 hbound
      (firstRepeated?_eq_none_iff.mp hfresh).1⟩

/-- The services of a description are bound in its order, and no name comes twice. -/
theorem forall₂_of_bindServices {earlier : List String} {decls : List ServiceDecl}
    {services : List Service} (h : bindServices d c earlier decls s = .ok (services, s')) :
    List.Forall₂ (fun decl service => decl.name = some service.name ∧ Serves d decl service)
      decls services ∧ firstRepeated? earlier (services.map (·.name)) = none := by
  induction decls generalizing earlier s s' services with
  | nil =>
    obtain ⟨rfl, -⟩ := Prod.mk.inj (Except.ok.inj h)
    exact ⟨.nil, rfl⟩
  | cons decl rest ih =>
    rw [bindServices, run_bind_eq_ok_iff] at h
    obtain ⟨name, s₁, hname, h⟩ := h
    have hname : decl.name = some name := eq_some_of_required (lift_eq_ok hname).1
    by_cases hearlier : name ∈ earlier
    · simp only [if_pos hearlier] at h
      cases h
    · simp only [if_neg hearlier] at h
      rw [run_bind_eq_ok_iff] at h
      obtain ⟨service, s₂, hservice, h⟩ := h
      rw [run_bind_eq_ok_iff] at h
      obtain ⟨others, s₃, hrest, h⟩ := h
      obtain ⟨rfl, -⟩ := Prod.mk.inj (Except.ok.inj h)
      obtain ⟨rfl, hserves⟩ := serves_of_bindService hservice
      obtain ⟨hothers, hfresh⟩ := ih hrest
      refine ⟨.cons ⟨hname, hserves⟩ hothers, ?_⟩
      rw [List.map_cons, firstRepeated?, if_neg hearlier, hfresh]

/-! ## The port in use -/

/-- The version of the protocol that a binding uses, the older one where it uses both. -/
def soapVersion? (binding : Element) : Option SoapVersion :=
  [SoapVersion.soap11, .soap12].find? fun version =>
    (binding.child? (bindingNamespace version) "binding").isSome

/-- The version of the protocol that a port is bound to. -/
def portVersion? (root port : Element) : Option SoapVersion :=
  (bindingOf? root port).bind soapVersion?

/-- The port of a service that is used: the first one of the older version of the protocol, else the
first one of the newer version. -/
def usedPort? (root service : Element) : Option Element :=
  let ports := service.childrenNamed namespaceName "port"
  (ports.find? (portVersion? root · = some .soap11)).orElse fun _ =>
    ports.find? (portVersion? root · = some .soap12)

/-- The address of a port for a version of the protocol. -/
def addressOf? (port : Element) (version : SoapVersion) : Option String :=
  (port.child? (bindingNamespace version) "address").bind (·.attribute? "location")

/-- What a service takes from a port that is bound to the protocol. -/
def soapPort? (root port : Element) : Option SoapPort :=
  (bindingOf? root port).bind fun binding => (readBinding binding).soap.map fun soap =>
    ⟨readBinding binding, soap, addressOf? port soap.version⟩

/-- A binding is read with the version that it uses. -/
theorem version_readBinding (binding : Element) :
    (readBinding binding).soap.map (·.version) = soapVersion? binding := by
  rw [readBinding, soapVersion?]
  cases hold : binding.child? (bindingNamespace .soap11) "binding" with
  | some soap => simp [readSoapBinding, hold]
  | none =>
    cases hnew : binding.child? (bindingNamespace .soap12) "binding" with
    | some soap => simp [readSoapBinding, hold, hnew]
    | none => simp [readSoapBinding, hold, hnew]

theorem version_soapPort? (root port : Element) :
    (soapPort? root port).map (·.soap.version) = portVersion? root port := by
  rw [soapPort?, portVersion?]
  cases bindingOf? root port with
  | none => rfl
  | some binding =>
    rw [Option.bind_some, Option.bind_some, ← version_readBinding, Option.map_map]
    rfl

/-- Where a port is bound to the protocol, and how. -/
theorem exists_binding_of_soapPort? {port : Element} {found : SoapPort}
    (h : soapPort? root port = some found) :
    ∃ binding, bindingOf? root port = some binding ∧ found.binding = readBinding binding ∧
      soapVersion? binding = some found.soap.version ∧
      found.endpoint = addressOf? port found.soap.version := by
  rw [soapPort?, Option.bind_eq_some_iff] at h
  obtain ⟨binding, hbinding, h⟩ := h
  obtain ⟨soap, hsoap, rfl⟩ := Option.map_eq_some_iff.mp h
  refine ⟨binding, hbinding, rfl, ?_, rfl⟩
  rw [← version_readBinding, hsoap, Option.map_some]

/-- A port with a version is bound to the protocol. -/
theorem exists_soapPort?_of_portVersion? {port : Element} {version : SoapVersion}
    (h : portVersion? root port = some version) : ∃ found, soapPort? root port = some found := by
  rw [← version_soapPort?] at h
  obtain ⟨found, hfound, -⟩ := Option.map_eq_some_iff.mp h
  exact ⟨found, hfound⟩

/-- The port in use is bound to the protocol. -/
theorem exists_soapPort?_of_usedPort? {service port : Element}
    (h : usedPort? root service = some port) : ∃ found, soapPort? root port = some found := by
  rw [usedPort?] at h
  cases hold : (service.childrenNamed namespaceName "port").find?
      (portVersion? root · = some .soap11) with
  | some old =>
    obtain rfl : old = port := by simpa [hold] using h
    exact exists_soapPort?_of_portVersion? (by simpa using List.find?_some hold)
  | none =>
    have hnew : (service.childrenNamed namespaceName "port").find?
        (portVersion? root · = some .soap12) = some port := by simpa [hold] using h
    exact exists_soapPort?_of_portVersion? (by simpa using List.find?_some hnew)

/-- The binding of a port is found where the document has it. -/
theorem exists_bindingOf? (hread : readDescription root = .ok description)
    (hd : Definitions.ofDescription description = .ok d) {port : Element} {decl : BindingDecl}
    (h : d.binding (readPort port) = .ok decl) :
    ∃ binding, bindingOf? root port = some binding ∧ readBinding binding = decl := by
  rw [Definitions.binding, bind_eq_ok_iff] at h
  obtain ⟨name, hname, h⟩ := h
  rw [find?_bindings hread hd] at h
  rw [bindingOf?, referredName?_of_follow hname, Option.bind_some]
  cases hdeclared : declared? root "binding" name with
  | none =>
    rw [hdeclared] at h
    cases h
  | some binding =>
    rw [hdeclared] at h
    exact ⟨binding, rfl, Except.ok.inj h⟩

/-- The operations of a port type are found where the document has them. -/
theorem exists_portTypeOf? (hread : readDescription root = .ok description)
    (hd : Definitions.ofDescription description = .ok d) {binding : Element}
    {declared : List OperationDecl} (h : d.portType (readBinding binding) = .ok declared) :
    ∃ portType, portTypeOf? root binding = some portType ∧
      (portType.childrenNamed namespaceName "operation").map readOperation = declared := by
  rw [Definitions.portType, bind_eq_ok_iff] at h
  obtain ⟨name, hname, h⟩ := h
  rw [find?_portTypes hread hd] at h
  rw [portTypeOf?, referredName?_of_follow hname, Option.bind_some]
  cases hdeclared : declared? root "portType" name with
  | none =>
    rw [hdeclared] at h
    cases h
  | some portType =>
    rw [hdeclared] at h
    exact ⟨portType, rfl, Except.ok.inj h⟩

/-- The ports that are bound to the protocol, in the order of the document. -/
theorem soapPorts_eq (hread : readDescription root = .ok description)
    (hd : Definitions.ofDescription description = .ok d) {ports : List Element}
    {found : List SoapPort} (h : soapPorts d (ports.map readPort) = .ok found) :
    found = ports.filterMap (soapPort? root) := by
  induction ports generalizing found with
  | nil => exact (Except.ok.inj h).symm
  | cons port rest ih =>
    rw [List.map_cons, soapPorts, bind_eq_ok_iff] at h
    obtain ⟨decl, hbinding, h⟩ := h
    rw [bind_eq_ok_iff] at h
    obtain ⟨others, hrest, h⟩ := h
    obtain ⟨binding, hof, rfl⟩ := exists_bindingOf? hread hd hbinding
    obtain rfl := ih hrest
    have hport : soapPort? root port = (readBinding binding).soap.map fun soap =>
        ⟨readBinding binding, soap, addressOf? port soap.version⟩ := by
      rw [soapPort?, hof, Option.bind_some]
    cases hsoap : (readBinding binding).soap with
    | none =>
      rw [hsoap] at h hport
      rw [List.filterMap_cons_none hport, Except.ok.inj h]
    | some soap =>
      rw [hsoap] at h hport
      rw [List.filterMap_cons_some hport, ← Except.ok.inj h]
      rfl

/-- Without a port of the older version, the port in use is the first one of the newer version. -/
theorem selectPort_eq (ports : List SoapPort) :
    selectPort ports = (ports.find? (·.soap.version = .soap11)).orElse fun _ =>
      ports.find? (·.soap.version = .soap12) := by
  rw [selectPort]
  cases hold : ports.find? (·.soap.version = .soap11) with
  | some port => rfl
  | none =>
    cases ports with
    | nil => rfl
    | cons port rest =>
      have hversion : port.soap.version = .soap12 := by
        have hnot := List.find?_eq_none.mp hold port List.mem_cons_self
        cases hport : port.soap.version with
        | soap11 => simp [hport] at hnot
        | soap12 => rfl
      simp [hversion]

/-- The port that is selected is the one in use. -/
theorem selectPort_filterMap (root service : Element) :
    selectPort ((service.childrenNamed namespaceName "port").filterMap (soapPort? root)) =
      (usedPort? root service).bind (soapPort? root) := by
  have hversion (version : SoapVersion) :
      (fun port => (soapPort? root port).any (·.soap.version = version)) =
        fun port => decide (portVersion? root port = some version) := by
    funext port
    rw [← version_soapPort?]
    cases soapPort? root port with
    | none => simp
    | some found => simp
  rw [selectPort_eq, List.find?_filterMap, List.find?_filterMap, hversion, hversion, usedPort?]
  cases hold : (service.childrenNamed namespaceName "port").find?
      (portVersion? root · = some .soap11) with
  | none => rfl
  | some port =>
    -- the port has a version, so it is bound to the protocol
    have hport : portVersion? root port = some .soap11 := by simpa using List.find?_some hold
    obtain ⟨found, hfound⟩ := exists_soapPort?_of_portVersion? hport
    simp [hfound]

/-! ## Documents and their models -/

/-- A service of a model mirrors the element of a service in a document. -/
structure Mirrors (root e : Element) (s : Service) : Prop where
  name : e.attribute? "name" = some s.name
  distinct : (s.operations.map (·.name)).Nodup
  parameters : ∀ op ∈ s.operations, (op.parameters.map (·.name)).Nodup
  unbound : usedPort? root e = none → s.endpoint = none ∧ s.operations = []
  bound : ∀ port, usedPort? root e = some port → ∃ binding version portType,
    bindingOf? root port = some binding ∧ soapVersion? binding = some version ∧
    portTypeOf? root binding = some portType ∧ s.endpoint = addressOf? port version ∧
    List.Forall₂ (fun operation op =>
        operation.attribute? "name" = some op.name ∧ op.soapVersion = version)
      (portType.childrenNamed namespaceName "operation") s.operations

/-- A service that is bound to its declaration mirrors its element. -/
theorem mirrors_of_serves (hread : readDescription root = .ok description)
    (hd : Definitions.ofDescription description = .ok d) {service : Service}
    (hname : e.attribute? "name" = some service.name) (h : Serves d (readService e) service) :
    Mirrors root e service := by
  have hselect {ports : List SoapPort} (hports : soapPorts d (readService e).ports = .ok ports) :
      selectPort ports = (usedPort? root e).bind (soapPort? root) := by
    rw [soapPorts_eq hread hd hports, selectPort_filterMap]
  cases h with
  | unbound hports hnone =>
    refine ⟨hname, List.nodup_nil, List.forall_mem_nil _, fun _ => ⟨rfl, rfl⟩, fun port hport => ?_⟩
    obtain ⟨found, hfound⟩ := exists_soapPort?_of_usedPort? hport
    rw [hselect hports, hport, Option.bind_some, hfound] at hnone
    cases hnone
  | bound hports hsome hdeclared hops hdistinct =>
    rw [hselect hports, Option.bind_eq_some_iff] at hsome
    obtain ⟨port, hport, hsome⟩ := hsome
    obtain ⟨binding, hbinding, hread', hversion, haddress⟩ := exists_binding_of_soapPort? hsome
    rw [hread'] at hdeclared
    obtain ⟨portType, hportType, rfl⟩ := exists_portTypeOf? hread hd hdeclared
    rw [List.forall₂_map_left_iff] at hops
    refine ⟨hname, hdistinct, ?_, fun hnone => ?_, fun other hother => ?_⟩
    · exact forall_of_forall₂ hops fun _ _ h => h.parameters
    · rw [hport] at hnone
      cases hnone
    · obtain rfl := Option.some.inj (hport.symm.trans hother)
      exact ⟨binding, _, portType, hbinding, hversion, hportType, haddress,
        hops.imp fun _ _ h => ⟨h.name, h.version⟩⟩

/-- The services of a model, and what is found in it, are those of the document. -/
theorem mirrors_of_modelOf (h : modelOf root = .ok m) :
    (root.childrenNamed namespaceName "service").map (·.attribute? "name") =
      m.listServices.map some ∧
    m.listServices.Nodup ∧
    List.Forall₂ (Mirrors root) (root.childrenNamed namespaceName "service") m.services ∧
    m.AnswersLookups := by
  obtain ⟨I⟩ := exists_interpretation h
  have hresolved := I.resolved
  rw [interpret_eq, bind_eq_ok_iff] at hresolved
  obtain ⟨⟨⟨⟩, s⟩, -, hbind⟩ := hresolved
  obtain ⟨hservices, hfresh⟩ := forall₂_of_bindServices hbind
  obtain ⟨-, -, hdecls⟩ := declarations_of_readDescription I.read
  rw [hdecls, List.forall₂_map_left_iff] at hservices
  have hmirrors : List.Forall₂ (Mirrors root) (root.childrenNamed namespaceName "service")
      m.services := hservices.imp fun e s hs => mirrors_of_serves I.read I.defined hs.1 hs.2
  have hdistinct : m.listServices.Nodup := (firstRepeated?_eq_none_iff.mp hfresh).1
  refine ⟨?_, hdistinct, hmirrors, ServiceModel.HasDistinctNames.answersLookups ⟨hdistinct, ?_⟩⟩
  · have hnames : List.Forall₂ (· = ·)
        ((root.childrenNamed namespaceName "service").map (·.attribute? "name"))
        (m.services.map (some ·.name)) := by
      rw [List.forall₂_map_left_iff, List.forall₂_map_right_iff]
      exact hmirrors.imp fun _ _ h => h.name
    rw [List.forall₂_eq_eq_eq] at hnames
    rw [hnames, ServiceModel.listServices, List.map_map]
    rfl
  · exact forall_of_forall₂ hmirrors fun _ _ h => h.distinct

/-! ## A service with two ports -/

/-- A binding of the port type `Rating` to a version of the protocol. -/
def ratingBinding (name : String) (version : SoapVersion) : Element :=
  smallElement namespaceName "binding" [("name", name), ("type", "t:Rating")]
    [smallElement (bindingNamespace version) "binding" [] []]

/-- A port that is bound to a version of the protocol, with an address. -/
def ratingPort (name location : String) (version : SoapVersion) : Element :=
  smallElement namespaceName "port" [("name", name), ("binding", "t:" ++ name)]
    [smallElement (bindingNamespace version) "address" [("location", location)] []]

/-- A document with a service that has a port for each version of the protocol, the newer one first,
and with a service that has no port. -/
def ratingDocument : Element :=
  smallDocument []
    [smallElement namespaceName "portType" [("name", "Rating")]
      [smallElement namespaceName "operation" [("name", "get")] [],
       smallElement namespaceName "operation" [("name", "clear")] []],
     ratingBinding "New" .soap12, ratingBinding "Old" .soap11,
     smallElement namespaceName "service" [("name", "Rates")]
      [ratingPort "New" "http://svc.test/new" .soap12,
       ratingPort "Old" "http://svc.test/old" .soap11],
     smallElement namespaceName "service" [("name", "Idle")] []]

/-- An operation of the port type. -/
def ratingOperation (name : String) : Operation where
  name := name
  parameters := []
  returnType := .void
  soapAction := none
  style := .documentBare
  soapVersion := .soap11
  namespaceName := none
  requestElement := name
  qualifiedParameters := true
  resultElement := none

/-- The model of this document. -/
def ratingModel : ServiceModel where
  targetNamespace := some "urn:t"
  services := [
    ⟨"Rates", some "http://svc.test/old", [ratingOperation "get", ratingOperation "clear"]⟩,
    ⟨"Idle", none, []⟩]
  types := []

/-- The older port is in use, its operations are listed, and they are found. -/
theorem mirrors_of_modelOf_ratingDocument :
    modelOf ratingDocument = .ok ratingModel ∧
    List.Forall₂ (Mirrors ratingDocument) (ratingDocument.childrenNamed namespaceName "service")
      ratingModel.services ∧
    ratingModel.lookupOperation "Rates" "clear" = .ok (ratingOperation "clear") ∧
    ratingModel.lookupOperation "Idle" "clear" = .error (.operationNotFound "Idle" "clear") ∧
    ratingModel.lookupService "Late" = .error (.serviceNotFound "Late") := by
  have hmodel : modelOf ratingDocument = .ok ratingModel := by decide +kernel
  obtain ⟨-, -, hmirrors, hlookups⟩ := mirrors_of_modelOf hmodel
  have hrates : ratingModel.services[0] ∈ ratingModel.services := List.getElem_mem (by decide)
  have hidle : ratingModel.services[1] ∈ ratingModel.services := List.getElem_mem (by decide)
  have hclear : ratingOperation "clear" ∈ ratingModel.services[0].operations := by decide
  have hlate : "Late" ∉ ratingModel.listServices := by decide
  exact ⟨hmodel, hmirrors, (hlookups.operation _ hrates _ hclear).1,
    (hlookups.unknownOperation _ hidle "clear" List.not_mem_nil).1,
    (hlookups.unknownService "Late" hlate).1⟩

end SoapClient.Wsdl
