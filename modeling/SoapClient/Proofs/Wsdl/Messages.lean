import SoapClient.Proofs.Wsdl.Introspection
import SoapClient.Proofs.Wsdl.Naming

/-!
# The messages of operations

An operation of a model is bound from an element of the document (`operationElement?`), and what it
takes are the parts of the message that this element refers to (`inputParts`). Main statements: the
parts are read as the document has them (`forall₂_inputParts`), and each operation of a model is
bound from its element (`exists_bindOperation`).
-/

namespace SoapClient.Wsdl

open Outcome
open Xml (Element QName)
open Schema

variable {root e : Element} {m : ServiceModel} {description : Description} {d d' : Definitions}
  {c : Components} {s s' : Resolution}

/-! ## Messages of a document -/

/-- The message that the input or output of an operation refers to. -/
def messageOf? (root e : Element) : Option Element :=
  (referredName? e "message").bind (declared? root "message")

/-- The parts of the message that an operation takes, none where it takes no message. -/
def inputParts (root operation : Element) : List Element :=
  (((operation.child? namespaceName "input").bind (messageOf? root)).map
    (·.childrenNamed namespaceName "part")).getD []

/-- A part is read as its element has it. -/
structure IsPart (e : Element) (p : Part) : Prop where
  name : e.attribute? "name" = some p.name
  element : referredName? e "element" = p.element
  hasElement : (e.attribute? "element").isSome = p.element.isSome

/-- A reference that may be absent is followed where it is there. -/
theorem referredName?_of_followOption {attributeName : String} {name : Option QName}
    (h : Reference.followOption (reference? e attributeName) = .ok name) :
    referredName? e attributeName = name ∧ (e.attribute? attributeName).isSome = name.isSome := by
  rw [reference?] at h
  rw [referredName?]
  cases htext : e.attribute? attributeName with
  | none =>
    rw [htext] at h
    obtain rfl := Except.ok.inj h
    exact ⟨rfl, rfl⟩
  | some text =>
    rw [htext, Option.map_some] at h
    cases hresolve : e.resolve? text with
    | none =>
      rw [hresolve] at h
      cases h
    | some found =>
      rw [hresolve] at h
      obtain rfl := Except.ok.inj h
      exact ⟨hresolve, rfl⟩

theorem isPart_of_resolve {p : Part} (h : (readPart e).resolve = .ok p) : IsPart e p := by
  have hname := PartDecl.name_of_resolve h
  rw [PartDecl.resolve, bind_eq_ok_iff] at h
  obtain ⟨name, -, h⟩ := h
  rw [bind_eq_ok_iff] at h
  obtain ⟨element, helement, h⟩ := h
  rw [bind_eq_ok_iff] at h
  obtain ⟨type, -, h⟩ := h
  obtain rfl := Except.ok.inj h
  obtain ⟨hreferred, hsome⟩ := referredName?_of_followOption helement
  exact ⟨hname, hreferred, hsome⟩

/-- Parts that are all read are so in their order. -/
theorem forall₂_of_mapM_resolve {es : List Element} {parts : List Part}
    (h : (es.map readPart).mapM PartDecl.resolve = .ok parts) : List.Forall₂ IsPart es parts := by
  induction es generalizing parts with
  | nil =>
    obtain rfl := Except.ok.inj h
    exact .nil
  | cons e rest ih =>
    rw [List.map_cons, List.mapM_cons, bind_eq_ok_iff] at h
    obtain ⟨part, hpart, h⟩ := h
    rw [bind_eq_ok_iff] at h
    obtain ⟨others, hothers, h⟩ := h
    obtain rfl := Except.ok.inj h
    exact .cons (isPart_of_resolve hpart) (ih hothers)

/-- The parts that are read, none where one cannot be read. -/
def resolvedParts (decls : List PartDecl) : List Part :=
  match decls.mapM PartDecl.resolve with
  | .ok parts => parts
  | .error _ => []

namespace Declaration

/-- The entry that a declaration makes among the messages. -/
def messagePair? (targetNamespace : Option String) : Declaration → Option (QName × List Part)
  | .message (some name) decls => some (⟨targetNamespace, name⟩, resolvedParts decls)
  | _ => none

/-- A declaration of which all parts can be read. -/
def IsRead : Declaration → Prop
  | .message _ decls => decls.mapM PartDecl.resolve = .ok (resolvedParts decls)
  | _ => True

end Declaration

namespace Definitions

/-- A declaration that is added is read, and sets its entry among the messages. -/
theorem messages_of_add {decl : Declaration} (h : d.add decl = .ok d') :
    decl.IsRead ∧
      d'.messages = setAll ([decl].filterMap (·.messagePair? d.targetNamespace)) d.messages := by
  match decl with
  | .imported location => cases h
  | .message none parts => cases h
  | .message (some name) decls =>
    rw [add, required, ok_bind, bind_eq_ok_iff] at h
    obtain ⟨parts, hparts, h⟩ := h
    obtain rfl := Except.ok.inj h
    have hresolved : resolvedParts decls = parts := by rw [resolvedParts, hparts]
    refine ⟨hparts.trans (congrArg Except.ok hresolved.symm), ?_⟩
    rw [List.filterMap_cons, Declaration.messagePair?, hresolved]
    rfl
  | .portType none operations => cases h
  | .portType (some name) operations =>
    obtain rfl := Except.ok.inj h
    exact ⟨trivial, rfl⟩
  | .binding none decl => cases h
  | .binding (some name) decl =>
    obtain rfl := Except.ok.inj h
    exact ⟨trivial, rfl⟩

theorem messages_of_foldlM_add {decls : List Declaration} (h : decls.foldlM add d = .ok d') :
    (∀ decl ∈ decls, decl.IsRead) ∧
      d'.messages = setAll (decls.filterMap (·.messagePair? d.targetNamespace)) d.messages := by
  induction decls generalizing d with
  | nil =>
    obtain rfl := Except.ok.inj h
    exact ⟨List.forall_mem_nil _, rfl⟩
  | cons decl rest ih =>
    rw [List.foldlM_cons, bind_eq_ok_iff] at h
    obtain ⟨d₁, hfirst, hrest⟩ := h
    obtain ⟨hdecl, hmessages⟩ := messages_of_add hfirst
    obtain ⟨hdecls, hmessages'⟩ := ih hrest
    refine ⟨List.forall_mem_cons.mpr ⟨hdecl, hdecls⟩, ?_⟩
    rw [hmessages', (tables_of_add hfirst).1, hmessages, ← setAll_append, ← List.filterMap_append,
      List.singleton_append]

end Definitions

/-- The parts of a message as it is written. -/
def partsOf (e : Element) : List Part :=
  resolvedParts ((e.childrenNamed namespaceName "part").map readPart)

/-- Only a message makes an entry among the messages. -/
theorem messagePair?_readDeclaration (root e : Element) :
    (readDeclaration e).bind (·.messagePair? (root.attribute? "targetNamespace")) =
      if e.is namespaceName "message" then (declaredName? root e).map (·, partsOf e) else none := by
  by_cases hns : e.namespaceName = some namespaceName
  · rw [readDeclaration, if_neg (not_not.mpr hns), declaredName?]
    split
    case h_2 hname =>
      rw [Option.bind_some, if_pos (by simp [Element.is, hname, hns])]
      cases e.attribute? "name" with
      | none => rfl
      | some name => rfl
    case h_5 hother _ _ =>
      rw [if_neg (by simpa [Element.is, hns] using hother)]
      rfl
    all_goals
      rw [if_neg (by simp [Element.is, *])]
      rfl
  · rw [readDeclaration, if_pos hns, if_neg (by simp [Element.is, hns])]
    rfl

/-- Under a name the message is found that the name refers to. -/
theorem find?_messages (hread : readDescription root = .ok description)
    (h : Definitions.ofDescription description = .ok d) (name : QName) :
    Table.find? name d.messages = (declared? root "message" name).map partsOf := by
  obtain ⟨hns, hdeclarations, -⟩ := declarations_of_readDescription hread
  obtain ⟨-, hmessages⟩ := Definitions.messages_of_foldlM_add h
  rw [hmessages, find?_setAll, List.append_nil, hns, hdeclarations, List.filterMap_filterMap]
  simp only [messagePair?_readDeclaration]
  rw [← List.filterMap_filter, ← List.filterMap_reverse, find?_filterMap_key]
  rfl

/-- The parts of a message of the document are all read. -/
theorem forall₂_partsOf (hread : readDescription root = .ok description)
    (h : Definitions.ofDescription description = .ok d)
    (he : e ∈ root.childrenNamed namespaceName "message") :
    List.Forall₂ IsPart (e.childrenNamed namespaceName "part") (partsOf e) := by
  obtain ⟨-, hdeclarations, -⟩ := declarations_of_readDescription hread
  obtain ⟨hchild, his⟩ := List.mem_filter.mp he
  have hdecl : readDeclaration e = some (.message (e.attribute? "name")
      ((e.childrenNamed namespaceName "part").map readPart)) := by
    simp only [Element.is, decide_eq_true_eq] at his
    obtain ⟨hlocal, hns⟩ := his
    rw [readDeclaration, if_neg (not_not.mpr hns), hlocal]
    rfl
  have hmem : _ ∈ description.declarations :=
    hdeclarations ▸ List.mem_filterMap.mpr ⟨e, hchild, hdecl⟩
  exact forall₂_of_mapM_resolve ((Definitions.messages_of_foldlM_add h).1 _ hmem)

/-! ## Operations of a document -/

/-- The element of a service with a name. -/
def serviceElement? (root : Element) (service : String) : Option Element :=
  (root.childrenNamed namespaceName "service").find? (·.attribute? "name" = some service)

/-- The element of an operation of a service: it is that of the port type to which the port in use
is bound. -/
def operationElement? (root : Element) (service operation : String) : Option Element := do
  let service ← serviceElement? root service
  let port ← usedPort? root service
  let binding ← bindingOf? root port
  let portType ← portTypeOf? root binding
  (portType.childrenNamed namespaceName "operation").find? (·.attribute? "name" = some operation)

/-- The parts that an operation takes. -/
def Definitions.Takes (d : Definitions) (decl : OperationDecl) (parts : List Part) : Prop :=
  match decl.input with
  | some target => d.message "input" target = .ok parts
  | none => parts = []

/-- The parts that an operation takes are those of its message in the document. -/
theorem forall₂_inputParts (hread : readDescription root = .ok description)
    (hd : Definitions.ofDescription description = .ok d) {operation : Element} {parts : List Part}
    (h : d.Takes (readOperation operation) parts) :
    List.Forall₂ IsPart (inputParts root operation) parts := by
  have hinput : (readOperation operation).input =
      (operation.child? namespaceName "input").map (reference? · "message") := rfl
  rw [Definitions.Takes, hinput] at h
  rw [inputParts]
  cases hchild : operation.child? namespaceName "input" with
  | none =>
    rw [hchild] at h
    obtain rfl := h
    exact .nil
  | some input =>
    rw [hchild, Option.map_some] at h
    dsimp only at h
    rw [Definitions.message, bind_eq_ok_iff] at h
    obtain ⟨name, hname, h⟩ := h
    rw [find?_messages hread hd] at h
    rw [Option.bind_some, messageOf?, referredName?_of_follow hname, Option.bind_some]
    cases hdeclared : declared? root "message" name with
    | none =>
      rw [hdeclared] at h
      cases h
    | some message =>
      rw [hdeclared] at h
      obtain rfl := Except.ok.inj h
      exact forall₂_partsOf hread hd (List.mem_reverse.mp (List.mem_of_find?_eq_some hdeclared))

/-- An operation that is bound comes from a declaration. -/
theorem exists_of_mem_bindOperations {b : Bound} {earlier : List String}
    {decls : List OperationDecl} {ops : List Operation} {op : Operation}
    (h : bindOperations b earlier decls s = .ok (ops, s')) (hop : op ∈ ops) :
    ∃ decl ∈ decls, ∃ s₁ s₂, decl.name = some op.name ∧
      bindOperation b op.name decl s₁ = .ok (op, s₂) := by
  induction decls generalizing earlier s s' ops with
  | nil =>
    obtain ⟨rfl, -⟩ := Prod.mk.inj (Except.ok.inj h)
    cases hop
  | cons decl rest ih =>
    rw [bindOperations, run_bind_eq_ok_iff] at h
    obtain ⟨name, s₁, hname, h⟩ := h
    have hname : decl.name = some name := eq_some_of_required (lift_eq_ok hname).1
    by_cases hearlier : name ∈ earlier
    · simp only [if_pos hearlier] at h
      cases h
    · simp only [if_neg hearlier] at h
      rw [run_bind_eq_ok_iff] at h
      obtain ⟨first, s₂, hfirst, h⟩ := h
      rw [run_bind_eq_ok_iff] at h
      obtain ⟨others, s₃, hrest, h⟩ := h
      obtain ⟨rfl, -⟩ := Prod.mk.inj (Except.ok.inj h)
      rcases List.mem_cons.mp hop with rfl | hop
      · have hbound := isBound_of_bindOperation hname hfirst
        obtain rfl := Option.some.inj (hname.symm.trans hbound.name)
        exact ⟨decl, List.mem_cons_self, s₁, s₂, hname, hfirst⟩
      · obtain ⟨other, hother, found⟩ := ih hrest hop
        exact ⟨other, List.mem_cons_of_mem _ hother, found⟩

/-- A service that is bound comes from a declaration. -/
theorem exists_of_mem_bindServices {earlier : List String} {decls : List ServiceDecl}
    {services : List Service} {service : Service}
    (h : bindServices d c earlier decls s = .ok (services, s')) (hservice : service ∈ services) :
    ∃ decl ∈ decls, ∃ s₁ s₂, decl.name = some service.name ∧
      bindService d c service.name decl s₁ = .ok (service, s₂) := by
  induction decls generalizing earlier s s' services with
  | nil =>
    obtain ⟨rfl, -⟩ := Prod.mk.inj (Except.ok.inj h)
    cases hservice
  | cons decl rest ih =>
    rw [bindServices, run_bind_eq_ok_iff] at h
    obtain ⟨name, s₁, hname, h⟩ := h
    have hname : decl.name = some name := eq_some_of_required (lift_eq_ok hname).1
    by_cases hearlier : name ∈ earlier
    · simp only [if_pos hearlier] at h
      cases h
    · simp only [if_neg hearlier] at h
      rw [run_bind_eq_ok_iff] at h
      obtain ⟨first, s₂, hfirst, h⟩ := h
      rw [run_bind_eq_ok_iff] at h
      obtain ⟨others, s₃, hrest, h⟩ := h
      obtain ⟨rfl, -⟩ := Prod.mk.inj (Except.ok.inj h)
      rcases List.mem_cons.mp hservice with rfl | hservice
      · obtain rfl := (serves_of_bindService hfirst).1
        exact ⟨decl, List.mem_cons_self, s₁, s₂, hname, hfirst⟩
      · obtain ⟨other, hother, found⟩ := ih hrest hservice
        exact ⟨other, List.mem_cons_of_mem _ hother, found⟩

/-- Elements with the names of entries that have different names are told apart by these. -/
theorem find?_of_forall₂_name {α : Type} {name : α → String} {es : List Element} {entries : List α}
    (h : List.Forall₂ (fun e a => e.attribute? "name" = some (name a)) es entries)
    (hdistinct : (entries.map name).Nodup) (he : e ∈ es) {found : String}
    (hfound : e.attribute? "name" = some found) :
    es.find? (·.attribute? "name" = some found) = some e := by
  have hnames : List.Forall₂ (· = ·) (es.map (·.attribute? "name"))
      ((entries.map name).map some) := by
    rw [List.map_map, List.forall₂_map_left_iff, List.forall₂_map_right_iff]
    exact h
  rw [List.forall₂_eq_eq_eq] at hnames
  have hnodup : (es.map (·.attribute? "name")).Nodup :=
    hnames ▸ hdistinct.map (Option.some_injective String)
  have hfind := find?_of_nodup hnodup he
  rwa [hfound] at hfind

/-- An operation of a service that is bound comes from its element. -/
theorem exists_of_bindService (hread : readDescription root = .ok description)
    (hd : Definitions.ofDescription description = .ok d) {name : String} {service : Service}
    (h : bindService d c name (readService e) s = .ok (service, s')) {op : Operation}
    (hop : op ∈ service.operations) :
    ∃ (port binding portType operation : Element) (soap : SoapBinding) (s₁ s₂ : Resolution),
      usedPort? root e = some port ∧ bindingOf? root port = some binding ∧
      portTypeOf? root binding = some portType ∧
      (portType.childrenNamed namespaceName "operation").find?
        (·.attribute? "name" = some op.name) = some operation ∧
      bindOperation ⟨d, c, soap⟩ op.name (readOperation operation) s₁ = .ok (op, s₂) := by
  rw [bindService, run_bind_eq_ok_iff] at h
  obtain ⟨ports, s₁, hports, h⟩ := h
  have hselected : selectPort ports = (usedPort? root e).bind (soapPort? root) := by
    rw [soapPorts_eq hread hd (lift_eq_ok hports).1, selectPort_filterMap]
  cases hselect : selectPort ports with
  | none =>
    simp only [hselect] at h
    obtain ⟨rfl, -⟩ := Prod.mk.inj (Except.ok.inj h)
    cases hop
  | some soapPort =>
    simp only [hselect] at h
    rw [run_bind_eq_ok_iff] at h
    obtain ⟨declared, s₂, hdeclared, h⟩ := h
    rw [run_bind_eq_ok_iff] at h
    obtain ⟨ops, s₃, hops, h⟩ := h
    obtain ⟨rfl, -⟩ := Prod.mk.inj (Except.ok.inj h)
    obtain ⟨hbound, hfresh⟩ := forall₂_of_bindOperations hops
    obtain ⟨decl, hdecl, s₄, s₅, hname, hoperation⟩ := exists_of_mem_bindOperations hops hop
    rw [hselected, Option.bind_eq_some_iff] at hselect
    obtain ⟨port, hport, hsoap⟩ := hselect
    obtain ⟨binding, hbinding, hread', -, -⟩ := exists_binding_of_soapPort? hsoap
    have hdeclared := (lift_eq_ok hdeclared).1
    rw [hread'] at hdeclared
    obtain ⟨portType, hportType, rfl⟩ := exists_portTypeOf? hread hd hdeclared
    obtain ⟨operation, hmem, rfl⟩ := List.mem_map.mp hdecl
    rw [List.forall₂_map_left_iff] at hbound
    have hfind := find?_of_forall₂_name (hbound.imp fun _ _ h => h.name)
      (firstRepeated?_eq_none_iff.mp hfresh).1 hmem hname
    exact ⟨port, binding, portType, operation, soapPort.soap, s₄, s₅, hport, hbinding, hportType,
      hfind, hoperation⟩

/-- An operation of a model is bound from its element in the document. -/
theorem exists_bindOperation (h : modelOf root = .ok m) {service : Service}
    (hservice : service ∈ m.services) {op : Operation} (hop : op ∈ service.operations) :
    ∃ (I : Interpretation root m) (operation : Element) (soap : SoapBinding) (s₁ s₂ : Resolution),
      operationElement? root service.name op.name = some operation ∧
      bindOperation ⟨I.definitions, I.components, soap⟩ op.name (readOperation operation) s₁ =
        .ok (op, s₂) := by
  obtain ⟨I⟩ := exists_interpretation h
  have hresolved := I.resolved
  rw [interpret_eq, bind_eq_ok_iff] at hresolved
  obtain ⟨⟨⟨⟩, s⟩, -, hbind⟩ := hresolved
  obtain ⟨hservices, hfresh⟩ := forall₂_of_bindServices hbind
  obtain ⟨-, -, hdecls⟩ := declarations_of_readDescription I.read
  obtain ⟨decl, hdecl, s₁, s₂, hname, hbound⟩ := exists_of_mem_bindServices hbind hservice
  rw [hdecls] at hdecl hservices
  obtain ⟨e, he, rfl⟩ := List.mem_map.mp hdecl
  rw [List.forall₂_map_left_iff] at hservices
  have hfind := find?_of_forall₂_name (hservices.imp fun _ _ h => h.1)
    (firstRepeated?_eq_none_iff.mp hfresh).1 he hname
  obtain ⟨port, binding, portType, operation, soap, s₃, s₄, hport, hbinding, hportType, hoperation,
    hbindOperation⟩ := exists_of_bindService I.read I.defined hbound hop
  refine ⟨I, operation, soap, s₃, s₄, ?_, hbindOperation⟩
  rw [operationElement?, serviceElement?, hfind]
  simp only [Option.bind_eq_bind, Option.bind_some, hport, hbinding, hportType, hoperation]

end SoapClient.Wsdl
