import SoapClient.Proofs.Schema.FieldNames
import SoapClient.Proofs.Wsdl.Interpretation

/-!
# Names in models

The names of operations, parts and elements are the only ones of a document that get into requests.
Main statement: what holds of these holds of the names of the elements in requests, which are those
of parameters and fields and those of the elements around the parameters (`isNamed_of_modelOf`).
-/

namespace SoapClient.Wsdl

open Outcome
open Xml (Element QName)
open Schema

variable {P : String → Prop} {root : Element} {m : ServiceModel}

/-! ## Names in definitions -/

/-- The names that are given to the children of some elements, of those with a local name. -/
def namesWithin (outer : List Element) (localName : String) : List String :=
  outer.flatMap fun e => (e.childrenNamed namespaceName localName).filterMap (·.attribute? "name")

/-- The names that a document gives to the operations of its port types, to the parts of its
messages and to the elements of its schemas. -/
def givenNames (root : Element) : List String :=
  namesWithin (root.childrenNamed namespaceName "portType") "operation" ++
    namesWithin (root.childrenNamed namespaceName "message") "part" ++ elementNames root

theorem mem_namesWithin {outer : List Element} {o e : Element} {localName name : String}
    (ho : o ∈ outer) (he : e ∈ o.childrenNamed namespaceName localName)
    (hname : e.attribute? "name" = some name) : name ∈ namesWithin outer localName :=
  List.mem_flatMap.mpr ⟨o, ho, List.mem_filterMap.mpr ⟨e, he, hname⟩⟩

/-- A declaration with names that meet the condition. -/
def Declaration.IsNamed (P : String → Prop) : Declaration → Prop
  | .message _ parts => ∀ p ∈ parts, ∀ name, p.name = some name → P name
  | .portType _ operations => ∀ decl ∈ operations, ∀ name, decl.name = some name → P name
  | _ => True

theorem isNamed_readDeclaration (h : ∀ name ∈ givenNames root, P name) {e : Element}
    (he : e ∈ root.children) {decl : Declaration} (hread : readDeclaration e = some decl) :
    decl.IsNamed P := by
  rw [readDeclaration] at hread
  split at hread
  · cases hread
  next hns =>
  rw [Decidable.not_not] at hns
  split at hread
  · obtain rfl := Option.some.inj hread
    exact trivial
  · next hlocal =>
    obtain rfl := Option.some.inj hread
    have hmessage : e ∈ root.childrenNamed namespaceName "message" :=
      List.mem_filter.mpr ⟨he, by simp [Element.is, hns, hlocal]⟩
    refine List.forall_mem_map.mpr fun p hp name hname => h name ?_
    exact List.mem_append_left _ (List.mem_append_right _ (mem_namesWithin hmessage hp hname))
  · next hlocal =>
    obtain rfl := Option.some.inj hread
    have hportType : e ∈ root.childrenNamed namespaceName "portType" :=
      List.mem_filter.mpr ⟨he, by simp [Element.is, hns, hlocal]⟩
    refine List.forall_mem_map.mpr fun op hop name hname => h name ?_
    exact List.mem_append_left _ (List.mem_append_left _ (mem_namesWithin hportType hop hname))
  · obtain rfl := Option.some.inj hread
    exact trivial
  · cases hread

/-- A part keeps its name. -/
theorem PartDecl.name_of_resolve {decl : PartDecl} {part : Part} (h : decl.resolve = .ok part) :
    decl.name = some part.name := by
  rw [PartDecl.resolve, bind_eq_ok_iff] at h
  obtain ⟨name, hname, h⟩ := h
  rw [bind_eq_ok_iff] at h
  obtain ⟨element, -, h⟩ := h
  rw [bind_eq_ok_iff] at h
  obtain ⟨type, -, h⟩ := h
  rw [← Except.ok.inj h]
  exact eq_some_of_required hname

/-- The parts of a message keep their names. -/
theorem name_of_mapM_resolve {decls : List PartDecl} {parts : List Part}
    (hdecls : ∀ p ∈ decls, ∀ name, p.name = some name → P name)
    (h : decls.mapM PartDecl.resolve = .ok parts) : ∀ p ∈ parts, P p.name := by
  induction decls generalizing parts with
  | nil =>
    obtain rfl := Except.ok.inj h
    exact List.forall_mem_nil _
  | cons decl rest ih =>
    rw [List.forall_mem_cons] at hdecls
    rw [List.mapM_cons, bind_eq_ok_iff] at h
    obtain ⟨part, hpart, h⟩ := h
    rw [bind_eq_ok_iff] at h
    obtain ⟨others, hothers, h⟩ := h
    rw [← Except.ok.inj h]
    have hfirst : P part.name := hdecls.1 part.name (PartDecl.name_of_resolve hpart)
    exact List.forall_mem_cons.mpr ⟨hfirst, ih hdecls.2 hothers⟩

/-- A declaration adds no other names. -/
theorem Definitions.hasNames_add {d d' : Definitions} {decl : Declaration} (hd : d.HasNames P)
    (hdecl : decl.IsNamed P) (h : d.add decl = .ok d') : d'.HasNames P := by
  match decl with
  | .imported _ => cases h
  | .message none _ => cases h
  | .portType none _ => cases h
  | .binding none _ => cases h
  | .message (some name) decls =>
    rw [Definitions.add, required, ok_bind, bind_eq_ok_iff] at h
    obtain ⟨parts, hparts, h⟩ := h
    obtain rfl := Except.ok.inj h
    refine ⟨fun entry hentry => ?_, hd.operations⟩
    rcases mem_of_mem_set hentry with heq | hentry
    · rw [heq]
      exact name_of_mapM_resolve hdecl hparts
    · exact hd.parts entry hentry
  | .portType (some name) operations =>
    obtain rfl := Except.ok.inj h
    refine ⟨hd.parts, fun entry hentry => ?_⟩
    rcases mem_of_mem_set hentry with heq | hentry
    · rw [heq]
      exact hdecl
    · exact hd.operations entry hentry
  | .binding (some name) binding =>
    obtain rfl := Except.ok.inj h
    exact ⟨hd.parts, hd.operations⟩

/-- The definitions of a document have the names that the document gives. -/
theorem hasNames_of_readDescription (h : ∀ name ∈ givenNames root, P name)
    {description : Description} (hread : readDescription root = .ok description) {d : Definitions}
    (hd : Definitions.ofDescription description = .ok d) : d.HasNames P := by
  rw [readDescription] at hread
  split at hread
  · obtain rfl := Except.ok.inj hread
    have hempty : Definitions.HasNames ⟨root.attribute? "targetNamespace", [], [], []⟩ P :=
      ⟨List.forall_mem_nil _, List.forall_mem_nil _⟩
    refine foldlM_keeps (I := (Definitions.HasNames · P)) (fun decl hdecl _ _ hd hadd => ?_)
      hempty hd
    obtain ⟨e, he, hread⟩ := List.mem_filterMap.mp hdecl
    exact Definitions.hasNames_add hd (isNamed_readDeclaration h he hread) hadd
  · cases hread

/-! ## Names in models -/

/-- A model in which all names of elements of requests meet a condition. -/
structure IsNamed (m : ServiceModel) (P : String → Prop) : Prop where
  operations : ∀ service ∈ m.services, ∀ op ∈ service.operations, HasNames op P
  fields : ∀ t ∈ m.types, ∀ field ∈ t.fields, P field.name

/-- The fields of a type that is found have such names. -/
theorem IsNamed.name_of_complexType? (h : IsNamed m P) {typeName : String} {t : ComplexType}
    (ht : m.complexType? typeName = some t) : ∀ field ∈ t.fields, P field.name :=
  h.fields t (List.mem_of_find?_eq_some ht)

/-- The model of a document has the names that the document gives. -/
theorem isNamed_of_modelOf (hnames : ∀ name ∈ givenNames root, P name)
    (h : modelOf root = .ok m) : IsNamed m P := by
  obtain ⟨I⟩ := exists_interpretation h
  have hc : I.components.IsNamed P :=
    Components.isNamed_of_ofSchemas I.gathered fun name hname =>
      hnames name (List.mem_append_right _ hname)
  have hd := hasNames_of_readDescription hnames I.read I.defined
  constructor
  · have hkeeps := (interpret_upholds I.consistent hc hd I.description.services).2
    rw [I.resolved] at hkeeps
    obtain ⟨r, -, -, -, hbound⟩ := hkeeps
    exact fun service hservice op hop => (hbound service hservice op hop).2
  · intro t ht
    have hname : t.name ∈ m.typeNames := List.mem_map.mpr ⟨t, ht, rfl⟩
    obtain ⟨key, hkey⟩ := I.exists_mem_register hname
    exact name_of_isRegistered hc I.registered hkey
      (I.fields?_eq_some_iff.mpr (I.complexType?_of_mem ht))

end SoapClient.Wsdl
