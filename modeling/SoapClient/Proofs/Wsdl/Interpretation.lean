import SoapClient.Proofs.Model.Lookup
import SoapClient.Proofs.Schema.Gathering
import SoapClient.Proofs.Wsdl.Operation

/-!
# Interpretations of documents

A document that is accepted was interpreted: the declarations of its schemas were gathered, its
types were resolved and entered into a register, and its services were bound to them
(`exists_interpretation`). Whatever the document, no look-up of the fields of a type fails on the
way (`neverMisses_modelOf`), and the way ends (`interpretation_ends`).
-/

namespace SoapClient.Wsdl

open Outcome
open Xml (Element QName)
open Schema

variable {P : String → Prop} {root : Element} {m : ServiceModel} {c : Components}

/-- Resolves all types, and then binds the services to them. -/
def interpret (d : Definitions) (c : Components) (services : List ServiceDecl) :
    Resolve (List Service) := do
  resolveAll c
  bindServices d c [] services

/-- All types are resolved before a service is bound. -/
theorem interpret_eq (d : Definitions) (c : Components) (services : List ServiceDecl)
    (s : Resolution) :
    interpret d c services s = resolveAll c s >>= fun p => bindServices d c [] services p.2 := rfl

/-- The model of a description, step by step. -/
theorem model_eq (d : Description) :
    d.model = (do
      let definitions ← Definitions.ofDescription d
      let components ← Components.ofSchemas d.schemas
      let (services, resolution) ← interpret definitions components d.services Resolution.start
      .ok ⟨d.targetNamespace, services, resolution.types⟩) := rfl

/-- What is interpreted from types that can be told apart: all types are entered, and the services
refer to entered types only. What holds of the names that the declarations give holds of the names
in the services. -/
theorem interpret_upholds {d : Definitions} (hc : c.IsConsistent) (hn : c.IsNamed P)
    (hd : d.HasNames P) (services : List ServiceDecl) :
    Upholds c [] Resolution.start
      (fun r' _ bound => (∀ name ∈ c.typeNames, ∃ t, IsTypeOf c r' (.target (.type name)) t) ∧
        ∀ service ∈ bound, AreBound P r'.names service.operations)
      (interpret d c services Resolution.start) := by
  have htypes : Upholds c [] Resolution.start
      (fun r' _ _ => ∀ name ∈ c.typeNames, ∃ t, IsTypeOf c r' (.target (.type name)) t)
      (resolveAll c Resolution.start) := by
    rw [resolveAll_eq, firstRepeated?_eq_none_iff.mpr ⟨hc.localNames, by simp⟩]
    exact forM_enterType_upholds hc c.typeNames (.start c)
  refine Upholds.bind htypes ?_
  intro r₁ s₁ _ h₁ _ hnames
  -- what is bound then only adds to the register
  refine (bindServices_upholds hc hn hd h₁ [] services).mono ?_
  intro r₂ s₂ bound _ hgrows hbound
  refine ⟨fun name hname => ?_, hbound⟩
  obtain ⟨t, ht⟩ := hnames name hname
  exact ⟨t, ht.grow hgrows⟩

/-- The same, with nothing said about names. -/
theorem interpret_upholds_isClosed (d : Definitions) (hc : c.IsConsistent)
    (services : List ServiceDecl) :
    Upholds c [] Resolution.start
      (fun r' _ bound => (∀ name ∈ c.typeNames, ∃ t, IsTypeOf c r' (.target (.type name)) t) ∧
        ∀ service ∈ bound, ∀ op ∈ service.operations, op.IsClosed r'.names)
      (interpret d c services Resolution.start) := by
  have hupholds := interpret_upholds (P := fun _ => True) (d := d) hc
    (.of_forall fun _ => trivial) (.of_forall fun _ => trivial) services
  refine hupholds.mono fun _ _ bound _ _ hbound => ⟨hbound.1, fun service hservice op hop => ?_⟩
  exact (hbound.2 service hservice op hop).1

/-- Types that cannot be told apart by their local names are not resolved at all. -/
theorem interpret_of_repeated (d : Definitions) {name : String}
    (h : firstRepeated? [] c.localTypeNames = some name) (services : List ServiceDecl) :
    interpret d c services Resolution.start = .error (.ambiguousType name) := by
  rw [interpret_eq, resolveAll_eq, h]
  rfl

/-- How a document with a model was interpreted. -/
structure Interpretation (root : Element) (m : ServiceModel) where
  description : Description
  definitions : Definitions
  /-- What the schemas of the document declare. -/
  components : Components
  /-- The declarations that became types of the model. -/
  register : Register
  /-- The state in which all types were resolved and all services bound. -/
  resolution : Resolution
  read : readDescription root = .ok description
  defined : Definitions.ofDescription description = .ok definitions
  gathered : Components.ofSchemas (readSchemas root) = .ok components
  resolved : interpret definitions components description.services Resolution.start =
    .ok (m.services, resolution)
  types : m.types = resolution.types
  consistent : components.IsConsistent
  registered : IsRegistered components register [] resolution
  entered : ∀ name ∈ components.typeNames,
    ∃ t, IsTypeOf components register (.target (.type name)) t
  operations : ∀ service ∈ m.services, ∀ op ∈ service.operations, op.IsClosed register.names

/-- The description of a document has the schemas of the document. -/
theorem schemas_of_readDescription {description : Description}
    (h : readDescription root = .ok description) : description.schemas = readSchemas root := by
  rw [readDescription] at h
  split at h
  · rw [← Except.ok.inj h]
  · cases h

/-- A document that has a model was interpreted. -/
theorem exists_interpretation (h : modelOf root = .ok m) : Nonempty (Interpretation root m) := by
  rw [modelOf, bind_eq_ok_iff] at h
  obtain ⟨description, hread, h⟩ := h
  rw [model_eq, bind_eq_ok_iff] at h
  obtain ⟨definitions, hdefined, h⟩ := h
  rw [bind_eq_ok_iff] at h
  obtain ⟨c, hgathered, h⟩ := h
  rw [bind_eq_ok_iff] at h
  obtain ⟨⟨services, s⟩, hresolved, h⟩ := h
  obtain rfl := Except.ok.inj h
  rw [schemas_of_readDescription hread] at hgathered
  -- the types can be told apart, or they would not have been resolved
  cases hrepeated : firstRepeated? [] c.localTypeNames with
  | some name =>
    rw [interpret_of_repeated definitions hrepeated] at hresolved
    cases hresolved
  | none =>
    have hc := Components.isConsistent_of_ofSchemas hgathered hrepeated
    have hkeeps := (interpret_upholds_isClosed definitions hc description.services).2
    rw [hresolved] at hkeeps
    obtain ⟨r, hregistered, -, hentered, hoperations⟩ := hkeeps
    exact ⟨⟨description, definitions, c, r, s, hread, hdefined, hgathered, hresolved, rfl, hc,
      hregistered, hentered, hoperations⟩⟩

/-- A document is interpreted, or it is at fault. -/
theorem isAnswer_modelOf (root : Element) : IsAnswer (modelOf root) := by
  rw [modelOf]
  cases hread : readDescription root with
  | error e => exact .error (isAnswer_readDescription root e hread)
  | ok description =>
    rw [ok_bind, model_eq]
    refine .bind (Definitions.isAnswer_ofDescription description) fun definitions => ?_
    cases hgathered : Components.ofSchemas description.schemas with
    | error e => exact .error (isAnswer_ofSchemas _ e hgathered)
    | ok c =>
      rw [schemas_of_readDescription hread] at hgathered
      rw [ok_bind]
      refine .bind ?_ fun _ => .ok _
      cases hrepeated : firstRepeated? [] c.localTypeNames with
      | some name =>
        rw [interpret_of_repeated definitions hrepeated]
        exact .error rfl
      | none =>
        have hc := Components.isConsistent_of_ofSchemas hgathered hrepeated
        exact (interpret_upholds_isClosed definitions hc description.services).1

/-- No look-up of the fields of a type fails while a document is interpreted. -/
theorem neverMisses_modelOf (root : Element) : NeverMisses (modelOf root) :=
  (isAnswer_modelOf root).neverMisses

/-- Interpreting a document ends, whatever its declarations refer to. It fails on faults of the
document only. On every way from name to name there are at most `wayLength` names of it, a number
that the declarations of its schemas give, so resolving a name is its plain recursion: in place that
is a recursion on the declaration, and out of it no way goes on for ever. Likewise a chain of bases
is followed to its end, or to where it comes back, in as many steps as there are structured types
and one more. -/
theorem interpretation_ends (root : Element) :
    IsAnswer (modelOf root) ∧
    ∀ c, Components.ofSchemas (readSchemas root) = .ok c →
      WellFounded (fun call' call => ComesTo c call call') ∧
      (∀ calls, List.IsChain (ComesTo c) calls → calls.length ≤ c.wayLength) ∧
      (∀ target s, resolve c target s = resolveTarget c (resolve c) target s ∧
        resolve c target s ≠ .error .unfinished ∧
        ∀ n, c.wayLength ≤ n → resolveWithin c n target s = resolve c target s) ∧
      ∀ start name n, c.complexTypes.length < n →
        checkDerivation c start n [] name ≠ .error .unfinished ∧
        checkDerivation c start n [] name =
          checkDerivation c start (c.complexTypes.length + 1) [] name := by
  refine ⟨isAnswer_modelOf root, fun c _ => ⟨wellFounded_comesTo c, fun _ => length_le_of_comesTo,
    fun target s => ⟨resolve_eq c target s, resolve_ends c target s,
      fun _ hn => resolveWithin_eq c hn target s⟩, fun start name n hn => ?_⟩⟩
  have hanswer := isAnswer_checkDerivation c start name
  -- a number of steps is the least one that is enough and some more
  obtain ⟨more, rfl⟩ := Nat.exists_eq_add_of_le hn
  have heq := checkDerivation_eq c start name hanswer.ne_unfinished more
  refine ⟨?_, heq⟩
  rw [Nat.succ_eq_add_one, heq]
  exact hanswer.ne_unfinished

namespace Interpretation

/-- The types of the model are the entered ones, in the order of their entry. -/
theorem typeNames_eq (I : Interpretation root m) : m.typeNames = I.register.names := by
  rw [ServiceModel.typeNames, I.types, I.registered.types]

theorem nodup_typeNames (I : Interpretation root m) : m.typeNames.Nodup := by
  rw [I.typeNames_eq]
  exact I.registered.names

/-- The fields that a name is found to have are those of the type with the name. -/
theorem fields?_eq_some_iff (I : Interpretation root m) {name : String} {fields : List Parameter} :
    I.resolution.fields? name = some fields ↔ m.complexType? name = some ⟨name, fields⟩ := by
  rw [Resolution.fields?, Option.map_eq_some_iff, ServiceModel.complexType?, I.types]
  constructor
  · rintro ⟨t, ht, rfl⟩
    have hname : t.name = name := by simpa using List.find?_some ht
    rw [ht, ← hname]
  · exact fun ht => ⟨_, ht, rfl⟩

/-- Every type of the model is found under its name. -/
theorem complexType?_of_mem (I : Interpretation root m) {t : ComplexType} (ht : t ∈ m.types) :
    m.complexType? t.name = some t :=
  find?_of_nodup I.nodup_typeNames ht

/-- Every type of the model is that of a declaration. -/
theorem exists_mem_register (I : Interpretation root m) {name : String}
    (h : name ∈ m.typeNames) :
    ∃ key, (key, name) ∈ I.register := by
  rw [I.typeNames_eq] at h
  obtain ⟨⟨key, other⟩, hmem, rfl⟩ := List.mem_map.mp h
  exact ⟨key, hmem⟩

/-- The content of every entered type was collected. -/
theorem hasRows (I : Interpretation root m) {key : TypeKey} {name : String}
    (h : (key, name) ∈ I.register) :
    HasRows I.components I.register [] I.resolution key name :=
  I.registered.collected key name h List.not_mem_nil

/-- A model refers to its own types only. -/
theorem isClosed (I : Interpretation root m) : m.IsClosed where
  operations := by
    rw [I.typeNames_eq]
    exact I.operations
  types t ht := by
    have hname : t.name ∈ m.typeNames := List.mem_map.mpr ⟨t, ht, rfl⟩
    obtain ⟨key, hkey⟩ := I.exists_mem_register hname
    rw [I.typeNames_eq]
    exact I.registered.slots key t.name t.fields hkey
      (I.fields?_eq_some_iff.mpr (I.complexType?_of_mem ht))

end Interpretation

/-! ## Small documents -/

/-- An element of a small document, with the prefixes `xsd` and `t` in force. -/
def smallElement (namespaceName localName : String) (attributes : List (String × String))
    (children : List Element) : Element where
  namespaceName := some namespaceName
  localName := localName
  attributes := attributes
  scope := [("xsd", Schema.namespaceName), ("t", "urn:t")]
  children := children
  text := ""

/-- An element of the schema of a small document. -/
def xsd : String → List (String × String) → List Element → Element :=
  smallElement Schema.namespaceName

/-- A document with one schema. -/
def smallDocument (schema : List Element) (declarations : List Element) : Element :=
  smallElement namespaceName "definitions" [("targetNamespace", "urn:t")]
    (smallElement namespaceName "types" []
      [xsd "schema" [("targetNamespace", "urn:t")] schema] :: declarations)

end SoapClient.Wsdl
