import SoapClient.Proofs.Wsdl.Interpretation

/-!
# Names of the types of a model

The types of a model and the declarations that they come from belong together one by one: a
structured type at the top of a schema is in the model under its own local name, one that is
declared in place is there once at most, and no two declarations share a name
(`exists_register_of_modelOf`). Of the declarations of one qualified name the last one counts.
-/

namespace SoapClient.Wsdl

open Xml (Element QName)
open Schema

variable {root : Element} {m : ServiceModel}

/-- The structured types at the top of the schemas of a document, in order. -/
def typeDecls (root : Element) : List (QName × ComplexDecl) :=
  (readSchemas root).flatMap SchemaDecl.typeDecls

/-- The structured types that are declared in place in a document, with their paths. -/
def placesOf (root : Element) : List (List Nat × ComplexDecl) :=
  (readSchemas root).flatMap SchemaDecl.places

/-- A document declares a structured type without simple content: at the top of a schema, where the
last declaration of a name counts and the names of built-in types mean others, or in place. -/
def Declares (root : Element) : TypeKey → Prop
  | .named name => ¬ IsBuiltin name ∧
    (Table.find? name (typeDecls root).reverse).map ComplexDecl.simpleContent = some none
  | .inPlace path => ∃ decl, (path, decl) ∈ placesOf root ∧ decl.simpleContent = none

/-- A declaration without simple content is nothing but its content. -/
theorem exists_content {decl : ComplexDecl} (h : decl.simpleContent = none) :
    ∃ content, decl = .mk none content := by
  obtain ⟨_, content⟩ := decl
  obtain rfl := h
  exact ⟨content, rfl⟩

namespace Interpretation

/-- The last declaration of a name is the one that the name means. -/
theorem declares_of_find? (I : Interpretation root m) {name : QName} {decl : ComplexDecl}
    (hbuiltin : ¬ IsBuiltin name) (h : Table.find? name (typeDecls root).reverse = some decl) :
    I.components.Declares (.named name) decl := by
  refine ⟨hbuiltin, ?_⟩
  rw [Components.find?_complexTypes I.gathered]
  exact h

/-- What is entered into the register is declared in the document. -/
theorem declares_of_mem (I : Interpretation root m) {key : TypeKey} {name : String}
    (h : (key, name) ∈ I.register) : Declares root key := by
  obtain ⟨content, hdecl⟩ := I.registered.declared key name h
  cases key with
  | named typeName =>
    refine ⟨hdecl.1, ?_⟩
    rw [typeDecls, ← Components.find?_complexTypes I.gathered, hdecl.2]
    rfl
  | inPlace path => exact ⟨_, Components.places_subset_of_ofSchemas I.gathered hdecl, rfl⟩

/-- A type at the top of a schema is entered under its local name. -/
theorem mem_of_declares (I : Interpretation root m) {typeName : QName}
    (h : Declares root (.named typeName)) : (.named typeName, typeName.localName) ∈ I.register := by
  obtain ⟨hbuiltin, hlast⟩ := h
  obtain ⟨decl, hfind, hsimple⟩ := Option.map_eq_some_iff.mp hlast
  obtain ⟨content, rfl⟩ := exists_content hsimple
  have hdecl := I.declares_of_find? hbuiltin hfind
  -- the name was resolved, and it stands for this very declaration
  obtain ⟨t, μ, hμ, ht⟩ := I.entered typeName hdecl.mem_typeNames
  obtain rfl := hμ.unique (.complexType hdecl .itself)
  cases ht with
  | @structured _ name hmem =>
    obtain rfl : name = typeName.localName := I.registered.fitting _ _ hmem
    exact hmem

/-- A name in the model is there once. -/
theorem count_typeNames (I : Interpretation root m) {key : TypeKey} {name : String}
    (h : (key, name) ∈ I.register) : m.typeNames.count name = 1 := by
  refine List.count_eq_one_of_mem I.nodup_typeNames ?_
  rw [I.typeNames_eq]
  exact Register.mem_names_of_mem h

/-- Entries of the register that have the names of the model are all of it. -/
theorem register_eq (I : Interpretation root m) {entries : Register}
    (hnames : entries.names = m.typeNames) (hmem : ∀ e ∈ entries, e ∈ I.register) :
    I.register = entries :=
  (Register.eq_of_names_eq (hnames.trans I.typeNames_eq) I.registered.names hmem).symm

end Interpretation

/-- The types of a model are those of a register, in which neither a declaration nor a name comes
twice. It holds nothing but declarations of the document, and all that are at the top of a schema
under their local names. The types that are declared in place are told apart by their paths, and
the names they get are always free. -/
theorem exists_register_of_modelOf (h : modelOf root = .ok m) :
    (∃ I : Interpretation root m,
      I.register.names = m.typeNames ∧ m.typeNames.Nodup ∧
      (∀ key name name', (key, name) ∈ I.register → (key, name') ∈ I.register → name = name') ∧
      (∀ key key' name, (key, name) ∈ I.register → (key', name) ∈ I.register → key = key') ∧
      (∀ key name, (key, name) ∈ I.register → Declares root key) ∧
      ∀ typeName, Declares root (.named typeName) →
        (.named typeName, typeName.localName) ∈ I.register ∧
          m.typeNames.count typeName.localName = 1) ∧
    (pathsOf (placesOf root)).Nodup ∧
    ∀ (s : Resolution) (reserved : List String) (element : String),
      s.isTaken reserved (s.anonymousName reserved element) = false := by
  obtain ⟨I⟩ := exists_interpretation h
  refine ⟨⟨I, I.typeNames_eq.symm, I.nodup_typeNames, ?oneName, ?oneKey, ?declared, ?named⟩,
    nodup_paths_readSchemas root, Resolution.isTaken_anonymousName⟩
  case oneName => exact fun key name name' => I.registered.name_unique
  case oneKey => exact fun key key' name => I.registered.key_unique
  case declared => exact fun key name => I.declares_of_mem
  case named =>
    intro typeName hdeclares
    have hmem := I.mem_of_declares hdeclares
    exact ⟨hmem, I.count_typeNames hmem⟩

/-- A document with a type `Box` that is met in place before it is met by its name. -/
def boxDocument : Element :=
  smallDocument
    [xsd "complexType" [("name", "Crate")]
      [xsd "sequence" []
        [xsd "element" [("name", "Box")]
          [xsd "complexType" []
            [xsd "sequence" [] [xsd "element" [("name", "size"), ("type", "xsd:int")] []]]]]],
     xsd "complexType" [("name", "Box")]
      [xsd "sequence" [] [xsd "element" [("name", "label"), ("type", "xsd:string")] []]]]
    []

/-- The model of this document. -/
def boxModel : ServiceModel where
  targetNamespace := some "urn:t"
  services := []
  types := [
    ⟨"Crate", [⟨"Box", .complex "Crate.Box", false⟩]⟩,
    ⟨"Crate.Box", [⟨"size", .primitive .int, false⟩]⟩,
    ⟨"Box", [⟨"label", .primitive .string, false⟩]⟩]

/-- The type at the top of the schema keeps its name. -/
theorem exists_register_of_modelOf_boxDocument :
    modelOf boxDocument = .ok boxModel ∧
      ∃ I : Interpretation boxDocument boxModel,
        (.named ⟨some "urn:t", "Box"⟩, "Box") ∈ I.register ∧
          boxModel.typeNames.count "Box" = 1 := by
  have hmodel : modelOf boxDocument = .ok boxModel := by decide +kernel
  obtain ⟨⟨I, -, -, -, -, -, hnamed⟩, -⟩ := exists_register_of_modelOf hmodel
  have hdeclares : Declares boxDocument (.named ⟨some "urn:t", "Box"⟩) :=
    ⟨by decide, by decide +kernel⟩
  exact ⟨hmodel, I, hnamed _ hdeclares⟩

/-- A document with two types of one name, of which the second one has simple content. -/
def redeclaringDocument : Element :=
  smallDocument
    [xsd "complexType" [("name", "A")] [],
     xsd "complexType" [("name", "A")] [xsd "simpleContent" [] []]]
    []

/-- A declaration that is followed by another one of its name need not be in the model. -/
theorem exists_declared_type_not_entered :
    ¬ ∀ root m, modelOf root = .ok m → ∀ d ∈ typeDecls root,
      d.2.simpleContent = none → ¬ IsBuiltin d.1 → m.typeNames.count d.1.localName = 1 := by
  intro hall
  have hmodel : modelOf redeclaringDocument = .ok ⟨some "urn:t", [], []⟩ := by decide +kernel
  have hdecls : (typeDecls redeclaringDocument).map (fun d => (d.1, d.2.simpleContent)) =
      [(⟨some "urn:t", "A"⟩, none), (⟨some "urn:t", "A"⟩, some none)] := by decide +kernel
  obtain ⟨d, hd, heq⟩ : ∃ d ∈ typeDecls redeclaringDocument,
      (d.1, d.2.simpleContent) = (⟨some "urn:t", "A"⟩, none) := by
    rw [← List.mem_map, hdecls]
    exact List.mem_cons_self
  obtain ⟨hname, hsimple⟩ := Prod.mk.inj heq
  have hcount := hall _ _ hmodel d hd hsimple (by rw [hname]; decide)
  exact absurd hcount (by simp [ServiceModel.typeNames])

end SoapClient.Wsdl
