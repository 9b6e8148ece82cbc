import SoapClient.Proofs.Wsdl.TypeNames

/-!
# Fields that are inherited

A type that extends another one has the fields of its base, and behind them its own. The fields of
the base are copied when the content of the extension is collected, so they are complete unless the
content of the base is still being collected then. Main statement: `exists_fields_of_extends`, which
says exactly when fields are lost.
-/

namespace SoapClient.Schema.Components

open Xml (QName)

/-- A structured type extends a base: its content model is what it inherits, and the rows of its
own. -/
def Extends (c : Components) (x : TypeKey) (base : QName) (own : List Row) : Prop :=
  ∃ content, c.Declares x (.mk none content) ∧ rowsOfAll false content = .inherited base :: own

/-- Complex content with one derivation extends the base of it. -/
theorem extends_of_derived {c : Components} {x : TypeKey} {base : QName} {content : List Content}
    (h : c.Declares x (.mk none [.derived [(some (.to base), content)]])) :
    c.Extends x base (rowsOfAll false content) := by
  refine ⟨_, h, ?_⟩
  simp [rowsOfAll, Content.rows, rowsOfDerivations, rowsOfBase]

end SoapClient.Schema.Components

namespace SoapClient.Wsdl

open Xml (Element QName)
open Schema

variable {root : Element} {m : ServiceModel}

namespace Interpretation

/-- The fields that rows of a type are read into. -/
def Collects (I : Interpretation root m) (x : TypeKey) (rows : List Row)
    (fields : List Parameter) : Prop :=
  AreRead I.components I.register [] I.resolution x rows fields

/-- The content of a base is still being collected when that of another type is: the base leads to
the type by way of types that were entered from the base on. -/
def IsEarly (I : Interpretation root m) (b x : TypeKey) : Prop :=
  I.components.Leads (I.register.since b) b x

/-- An entered type is found with the fields that its rows were read into. -/
theorem exists_fields (I : Interpretation root m) {x : TypeKey} {name : String}
    {content : List Content} (h : (x, name) ∈ I.register)
    (hdecl : I.components.Declares x (.mk none content)) :
    ∃ fields, m.complexType? name = some ⟨name, fields⟩ ∧
      I.Collects x (rowsOfAll false content) fields := by
  obtain ⟨content', fields, hdecl', hread, hfields⟩ := I.hasRows h
  have heq := I.consistent.declares_unique hdecl hdecl'
  obtain rfl : content = content' := by injection heq
  exact ⟨fields, I.fields?_eq_some_iff.mp hfields, hread⟩

/-- What is inherited from a base: its fields, or none where the base is early. -/
theorem exists_inherited (I : Interpretation root m) {x b : TypeKey} {base : QName}
    {inherited : List Parameter}
    (hbase : I.components.StandsFor (.target (.type base)) (.structured b))
    (hread : Reads I.components I.register [] I.resolution x (.inherited base) inherited) :
    ∃ name fields, (b, name) ∈ I.register ∧ m.complexType? name = some ⟨name, fields⟩ ∧
      (I.IsEarly b x ∧ inherited = [] ∨ ¬ I.IsEarly b x ∧ inherited = fields) := by
  cases hread with
  | unstructured hμ => cases hμ.unique hbase
  | @complete _ b' name _ hμ hmem _ hno hfields =>
    obtain rfl : b' = b := by
      injection hμ.unique hbase
    exact ⟨name, inherited, hmem, I.fields?_eq_some_iff.mp hfields, .inr ⟨hno, rfl⟩⟩
  | @early _ b' hμ hkey hleads =>
    obtain rfl : b' = b := by
      injection hμ.unique hbase
    obtain ⟨name, hmem⟩ := Register.exists_mem_of_mem_keys hkey
    obtain ⟨content, hdecl⟩ := I.registered.declared _ name hmem
    obtain ⟨fields, ht, -⟩ := I.exists_fields hmem hdecl
    exact ⟨name, fields, hmem, ht, .inl ⟨hleads, rfl⟩⟩

end Interpretation

/-- A type that extends another one has the fields of its base and then its own ones, except where
the base is early for it and has fields: then it has its own ones only. -/
theorem exists_fields_of_extends (h : modelOf root = .ok m) :
    ∃ I : Interpretation root m, ∀ x xName base b own,
      (x, xName) ∈ I.register → I.components.Extends x base own →
      I.components.StandsFor (.target (.type base)) (.structured b) →
      ∃ xFields bName bFields ownFields,
        m.complexType? xName = some ⟨xName, xFields⟩ ∧
        (b, bName) ∈ I.register ∧ m.complexType? bName = some ⟨bName, bFields⟩ ∧
        I.Collects x own ownFields ∧
        (xFields = bFields ++ ownFields ↔ ¬ I.IsEarly b x ∨ bFields = []) ∧
        (I.IsEarly b x → xFields = ownFields) := by
  obtain ⟨I⟩ := exists_interpretation h
  refine ⟨I, ?_⟩
  rintro x xName base b own hx ⟨content, hdecl, hrows⟩ hbase
  obtain ⟨xFields, hxFields, chunks, hreads, rfl⟩ := I.exists_fields hx hdecl
  rw [hrows] at hreads
  cases hreads with
  | @cons _ inherited _ ownChunks hfirst hown =>
    obtain ⟨bName, bFields, hb, hbFields, hinherited⟩ := I.exists_inherited hbase hfirst
    refine ⟨_, bName, bFields, ownChunks.flatten, hxFields, hb, hbFields, ⟨_, hown, rfl⟩, ?_⟩
    rcases hinherited with ⟨hearly, rfl⟩ | ⟨hearly, rfl⟩
    · simp [hearly, List.flatten_cons]
    · simp [hearly, List.flatten_cons]

/-! ## A base that refers to its extension -/

/-- A type `Base` of which a field is of the type `Derived`. -/
def baseElement : Element :=
  xsd "complexType" [("name", "Base")]
    [xsd "sequence" [] [xsd "element" [("name", "part"), ("type", "t:Derived")] []]]

/-- The type `Derived`, which extends `Base`. -/
def derivedElement : Element :=
  xsd "complexType" [("name", "Derived")]
    [xsd "complexContent" []
      [xsd "extension" [("base", "t:Base")]
        [xsd "sequence" [] [xsd "element" [("name", "size"), ("type", "xsd:int")] []]]]]

/-- What `Base` is declared as. -/
def baseDecl : ComplexDecl :=
  .mk none [.group ⟨false, false⟩
    [.element ⟨false, false⟩ (some "part") (.named (.to ⟨some "urn:t", "Derived"⟩))]]

/-- What `Derived` adds to its base. -/
def derivedContent : List Content :=
  [.group ⟨false, false⟩
    [.element ⟨false, false⟩ (some "size") (.named (.to ⟨some Schema.namespaceName, "int"⟩))]]

/-- What `Derived` is declared as. -/
def derivedDecl : ComplexDecl :=
  .mk none [.derived [(some (.to ⟨some "urn:t", "Base"⟩), derivedContent)]]

/-- A document that declares `Derived` and then its base. -/
def derivedFirstDocument : Element := smallDocument [derivedElement, baseElement] []

/-- A document that declares `Base` and then its extension. -/
def baseFirstDocument : Element := smallDocument [baseElement, derivedElement] []

/-- The model with `Derived` at the front, in which it has the field of its base. -/
def derivedFirstModel : ServiceModel where
  targetNamespace := some "urn:t"
  services := []
  types := [
    ⟨"Derived", [⟨"part", .complex "Derived", false⟩, ⟨"size", .primitive .int, false⟩]⟩,
    ⟨"Base", [⟨"part", .complex "Derived", false⟩]⟩]

/-- With `Derived` at the front the base is not early, and nothing is lost. -/
theorem exists_fields_of_extends_derivedFirst :
    ∃ I : Interpretation derivedFirstDocument derivedFirstModel,
      ¬ I.IsEarly (.named ⟨some "urn:t", "Base"⟩) (.named ⟨some "urn:t", "Derived"⟩) ∧
      ∃ baseFields ownFields,
        derivedFirstModel.complexType? "Derived" = some ⟨"Derived", baseFields ++ ownFields⟩ ∧
        derivedFirstModel.complexType? "Base" = some ⟨"Base", baseFields⟩ := by
  have hmodel : modelOf derivedFirstDocument = .ok derivedFirstModel := by decide +kernel
  have hdecls : typeDecls derivedFirstDocument =
      [(⟨some "urn:t", "Derived"⟩, derivedDecl), (⟨some "urn:t", "Base"⟩, baseDecl)] := by
    rfl
  obtain ⟨I, hfields⟩ := exists_fields_of_extends hmodel
  have hderived : I.components.Declares (.named ⟨some "urn:t", "Derived"⟩) derivedDecl :=
    I.declares_of_find? (by decide) (by rw [hdecls]; rfl)
  have hbase : I.components.Declares (.named ⟨some "urn:t", "Base"⟩) baseDecl :=
    I.declares_of_find? (by decide) (by rw [hdecls]; rfl)
  have hmemDerived : (.named ⟨some "urn:t", "Derived"⟩, "Derived") ∈ I.register :=
    I.mem_of_declares ⟨by decide, by rw [hdecls]; rfl⟩
  have hmemBase : (.named ⟨some "urn:t", "Base"⟩, "Base") ∈ I.register :=
    I.mem_of_declares ⟨by decide, by rw [hdecls]; rfl⟩
  have hregister : I.register =
      [(.named ⟨some "urn:t", "Derived"⟩, "Derived"), (.named ⟨some "urn:t", "Base"⟩, "Base")] :=
    I.register_eq rfl (by simp [hmemDerived, hmemBase])
  -- nothing is entered behind the base, so it leads to nothing but itself on the way
  have hearly :
      ¬ I.IsEarly (.named ⟨some "urn:t", "Base"⟩) (.named ⟨some "urn:t", "Derived"⟩) := by
    intro hleads
    have hsince : I.register.since (.named ⟨some "urn:t", "Base"⟩) =
        [.named ⟨some "urn:t", "Base"⟩] := by
      rw [hregister]
      decide
    have hmem := hleads.mem (Register.mem_since (Register.mem_keys_of_mem hmemBase))
    rw [hsince] at hmem
    exact absurd hmem (by decide)
  obtain ⟨xFields, bName, bFields, ownFields, hx, hb, hbFields, -, hiff, -⟩ :=
    hfields _ _ _ _ _ hmemDerived (Components.extends_of_derived hderived)
      (.complexType hbase .itself)
  obtain rfl := I.registered.name_unique hb hmemBase
  obtain rfl := hiff.mpr (.inl hearly)
  exact ⟨I, hearly, bFields, ownFields, hx, hbFields⟩

/-- The model with `Base` at the front, in which `Derived` lacks the field of its base. -/
def baseFirstModel : ServiceModel where
  targetNamespace := some "urn:t"
  services := []
  types := [
    ⟨"Base", [⟨"part", .complex "Derived", false⟩]⟩,
    ⟨"Derived", [⟨"size", .primitive .int, false⟩]⟩]

/-- With `Base` at the front its content is still being collected when that of `Derived` is, which
then has no more than its own field. -/
theorem fields_lost_baseFirst :
    typeDecls baseFirstDocument =
      [(⟨some "urn:t", "Base"⟩, baseDecl), (⟨some "urn:t", "Derived"⟩, derivedDecl)] ∧
    modelOf baseFirstDocument = .ok baseFirstModel :=
  ⟨rfl, by decide +kernel⟩

end SoapClient.Wsdl
