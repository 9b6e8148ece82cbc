import SoapClient.Proofs.Schema.FieldNames
import SoapClient.Proofs.Wsdl.Flattening

/-!
# Distinct names of fields

The fields of a type have different names where no two sources of fields in its element give the
same name. A derivation gives the names that are inherited by it, be it an extension or a
restriction: a restriction that lists the elements again that it keeps gives their names twice
(`names_repeated_by_restriction`). Main statement: `nodup_fields_iff_of_modelOf`.
-/

namespace SoapClient.Wsdl

open Xml (Element QName)
open Schema

variable {root : Element} {m : ServiceModel}

namespace Interpretation

/-- The names that a source of fields gives to a type: a particle its own one, and a derivation
those of the fields that are inherited by it. -/
inductive GivesNames (I : Interpretation root m) (t : ComplexType) :
    FieldSource → List String → Prop
  | particle {groups : List Element} {e : Element} {name : String} :
    particleName? e = some name → GivesNames I t (.particle groups e) [name]
  | inherited {e : Element} {b : ComplexType} :
    I.Inherits t e b → GivesNames I t (.derivation e) (b.fields.map (·.name))
  | nothing {e : Element} : (∀ b, ¬ I.Inherits t e b) → GivesNames I t (.derivation e) []

/-- No two sources of fields in an element give a type the same name: no particle has the name of
another one or of an inherited field, and no two derivations inherit fields of one name. -/
def NamesOnce (I : Interpretation root m) (t : ComplexType) (node : Element) : Prop :=
  (fieldSources node).Pairwise fun source source' =>
    ∀ names names', I.GivesNames t source names → I.GivesNames t source' names' →
      names.Disjoint names'

/-- Fields are inherited from one type at most by a derivation. -/
theorem Inherits.unique {I : Interpretation root m} {t b b' : ComplexType} {e : Element}
    (h : I.Inherits t e b) (h' : I.Inherits t e b') : b = b' := by
  obtain ⟨_, y, base, -, hy, hb, hbase, hμ, -⟩ := h
  obtain ⟨_, y', base', -, hy', hb', hbase', hμ', -⟩ := h'
  cases hbase.symm.trans hbase'
  cases hμ.unique hμ'
  have hname := I.registered.name_unique hy hy'
  have hfound := I.complexType?_of_mem hb
  rw [hname] at hfound
  exact Option.some.inj (hfound.symm.trans (I.complexType?_of_mem hb'))

theorem GivesNames.unique {I : Interpretation root m} {t : ComplexType} {source : FieldSource}
    {names names' : List String} (h : I.GivesNames t source names)
    (h' : I.GivesNames t source names') : names = names' := by
  cases h with
  | particle hname =>
    cases h' with
    | particle hname' => rw [Option.some.inj (hname.symm.trans hname')]
  | inherited hinherits =>
    cases h' with
    | inherited hinherits' => rw [hinherits.unique hinherits']
    | nothing hnone => exact absurd hinherits (hnone _)
  | nothing hnone =>
    cases h' with
    | inherited hinherits' => exact absurd hinherits' (hnone _)
    | nothing => rfl

/-- The names of the fields of a type are those that the sources in its element give. -/
theorem spreads_names (I : Interpretation root m) {t : ComplexType} (ht : t ∈ m.types)
    {node : Element} (hnode : I.DeclaredBy t node) :
    Spreads (I.GivesNames t) (fieldSources node) (t.fields.map (·.name)) := by
  obtain ⟨key, path, hkey, hdecl⟩ := hnode
  refine (I.spreads_fields ht hkey hdecl).map_of_mem _ fun source _ chunk hchunk => ?_
  match source with
  | .particle groups e =>
    cases hchunk with
    | particle hname _ => exact .particle hname
  | .derivation e =>
    rcases hchunk.of_derivation hkey with ⟨b, hinherits, rfl⟩ | ⟨rfl, hnone⟩
    · exact .inherited hinherits
    · exact .nothing hnone

/-- The fields of a type have different names where those that it inherits have, and no two sources
give the same name. -/
theorem nodup_names_iff (I : Interpretation root m) {t : ComplexType} (ht : t ∈ m.types)
    {node : Element} (hnode : I.DeclaredBy t node) :
    (t.fields.map (·.name)).Nodup ↔
      (∀ source ∈ fieldSources node, ∀ names, I.GivesNames t source names → names.Nodup) ∧
        I.NamesOnce t node :=
  (I.spreads_names ht hnode).nodup_iff fun _ _ _ h h' => h.unique h'

/-- Where no two sources of fields give the same name in any type, the fields of all types have
different names. -/
theorem nodup_names (I : Interpretation root m)
    (h : ∀ t ∈ m.types, ∀ node, I.DeclaredBy t node → I.NamesOnce t node) {key : TypeKey}
    {t : ComplexType} (ht : t ∈ m.types) (hkey : (key, t.name) ∈ I.register) :
    (t.fields.map (·.name)).Nodup := by
  -- what a type inherits are the fields of one that gives it fields
  induction hk : (⟨key, Register.mem_keys_of_mem hkey⟩ : {key // key ∈ I.register.keys})
    using (wellFounded_givesFields I.components I.register).induction generalizing key t with
  | h k ih =>
  subst hk
  obtain ⟨node, -, -, hnode⟩ := I.exists_declaredBy ht
  refine (I.nodup_names_iff ht hnode).mpr ⟨fun source hsource names hnames => ?_, h t ht node hnode⟩
  cases hnames with
  | particle => exact List.nodup_singleton _
  | nothing => exact List.nodup_nil
  | @inherited e b hinherits =>
    obtain ⟨x, y, base, hx, hy, hb, hbase, hμ, hearly⟩ := hinherits
    obtain ⟨x', path, hx', hdecl⟩ := hnode
    -- the type, its element and the derivation are known under one key
    obtain rfl := I.registered.key_unique hkey hx
    obtain rfl := I.registered.key_unique hkey hx'
    obtain ⟨content, hcontent⟩ := I.registered.declared key t.name hkey
    have hread := I.consistent.declares_unique hdecl hcontent
    have hrefers := Components.refers_of_derivation hcontent hread hsource hbase hμ
    exact ih ⟨y, Register.mem_keys_of_mem hy⟩ ⟨hrefers, hearly⟩ hb hy rfl

end Interpretation

/-- Every type of a model is declared by an element of the document. The fields of all types have
different names exactly where in no such element two sources of fields give the same name: then a
field is the one that is found under its name. -/
theorem nodup_fields_iff_of_modelOf (h : modelOf root = .ok m) :
    ∃ I : Interpretation root m,
      (∀ t ∈ m.types, ∃ node, IsInside root node ∧
        node.is Schema.namespaceName "complexType" ∧ I.DeclaredBy t node) ∧
      ((∀ t ∈ m.types, (t.fields.map (·.name)).Nodup) ↔
        ∀ t ∈ m.types, ∀ node, I.DeclaredBy t node → I.NamesOnce t node) ∧
      ∀ t ∈ m.types, (t.fields.map (·.name)).Nodup →
        ∀ field ∈ t.fields, t.field? field.name = some field := by
  obtain ⟨I⟩ := exists_interpretation h
  refine ⟨I, fun t ht => I.exists_declaredBy ht, ⟨?once, ?nodup⟩, ?found⟩
  case once => exact fun hnodup t ht node hnode => ((I.nodup_names_iff ht hnode).mp (hnodup t ht)).2
  case nodup =>
    intro honce t ht
    obtain ⟨key, hkey⟩ := I.exists_mem_register (List.mem_map.mpr ⟨t, ht, rfl⟩)
    exact I.nodup_names honce ht hkey
  case found => exact fun t _ hnodup field hfield => find?_of_nodup hnodup hfield

/-- In the model in which `Derived` has the field of its base and its own one, the two have
different names, since in no element two sources of fields give the same name. -/
theorem nodup_fields_iff_of_modelOf_derivedFirst :
    modelOf derivedFirstDocument = .ok derivedFirstModel ∧
      ∃ I : Interpretation derivedFirstDocument derivedFirstModel,
        (∀ t ∈ derivedFirstModel.types, ∀ node, I.DeclaredBy t node → I.NamesOnce t node) ∧
        ∀ t ∈ derivedFirstModel.types, ∀ field ∈ t.fields, t.field? field.name = some field := by
  have hmodel : modelOf derivedFirstDocument = .ok derivedFirstModel := by decide +kernel
  have hnodup : ∀ t ∈ derivedFirstModel.types, (t.fields.map (·.name)).Nodup := by decide
  obtain ⟨I, -, hiff, hfound⟩ := nodup_fields_iff_of_modelOf hmodel
  exact ⟨hmodel, I, hiff.mp hnodup, fun t ht => hfound t ht (hnodup t ht)⟩

/-- A particle. -/
def keptElement : Element := xsd "element" [("name", "size"), ("type", "xsd:int")] []

/-- A group of this particle. -/
def keptGroup : Element := xsd "sequence" [] [keptElement]

/-- A type with this group. -/
def wideElement : Element := xsd "complexType" [("name", "Wide")] [keptGroup]

/-- A restriction of this type, in which the element is listed again that it keeps. -/
def keepingElement : Element := xsd "restriction" [("base", "t:Wide")] [keptGroup]

/-- A type that is derived by this restriction. -/
def narrowElement : Element :=
  xsd "complexType" [("name", "Narrow")] [xsd "complexContent" [] [keepingElement]]

/-- A restriction gives the fields of its base, and then those of the elements that it keeps: in a
document in which no content names an element twice, and nothing is extended, a type has two fields
of one name. -/
theorem names_repeated_by_restriction :
    fieldSources wideElement = [.particle [keptGroup] keptElement] ∧
      fieldSources narrowElement =
        [.derivation keepingElement, .particle [keptGroup] keptElement] ∧
      modelOf (smallDocument [wideElement, narrowElement] []) =
        .ok ⟨some "urn:t", [],
          [⟨"Wide", [⟨"size", .primitive .int, false⟩]⟩,
           ⟨"Narrow", [⟨"size", .primitive .int, false⟩, ⟨"size", .primitive .int, false⟩]⟩]⟩ := by
  refine ⟨?wide, ?narrow, by decide +kernel⟩
  case wide =>
    simp [fieldSources, wideElement, keptGroup, keptElement, xsd, smallElement, sourcesOfAll,
      sourcesOf]
  case narrow =>
    simp [fieldSources, narrowElement, keepingElement, keptGroup, keptElement, xsd, smallElement,
      sourcesOfAll, sourcesOf, sourcesOfDerivations, sourcesInside]

end SoapClient.Wsdl
