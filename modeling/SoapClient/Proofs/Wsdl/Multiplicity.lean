import SoapClient.Proofs.Wsdl.Flattening

/-!
# Elements that may repeat

The field of a particle is an array where the particle itself may occur more than once. Whether a
group around the particle may, is of no account to the field: it is not an array for that
(`arrays_lost_in_group`). Main statement: `arrays_of_modelOf`.
-/

namespace SoapClient.Wsdl

open Xml (Element)
open Schema

variable {root : Element} {m : ServiceModel}

/-- Whether an element says of itself that it may occur more than once: without a bound, or up to a
number above one that is read as such. -/
def MayRepeat (e : Element) : Prop :=
  ∃ bound, e.attribute? "maxOccurs" = some bound ∧
    (bound = "unbounded" ∨ ∃ n, Decimal.Range.nat64.read? bound.toList = some n ∧ 1 < n)

theorem isRepeated_occurrenceOf_iff {e : Element} :
    (occurrenceOf e).isRepeated = true ↔ MayRepeat e := by
  rw [occurrenceOf, MayRepeat]
  cases e.attribute? "maxOccurs" with
  | none => simp
  | some bound =>
    simp only [Bool.or_eq_true, decide_eq_true_eq, Option.some.injEq, exists_eq_left']
    cases Decimal.Range.nat64.read? bound.toList <;> simp

/-- What a source of fields gives, as far as arrays go: a particle one field, which is an array
where the particle may repeat, and a derivation the fields of another type or none. -/
inductive GivesArrays (m : ServiceModel) : FieldSource → List Parameter → Prop
  | particle {groups : List Element} {e : Element} {field : Parameter} :
    particleName? e = some field.name → ((∃ item, field.type = .array item) ↔ MayRepeat e) →
      GivesArrays m (.particle groups e) [field]
  | inherited {e : Element} {b : ComplexType} : b ∈ m.types →
    GivesArrays m (.derivation e) b.fields
  | nothing {e : Element} : GivesArrays m (.derivation e) []

/-- The type of a field is an array where its particle may repeat. -/
theorem exists_array_fieldOf_iff {e : Element} {isForced : Bool} {name : String} {t : TypeRef}
    (ht : ∀ item, t ≠ .array item) :
    (∃ item, (fieldOf (occurrenceOf e) isForced name t).type = .array item) ↔ MayRepeat e := by
  rw [← isRepeated_occurrenceOf_iff, fieldOf]
  cases (occurrenceOf e).isRepeated with
  | true => simp
  | false => simpa using ht

theorem Interpretation.Gives.givesArrays {I : Interpretation root m} {x : TypeKey}
    {source : FieldSource} {chunk : List Parameter} (h : I.Gives x source chunk)
    {t : ComplexType} (hkey : (x, t.name) ∈ I.register) : GivesArrays m source chunk := by
  match source with
  | .particle groups e =>
    cases h with
    | particle hname ht => exact .particle hname (exists_array_fieldOf_iff ht)
  | .derivation e =>
    rcases h.of_derivation hkey with ⟨b, hinherits, rfl⟩ | ⟨rfl, -⟩
    · obtain ⟨_, _, _, -, -, hb, -⟩ := hinherits
      exact .inherited hb
    · exact .nothing

/-- Every type of a model is declared by an element of the document, and the fields of the type are
given by the particles and the derivations in it: the field of a particle is an array exactly where
the particle itself may repeat, whatever groups stand around it, and what is inherited are the
fields of another type of the model. -/
theorem arrays_of_modelOf (h : modelOf root = .ok m) :
    ∃ I : Interpretation root m,
      (∀ t ∈ m.types, ∃ node, IsInside root node ∧
        node.is Schema.namespaceName "complexType" ∧ I.DeclaredBy t node) ∧
      ∀ t ∈ m.types, ∀ node, I.DeclaredBy t node →
        Spreads (GivesArrays m) (fieldSources node) t.fields := by
  obtain ⟨I⟩ := exists_interpretation h
  refine ⟨I, fun t ht => I.exists_declaredBy ht, ?_⟩
  rintro t ht node ⟨key, path, hkey, hdecl⟩
  refine (I.spreads_fields ht hkey hdecl).imp_of_mem fun source _ chunk hchunk => ?_
  exact hchunk.givesArrays hkey

/-- In the type with particles in groups the one that may repeat is an array. -/
theorem arrays_of_modelOf_orderDocument :
    modelOf orderDocument = .ok orderModel ∧
      Spreads (GivesArrays orderModel) (fieldSources orderElement) orderFields := by
  have hmodel : modelOf orderDocument = .ok orderModel := by decide +kernel
  obtain ⟨I, -, harrays⟩ := arrays_of_modelOf hmodel
  exact ⟨hmodel, harrays _ List.mem_cons_self _ I.declaredBy_orderElement⟩

/-- A particle of a single value. -/
def sizeElement : Element := xsd "element" [("name", "size"), ("type", "xsd:int")] []

/-- A group that may repeat with this particle. -/
def sizesGroup : Element := xsd "sequence" [("maxOccurs", "unbounded")] [sizeElement]

/-- A type with this group. -/
def sizesElement : Element := xsd "complexType" [("name", "Sizes")] [sizesGroup]

/-- A particle that stands in a group which may repeat is no array. -/
theorem arrays_lost_in_group :
    fieldSources sizesElement = [.particle [sizesGroup] sizeElement] ∧ MayRepeat sizesGroup ∧
      modelOf (smallDocument [sizesElement] []) =
        .ok ⟨some "urn:t", [], [⟨"Sizes", [⟨"size", .primitive .int, false⟩]⟩]⟩ :=
  ⟨by simp [fieldSources, sizesElement, sizesGroup, sizeElement, xsd, smallElement, sourcesOfAll,
      sourcesOf], ⟨"unbounded", rfl, .inl rfl⟩, by decide +kernel⟩

end SoapClient.Wsdl
