import SoapClient.Proofs.Value.Fitting

/-!
# Types whose values can be read from their texts

A value that goes over the wire comes back as text. The types here are those of which no value is
lost that way. What the check of a value against such a type says about the value is worked out
once, for arrays (`check_arr_eq_ok`) and for objects (`check_obj_eq_ok`).
-/

namespace SoapClient

open Outcome

/-- Whether the values of a kind can be told from their texts. A number with a fraction is rounded
on its way, and a value of any type does not say what it was. -/
def PrimitiveKind.isLegible : PrimitiveKind → Bool
  | .float | .double | .decimal | .anyType => false
  | _ => true

/-- Whether a type, without a look into structured types, has legible values. The items of an array
inside of another cannot be told apart. -/
def TypeRef.isLegible : TypeRef → Bool
  | .void => false
  | .primitive kind => kind.isLegible
  | .complex _ => true
  | .array (.array _) => false
  | .array item => item.isLegible

/-- Whether values of a type have items. -/
def TypeRef.isArray : TypeRef → Bool
  | .array _ => true
  | _ => false

namespace ServiceModel

/-- The types of the values that a value of a type may hold, at any depth. -/
inductive Holds (m : ServiceModel) : TypeRef → TypeRef → Prop
  | self (t : TypeRef) : Holds m t t
  | item {item t : TypeRef} : Holds m item t → Holds m (.array item) t
  | field {typeName : String} {c : ComplexType} {field : Parameter} {t : TypeRef} :
    m.complexType? typeName = some c → field ∈ c.fields → Holds m field.type t →
      Holds m (.complex typeName) t

/-- A structured type that is defined, and whose fields can stand in a tag. -/
def IsWritable (m : ServiceModel) (typeName : String) : Prop :=
  ∃ c, m.complexType? typeName = some c ∧ ∀ field ∈ c.fields, Xml.isNCName field.name

/-- A type with legible values only, whatever they hold. -/
def IsLegible (m : ServiceModel) (t : TypeRef) : Prop :=
  ∀ u, m.Holds t u → u.isLegible ∧ ∀ typeName, u = .complex typeName → m.IsWritable typeName

variable {m : ServiceModel} {t : TypeRef}

theorem IsLegible.self (h : m.IsLegible t) : t.isLegible := (h t (.self t)).1

theorem IsLegible.item {item : TypeRef} (h : m.IsLegible (.array item)) : m.IsLegible item :=
  fun u hu => h u (.item hu)

/-- An array that is legible has no arrays as items. -/
theorem IsLegible.not_isArray {item : TypeRef} (h : m.IsLegible (.array item)) :
    item.isArray = false := by
  have hself := h.self
  cases item with
  | array _ => exact absurd hself (by simp [TypeRef.isLegible])
  | _ => rfl

theorem IsLegible.field {typeName : String} {c : ComplexType} {field : Parameter}
    (h : m.IsLegible (.complex typeName)) (hc : m.complexType? typeName = some c)
    (hfield : field ∈ c.fields) : m.IsLegible field.type :=
  fun u hu => h u (.field hc hfield hu)

/-- Types are legible where they are so by themselves and hold nothing but each other. -/
theorem isLegible_of_mem (ts : List TypeRef)
    (h : ∀ t ∈ ts, t.isLegible ∧ (∀ item, t = .array item → item ∈ ts) ∧
      ∀ typeName, t = .complex typeName → ∃ c, m.complexType? typeName = some c ∧
        ∀ field ∈ c.fields, Xml.isNCName field.name ∧ field.type ∈ ts) (ht : t ∈ ts) :
    m.IsLegible t := by
  intro u hu
  induction hu with
  | self u =>
    obtain ⟨hself, -, hcomplex⟩ := h u ht
    refine ⟨hself, fun typeName heq => ?_⟩
    obtain ⟨c, hc, hfields⟩ := hcomplex typeName heq
    exact ⟨c, hc, fun field hfield => (hfields field hfield).1⟩
  | item _ ih => exact ih ((h _ ht).2.1 _ rfl)
  | field hc hfield _ ih =>
    obtain ⟨c', hc', hfields⟩ := (h _ ht).2.2 _ rfl
    obtain rfl := Option.some.inj (hc.symm.trans hc')
    exact ih (hfields _ hfield).2

end ServiceModel

variable {m : ServiceModel} {t : TypeRef} {isOptional : Bool} {path : Path}

/-! ## What the check says -/

/-- A scalar fits nothing but a kind that takes it. -/
theorem check_scalar_eq_ok {v : Json} (hv : checker m v = checkWhole v)
    (h : check m v t isOptional path = .ok ()) :
    ∃ kind, t = .primitive kind ∧ kind.accepts v = true := by
  rw [check, hv] at h
  exact exists_kind_of_checkWhole h

/-- Null does not fit a legible type where it has to be there. -/
theorem check_null_ne_ok (ht : t.isLegible) : check m .null t false path ≠ .ok () := by
  have hvoid : ¬ (t = .void ∨ t = .primitive .anyType) := by
    rintro (rfl | rfl)
    · exact absurd ht (by decide)
    · exact absurd ht (by decide)
  simp [check, checker, checkNull, hvoid]

/-- No legible kind takes a value that has parts. -/
theorem PrimitiveKind.accepts_eq_false {kind : PrimitiveKind} (h : kind.isLegible) {v : Json}
    (hv : v.kind = .array ∨ v.kind = .object) : kind.accepts v = false := by
  cases kind <;> cases v <;> simp_all [PrimitiveKind.accepts, PrimitiveKind.isLegible, Json.kind]

/-- An array fits a legible type where this is one of arrays and every item fits. -/
theorem check_arr_eq_ok {items : List Json} (ht : m.IsLegible t)
    (h : check m (.arr items) t isOptional path = .ok ()) :
    ∃ item, t = .array item ∧ ∀ v ∈ items, ∃ place, check m v item false place = .ok () := by
  rw [check, checker] at h
  dsimp only at h
  split at h
  · exact ⟨_, rfl, checkItems_eq_ok h⟩
  · obtain ⟨kind, rfl, haccepts⟩ := exists_kind_of_checkWhole h
    rw [kind.accepts_eq_false ht.self (.inl rfl)] at haccepts
    cases haccepts

/-- An object fits a legible type where this is a structured one that declares every member, and
each member fits its field. -/
theorem check_obj_eq_ok {members : List (String × Json)} (ht : m.IsLegible t)
    (hnames : (members.map (·.1)).Nodup)
    (h : check m (.obj members) t isOptional path = .ok ()) :
    ∃ typeName c, t = .complex typeName ∧ m.complexType? typeName = some c ∧
      ∀ member ∈ members, ∃ field, c.field? member.1 = some field ∧
        ∃ place, check m member.2 field.type field.isOptional place = .ok () := by
  cases t with
  | complex typeName =>
    obtain ⟨c, hc, hmembers⟩ := exists_field_of_fits hnames (fits_of_check h)
    refine ⟨typeName, c, rfl, hc, fun member hmember => ?_⟩
    obtain ⟨field, hfield, hfits⟩ := hmembers member hmember
    exact ⟨field, hfield, path, hfits path⟩
  | _ =>
    rw [check, checker] at h
    obtain ⟨kind, hkind, haccepts⟩ := exists_kind_of_checkWhole h
    rw [hkind] at ht
    rw [kind.accepts_eq_false ht.self (.inr rfl)] at haccepts
    cases haccepts

/-- What a value of a type holds is of a type that the type holds. -/
theorem ServiceModel.HoldsValue.holds {v w : Json} {u : TypeRef} (h : m.HoldsValue v t w u) :
    m.Holds t u := by
  induction h with
  | self => exact .self _
  | item _ _ ih => exact .item ih
  | member hc _ hfield _ ih => exact .field hc (ComplexType.mem_of_field? hfield).1 ih

/-- The members of a value that fits a legible type can stand in tags. -/
theorem hasNCNames_of_check {v : Json} (ht : m.IsLegible t)
    (hnames : v.Everywhere Json.HasDistinctNames) (h : check m v t isOptional path = .ok ()) :
    v.Everywhere Json.HasNCNames := by
  refine hasNCNames_of_fits (fits_of_check h) hnames ?_ ?_
  · intro w typeName c hw hc
    obtain ⟨c', hc', hnames⟩ := (ht _ hw.holds).2 typeName rfl
    obtain rfl := Option.some.inj (hc.symm.trans hc')
    exact hnames
  · exact fun w hw => absurd (ht _ hw.holds).1 (by decide)

end SoapClient
