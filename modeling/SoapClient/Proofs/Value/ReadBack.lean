import SoapClient.Value.Coerce
import SoapClient.Proofs.Decimal.Reading
import SoapClient.Proofs.Envelope.Erasure
import SoapClient.Proofs.Value.Coercion
import SoapClient.Proofs.Value.Legible
import SoapClient.Proofs.Xml.Grouping

/-!
# Values that are read back

The occurrences of a value carry no types. Main statement: read as one of its type, what the
occurrences say is the value again (`coerceAt_ofGroup_occurrences`), unless it holds an array of
which the occurrences do not say enough (`Json.IsTold`).
-/

namespace SoapClient

open Outcome Envelope
open Xml (ofGroup)

/-! ## Texts of scalars -/

theorem readBoolean?_boolText (flag : Bool) :
    readBoolean? (Json.boolText flag) = some (.bool flag) := by
  cases flag <;> rfl

theorem isBlankText_boolText (flag : Bool) : Text.isBlankText (Json.boolText flag) = false := by
  cases flag <;> rfl

theorem isBlankText_wholeText (n : Json.Whole) : Text.isBlankText (Json.wholeText n) = false := by
  obtain ⟨c, cs, hcs⟩ := List.exists_cons_of_ne_nil (Decimal.intText_ne_nil n.value)
  have hc : c ∈ (Decimal.intText n.value).toList := by
    rw [hcs]
    exact List.mem_cons_self
  rw [Text.isBlankText, Json.wholeText, hcs, List.all_cons, Decimal.not_isBlank_of_mem_intText hc,
    Bool.false_and]

/-- The text of a whole number is read as the number where one of the ranges holds it. -/
theorem readWhole?_wholeText {ranges : List Decimal.Range} {n : Json.Whole}
    (h : ∃ r ∈ ranges, r.holds n.value = true) :
    readWhole? ranges (Json.wholeText n) = some (.whole n) := by
  have htrim : Text.trimChars (Decimal.intText n.value).toList = (Decimal.intText n.value).toList :=
    Text.trimChars_of_not_isBlank fun c hc => Decimal.not_isBlank_of_mem_intText hc
  have hfind : ranges.findSome? (·.read? (Decimal.intText n.value).toList) = some n.value := by
    obtain ⟨r, hr, hholds⟩ := h
    induction ranges with
    | nil => cases hr
    | cons r' ranges ih =>
      rw [List.findSome?_cons, r'.read?_intText]
      by_cases hholds' : r'.holds n.value = true
      · rw [if_pos hholds']
      · rw [if_neg hholds']
        rcases List.mem_cons.mp hr with rfl | hr
        · exact absurd hholds hholds'
        · exact ih hr
  have hwhole : Json.ofInt? n.value = some (.whole n) := by
    rw [Json.ofInt?, Json.Whole.ofInt?, dif_pos ⟨n.lower, n.upper⟩]
    rfl
  rw [readWhole?, Json.wholeText, htrim, hfind, Option.bind_some, hwhole]

/-- A whole number of 64 bits is a signed or an unsigned one. -/
theorem Json.Whole.holds (n : Json.Whole) :
    ∃ r ∈ [Decimal.Range.int64, Decimal.Range.nat64], r.holds n.value = true := by
  obtain ⟨value, hlower, hupper⟩ := n
  by_cases h : value ≤ Decimal.Range.int64.greatest
  · exact ⟨.int64, List.mem_cons_self, by simp [Decimal.Range.holds, hlower, h]⟩
  · have hpositive : Decimal.Range.nat64.least ≤ value := by
      simp only [Decimal.Range.int64, Decimal.Range.nat64] at h ⊢
      omega
    exact ⟨.nat64, by simp, by simp [Decimal.Range.holds, hpositive, hupper]⟩

/-- A value that a legible kind takes has one occurrence, and this is a text that the kind reads as
the value. -/
theorem PrimitiveKind.exists_readText? {kind : PrimitiveKind} (hkind : kind.isLegible) {v : Json}
    (hv : kind.accepts v = true) :
    ∃ s, occurrences v = [.str s] ∧ kind.readText? s = some v := by
  cases v with
  | bool flag =>
    have hboolean : kind = .boolean := by
      cases kind <;> simp_all [PrimitiveKind.accepts, PrimitiveKind.isLegible]
    subst hboolean
    exact ⟨_, rfl, readBoolean?_boolText flag⟩
  | whole n =>
    refine ⟨_, rfl, ?_⟩
    have hnumber : kind = .int ∨ kind = .long := by
      cases kind <;> simp_all [PrimitiveKind.accepts, PrimitiveKind.isLegible]
    rcases hnumber with rfl | rfl
    · exact readWhole?_wholeText ⟨.int32, List.mem_cons_self, hv⟩
    · exact readWhole?_wholeText n.holds
  | str s =>
    refine ⟨s, rfl, ?_⟩
    cases kind <;> simp_all [PrimitiveKind.accepts, PrimitiveKind.isLegible,
      PrimitiveKind.readText?]
  | _ => cases kind <;> simp_all [PrimitiveKind.accepts, PrimitiveKind.isLegible]

/-! ## What occurrences tell -/

/-- Whether the occurrences of an array tell its items: there is one at least, and one alone is
neither an empty object nor a text of blanks, of which the empty one is one. -/
def Json.IsTold : Json → Prop
  | .arr [] => False
  | .arr [.str s] => Text.isBlankText s = false
  | .arr [.obj []] => False
  | _ => True

theorem itemOccurrences_ne_nil {items : List Json} (hitems : items ≠ [])
    (h : ∀ v ∈ items, occurrences v ≠ []) : itemOccurrences items ≠ [] := by
  obtain ⟨v, rest, rfl⟩ := List.exists_cons_of_ne_nil hitems
  rw [itemOccurrences]
  exact List.append_ne_nil_of_left_ne_nil (h v List.mem_cons_self) _

/-- A value without empty arrays occurs. -/
theorem occurrences_ne_nil {v : Json} (h : v.Everywhere Json.IsTold) : occurrences v ≠ [] := by
  induction v using Json.inductionOn with
  | arr items ih =>
    rw [Json.everywhere_arr] at h
    have hitems : items ≠ [] := by
      rintro rfl
      exact h.1
    exact itemOccurrences_ne_nil hitems fun v hv => ih v hv (h.2 v hv)
  | _ => exact List.cons_ne_nil _ _

/-- A value that is no array has one occurrence. -/
theorem occurrences_eq_singleton {v : Json} (hv : v.kind ≠ .array) :
    occurrences v = [ofGroup (occurrences v)] := by
  cases v with
  | arr _ => exact absurd rfl hv
  | _ => rfl

/-- Items that are no arrays have one occurrence each. -/
theorem itemOccurrences_eq_map {items : List Json} (h : ∀ v ∈ items, v.kind ≠ .array) :
    itemOccurrences items = items.map fun v => ofGroup (occurrences v) := by
  induction items with
  | nil => rfl
  | cons v rest ih =>
    rw [List.forall_mem_cons] at h
    rw [itemOccurrences, occurrences_eq_singleton h.1, ih h.2, List.map_cons,
      List.singleton_append]

/-- Several occurrences form an array. -/
theorem ofGroup_of_two_le {vs : List Json} (h : 2 ≤ vs.length) : ofGroup vs = .arr vs := by
  match vs with
  | [] => rfl
  | [v] => exact absurd h (by simp)
  | _ :: _ :: _ => rfl

/-- What an object with members is read as. -/
theorem ofOccurrences_memberOccurrences {members : List (String × Json)} (hmembers : members ≠ [])
    (hnames : (members.map (·.1)).Nodup) (h : ∀ member ∈ members, occurrences member.2 ≠ []) :
    ofOccurrences (memberOccurrences members) =
      .obj (members.map fun (name, v) => (name, ofGroup (occurrences v))) := by
  let groups : List (String × List Json) :=
    members.map fun member => (member.1, occurrences member.2)
  have hgroups : memberOccurrences members =
      groups.flatMap fun group => group.2.map (group.1, ·) := by
    rw [memberOccurrences_eq, List.flatMap_map]
  have hgroup : Xml.groupByName (memberOccurrences members) = groups := by
    rw [hgroups]
    refine Xml.groupByName_flatMap ?_ ?_
    · rw [List.map_map]
      exact hnames
    · intro group hgroup
      obtain ⟨member, hmember, rfl⟩ := List.mem_map.mp hgroup
      exact h member hmember
  have hoccurs : memberOccurrences members ≠ [] := by
    obtain ⟨member, rest, rfl⟩ := List.exists_cons_of_ne_nil hmembers
    have hfirst := h member List.mem_cons_self
    rw [memberOccurrences]
    exact List.append_ne_nil_of_left_ne_nil (by simpa using hfirst) _
  -- a member occurs, so that this is an object with members and not a text
  obtain ⟨o, os, hos⟩ := List.exists_cons_of_ne_nil hoccurs
  rw [hos, ofOccurrences, ← hos, hgroup, List.map_map]
  rfl

/-! ## Reading occurrences as values of a type -/

variable {m : ServiceModel} {t : TypeRef} {isOptional : Bool} {path : Path}

/-- A text is read as one of a primitive kind whether it is of blanks or not. -/
theorem coerceAt_str_primitive {kind : PrimitiveKind} {s : String} {v : Json}
    (h : kind.readText? s = some v) (path : Path) :
    coerceAt m (.str s) (.primitive kind) path = .ok v := by
  have hscalar : coerceScalar (.str s) (.primitive kind) path = .ok v := by
    rw [coerceScalar, coercePrimitive, h]
  have htext :
      coerceText s (.primitive kind) path = coerceScalar (.str s) (.primitive kind) path := by
    unfold coerceText
    split
    · rfl
    · rfl
  rw [coerceAt, htext, hscalar]

/-- Items that are read back one by one are read back as items of an array. -/
theorem coerceItems_map {item : TypeRef} {items : List Json} {f : Json → Json} (i : Nat)
    (h : ∀ v ∈ items, ∀ place, coerceAt m (f v) item place = .ok v) :
    coerceItems m item path i (items.map f) = .ok items := by
  induction items generalizing i with
  | nil => rfl
  | cons v rest ih =>
    have hrest := ih (i + 1) fun w hw => h w (List.mem_cons_of_mem v hw)
    rw [List.map_cons, coerceItems, h v List.mem_cons_self, ok_bind, hrest, ok_bind]

/-- Members that are read back one by one are read back as members of an object. -/
theorem coerceMembers_map {c : ComplexType} {members : List (String × Json)} {f : Json → Json}
    (h : ∀ member ∈ members, ∃ field, c.field? member.1 = some field ∧
      ∀ place, coerceAt m (f member.2) field.type place = .ok member.2) :
    coerceMembers m c path (members.map fun (name, v) => (name, f v)) = .ok members := by
  induction members with
  | nil => rfl
  | cons member rest ih =>
    obtain ⟨name, v⟩ := member
    obtain ⟨field, hfield, hread⟩ := h (name, v) List.mem_cons_self
    have hrest := ih fun other hother => h other (List.mem_cons_of_mem _ hother)
    rw [List.map_cons, coerceMembers]
    simp only [show c.field? name = some field from hfield]
    rw [hread, ok_bind, hrest, ok_bind]

/-- The occurrence of the only item of an array tells that there is an item. -/
theorem isItem_ofGroup_occurrences {v : Json} (ht : t.isLegible)
    (hv : check m v t false path = .ok ()) (harray : v.kind ≠ .array)
    (htold : (Json.arr [v]).IsTold) (hinside : v.Everywhere Json.IsTold)
    (hnames : v.Everywhere Json.HasDistinctNames) : (ofGroup (occurrences v)).IsItem := by
  cases v with
  | null => exact absurd hv (check_null_ne_ok ht)
  | bool flag => exact isBlankText_boolText flag
  | whole n => exact isBlankText_wholeText n
  | real x =>
    -- no legible kind takes a number with a fraction
    obtain ⟨kind, rfl, haccepts⟩ := check_scalar_eq_ok rfl hv
    obtain ⟨s, hs, -⟩ := kind.exists_readText? ht haccepts
    cases kind <;> simp_all [PrimitiveKind.accepts, TypeRef.isLegible, PrimitiveKind.isLegible]
  | str s => exact htold
  | arr _ => exact absurd rfl harray
  | obj members =>
    rw [Json.everywhere_obj] at hinside hnames
    have hmembers : members ≠ [] := by
      rintro rfl
      exact htold
    have hoccurs := fun member hmember => occurrences_ne_nil (hinside.2 member hmember)
    rw [occurrences, ofOccurrences_memberOccurrences hmembers hnames.1 hoccurs]
    exact trivial

/-- A scalar is one text, and this is read back. -/
theorem coerceAt_ofGroup_scalar {v : Json} (hv : checker m v = checkWhole v) (ht : t.isLegible)
    (h : check m v t isOptional path = .ok ()) (place : Path) :
    coerceAt m (ofGroup (occurrences v)) t place = .ok v := by
  obtain ⟨kind, rfl, haccepts⟩ := check_scalar_eq_ok hv h
  obtain ⟨s, hs, hread⟩ := kind.exists_readText? ht haccepts
  rw [hs, ofGroup]
  exact coerceAt_str_primitive hread place

/-- An array is read back where its items are. -/
theorem coerceAt_ofGroup_items {item : TypeRef} {items : List Json}
    (hitem : m.IsLegible (.array item))
    (hitems : ∀ v ∈ items, ∃ place, check m v item false place = .ok ())
    (hnames : ∀ v ∈ items, v.Everywhere Json.HasDistinctNames)
    (htold : (Json.arr items).IsTold) (hinside : ∀ v ∈ items, v.Everywhere Json.IsTold)
    (hread : ∀ v ∈ items, ∀ place, coerceAt m (ofGroup (occurrences v)) item place = .ok v)
    (place : Path) :
    coerceAt m (ofGroup (itemOccurrences items)) (.array item) place = .ok (.arr items) := by
  -- no item is an array, so that every item has one occurrence
  have harray : ∀ v ∈ items, v.kind ≠ .array := by
    intro v hv hkind
    obtain ⟨_, hplace⟩ := hitems v hv
    cases v with
    | arr _ =>
      obtain ⟨_, heq, -⟩ := check_arr_eq_ok hitem.item hplace
      exact absurd hitem.not_isArray (by simp [heq, TypeRef.isArray])
    | _ => cases hkind
  have hmap := itemOccurrences_eq_map harray
  match items with
  | [] => exact htold.elim
  | [v] =>
    -- one occurrence is no array by itself: it becomes one since an array is expected
    have hv : v ∈ [v] := List.mem_cons_self
    obtain ⟨_, hplace⟩ := hitems v hv
    have hsingle := isItem_ofGroup_occurrences hitem.item.self hplace (harray v hv) htold
      (hinside v hv) (hnames v hv)
    rw [hmap, List.map_singleton, ofGroup, coerceAt_array_of_isItem hsingle, hread v hv]
    rfl
  | v :: w :: rest =>
    rw [hmap, ofGroup_of_two_le (by simp), coerceAt]
    dsimp only
    rw [coerceItems_map 0 hread]
    rfl

/-- An object is read back where what its members stand for is. -/
theorem coerceAt_ofGroup_members {typeName : String} {c : ComplexType}
    {members : List (String × Json)} (hc : m.complexType? typeName = some c)
    (hnames : (members.map (·.1)).Nodup)
    (hoccurs : ∀ member ∈ members, occurrences member.2 ≠ [])
    (hread : ∀ member ∈ members, ∃ field, c.field? member.1 = some field ∧
      ∀ place, coerceAt m (ofGroup (occurrences member.2)) field.type place = .ok member.2)
    (place : Path) :
    coerceAt m (ofGroup (occurrences (.obj members))) (.complex typeName) place =
      .ok (.obj members) := by
  by_cases hmembers : members = []
  · subst hmembers
    rfl
  · rw [occurrences, ofGroup, ofOccurrences_memberOccurrences hmembers hnames hoccurs, coerceAt,
      coerceSingle]
    · have hmap : coerceMembers m c place
          (members.map fun (name, v) => (name, ofGroup (occurrences v))) = .ok members :=
        coerceMembers_map (f := fun v => ofGroup (occurrences v)) hread
      simp only [hc]
      exact congrArg (Except.map Json.obj) hmap
    · intro item hitem
      cases hitem

/-- Read as one of a legible type that it fits, what the occurrences of a value say is the value. -/
theorem coerceAt_ofGroup_occurrences {v : Json} (ht : m.IsLegible t)
    (hv : check m v t isOptional path = .ok ()) (hnames : v.Everywhere Json.HasDistinctNames)
    (htold : v.Everywhere Json.IsTold) (place : Path) :
    coerceAt m (ofGroup (occurrences v)) t place = .ok v := by
  induction v using Json.inductionOn generalizing t isOptional path place with
  | null => rfl
  | arr items ih =>
    obtain ⟨item, rfl, hitems⟩ := check_arr_eq_ok ht hv
    rw [Json.everywhere_arr] at hnames htold
    refine coerceAt_ofGroup_items ht hitems hnames.2 htold.1 htold.2 ?_ place
    intro w hw place
    obtain ⟨_, hchecked⟩ := hitems w hw
    exact ih w hw ht.item hchecked (hnames.2 w hw) (htold.2 w hw) place
  | obj members ih =>
    rw [Json.everywhere_obj] at hnames htold
    obtain ⟨typeName, c, rfl, hc, hmembers⟩ := check_obj_eq_ok ht hnames.1 hv
    have hoccurs := fun member hmember => occurrences_ne_nil (htold.2 member hmember)
    refine coerceAt_ofGroup_members hc hnames.1 hoccurs ?_ place
    intro member hmember
    obtain ⟨field, hfield, _, hchecked⟩ := hmembers member hmember
    have hlegible := ht.field hc (c.mem_of_field? hfield).1
    refine ⟨field, hfield, fun place => ?_⟩
    exact ih member hmember hlegible hchecked (hnames.2 member hmember) (htold.2 member hmember)
      place
  | _ => exact coerceAt_ofGroup_scalar rfl ht.self hv place

end SoapClient
