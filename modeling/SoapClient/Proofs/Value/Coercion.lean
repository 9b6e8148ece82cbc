import Mathlib.Data.List.Forall2
import SoapClient.Proofs.Outcome
import SoapClient.Proofs.Json.Everywhere
import SoapClient.Value.Coerce

/-!
# Reading raw values

Where a raw value stands makes no difference to what it is read as (`reads_of_coerceAt`). What
values of each shape are read as is worked out once: arrays item by item (`reads_arr_iff`), objects
member by member (`reads_obj_iff`), a single value as the only item of an array (`reads_array_iff`).
-/

namespace SoapClient

open Outcome

variable {m : ServiceModel} {v r : Json} {t item : TypeRef} {path : Path}

/-- A raw value is read as a value of a type, wherever it stands. -/
def ReadsAs (m : ServiceModel) (v : Json) (t : TypeRef) (r : Json) : Prop :=
  ∀ path, coerceAt m v t path = .ok r

/-! ## Places make no difference -/

/-- What a kind makes of a value. -/
def PrimitiveKind.read? (kind : PrimitiveKind) : Json → Option Json
  | .str s => kind.readText? s
  | v =>
    match if kind.isTextual then v.scalarText? else none with
    | some s => some (.str s)
    | none => if kind.accepts v then some v else none

/-- A value is read as one of a kind where the kind makes something of it. -/
theorem coercePrimitive_eq_ok_iff {kind : PrimitiveKind} :
    coercePrimitive kind v path = .ok r ↔ kind.read? v = some r := by
  have hother : ∀ asText : Option String, (match asText with
      | some s => .ok (.str s)
      | none => if kind.accepts v then .ok v else .error (wrongKind v (.primitive kind) path)) =
        Except.ok r ↔ (match asText with
      | some s => some (.str s)
      | none => if kind.accepts v then some v else none) = some r := by
    intro asText
    cases asText with
    | some s => simp
    | none =>
      dsimp only
      split <;> simp
  cases v with
  | str s =>
    rw [coercePrimitive, PrimitiveKind.read?]
    cases kind.readText? s <;> simp
  | _ => exact hother _

/-- What is read does not depend on the place. -/
def Coercer.IsPlaceFree (f : Coercer) : Prop :=
  ∀ t path r, f t path = .ok r → ∀ path', f t path' = .ok r

theorem isPlaceFree_coerceScalar (v : Json) : (coerceScalar v).IsPlaceFree := by
  intro t path r h path'
  cases t with
  | void => exact h
  | primitive kind => exact coercePrimitive_eq_ok_iff.mpr (coercePrimitive_eq_ok_iff.mp h)
  | complex typeName => cases h
  | array item => cases h

theorem isPlaceFree_coerceSingle {f : Coercer} (hf : f.IsPlaceFree) :
    (coerceSingle f).IsPlaceFree := by
  intro t path r h path'
  induction t generalizing path path' r with
  | array item ih =>
    rw [coerceSingle, map_eq_ok_iff] at h ⊢
    obtain ⟨v, hv, rfl⟩ := h
    exact ⟨v, ih _ v hv _, rfl⟩
  | _ => exact hf _ path r h path'

theorem isPlaceFree_coerceText (s : String) : (coerceText s).IsPlaceFree := by
  intro t path r h path'
  unfold coerceText at h ⊢
  split
  · next hblank =>
    rw [if_pos hblank] at h
    cases t with
    | array item => exact h
    | complex typeName => exact h
    | void => exact h
    | primitive kind => exact isPlaceFree_coerceScalar _ _ path r h path'
  · next hblank =>
    rw [if_neg hblank] at h
    exact isPlaceFree_coerceSingle (isPlaceFree_coerceScalar _) t path r h path'

/-- Items are read one by one. -/
theorem forall₂_of_coerceItems {items items' : List Json} {i : Nat}
    (hplace : ∀ v ∈ items, (coerceAt m v).IsPlaceFree)
    (h : coerceItems m item path i items = .ok items') :
    List.Forall₂ (fun v r => ReadsAs m v item r) items items' := by
  induction items generalizing i items' with
  | nil =>
    obtain rfl := Except.ok.inj h
    exact .nil
  | cons v rest ih =>
    rw [List.forall_mem_cons] at hplace
    rw [coerceItems, bind_eq_ok_iff] at h
    obtain ⟨r, hr, h⟩ := h
    rw [bind_eq_ok_iff] at h
    obtain ⟨rs, hrs, h⟩ := h
    obtain rfl := Except.ok.inj h
    exact .cons (fun path' => hplace.1 _ _ r hr path') (ih hplace.2 hrs)

theorem coerceItems_of_forall₂ {items items' : List Json}
    (h : List.Forall₂ (fun v r => ReadsAs m v item r) items items') (path : Path) (i : Nat) :
    coerceItems m item path i items = .ok items' := by
  induction h generalizing i with
  | nil => rfl
  | cons hfirst _ ih => rw [coerceItems, hfirst, ok_bind, ih, ok_bind]

/-- What a member of an object is read as: it keeps its name, and its value is read as one of the
type of the field with this name. A member that is not declared stays as it is. -/
structure ReadsMember (m : ServiceModel) (c : ComplexType) (member member' : String × Json) :
    Prop where
  name : member'.1 = member.1
  declared : ∀ field, c.field? member.1 = some field → ReadsAs m member.2 field.type member'.2
  undeclared : c.field? member.1 = none → member'.2 = member.2

/-- Reads a member of an object. -/
def coerceMember (m : ServiceModel) (c : ComplexType) (path : Path) (member : String × Json) :
    Except Mismatch Json :=
  match c.field? member.1 with
  | some field => coerceAt m member.2 field.type (path.step (.field member.1))
  | none => .ok member.2

theorem coerceMembers_cons {c : ComplexType} {member : String × Json}
    {rest members' : List (String × Json)} :
    coerceMembers m c path (member :: rest) = .ok members' ↔
      ∃ r rs, coerceMember m c path member = .ok r ∧ coerceMembers m c path rest = .ok rs ∧
        members' = (member.1, r) :: rs := by
  have hcons : coerceMembers m c path (member :: rest) =
      (coerceMember m c path member >>= fun r => coerceMembers m c path rest >>= fun rs =>
        .ok ((member.1, r) :: rs)) := by
    obtain ⟨name, v⟩ := member
    rw [coerceMembers, coerceMember]
    cases c.field? name <;> rfl
  simp only [hcons, bind_eq_ok_iff, Except.ok.injEq, eq_comm (a := members')]
  constructor
  · rintro ⟨r, hr, rs, hrs, h⟩
    exact ⟨r, rs, hr, hrs, h⟩
  · rintro ⟨r, rs, hr, hrs, h⟩
    exact ⟨r, hr, rs, hrs, h⟩

/-- Reading members keeps their names and their order. -/
theorem map_fst_of_readsMember {c : ComplexType} {members members' : List (String × Json)}
    (h : List.Forall₂ (ReadsMember m c) members members') :
    members'.map (·.1) = members.map (·.1) := by
  induction h with
  | nil => rfl
  | cons hfirst _ ih => rw [List.map_cons, List.map_cons, hfirst.name, ih]

/-- Members are read one by one. -/
theorem forall₂_of_coerceMembers {c : ComplexType} {members members' : List (String × Json)}
    (hplace : ∀ member ∈ members, (coerceAt m member.2).IsPlaceFree)
    (h : coerceMembers m c path members = .ok members') :
    List.Forall₂ (ReadsMember m c) members members' := by
  induction members generalizing members' with
  | nil =>
    obtain rfl := Except.ok.inj h
    exact .nil
  | cons member rest ih =>
    rw [List.forall_mem_cons] at hplace
    obtain ⟨r, rs, hr, hrs, rfl⟩ := coerceMembers_cons.mp h
    refine .cons ⟨rfl, fun field hfield path' => ?_, fun hfield => ?_⟩ (ih hplace.2 hrs)
    · rw [coerceMember, hfield] at hr
      exact hplace.1 _ _ r hr path'
    · rw [coerceMember, hfield] at hr
      exact (Except.ok.inj hr).symm

theorem coerceMembers_of_forall₂ {c : ComplexType} {members members' : List (String × Json)}
    (h : List.Forall₂ (ReadsMember m c) members members') (path : Path) :
    coerceMembers m c path members = .ok members' := by
  induction h with
  | nil => rfl
  | @cons member member' _ rest' hfirst _ ih =>
    refine coerceMembers_cons.mpr ⟨member'.2, rest', ?_, ih, ?_⟩
    · rw [coerceMember]
      split
      · next field hfield => exact hfirst.declared field hfield _
      · next hfield => rw [hfirst.undeclared hfield]
    · rw [← hfirst.name]

/-- What a value is read as does not depend on the place. -/
theorem isPlaceFree_coerceAt (m : ServiceModel) (v : Json) : (coerceAt m v).IsPlaceFree := by
  induction v using Json.inductionOn with
  | null =>
    intro t path r h path'
    exact h
  | str s => exact isPlaceFree_coerceText s
  | arr items ih =>
    intro t path r h path'
    rw [coerceAt] at h ⊢
    cases t with
    | array item =>
      simp only [map_eq_ok_iff] at h ⊢
      obtain ⟨items', hitems, rfl⟩ := h
      exact ⟨items', coerceItems_of_forall₂ (forall₂_of_coerceItems ih hitems) _ _, rfl⟩
    | _ => exact isPlaceFree_coerceScalar _ _ path r h path'
  | obj members ih =>
    rw [coerceAt]
    apply isPlaceFree_coerceSingle
    intro t path r h path'
    cases t with
    | complex typeName =>
      dsimp only at h ⊢
      cases hc : m.complexType? typeName with
      | none => rw [hc] at h; cases h
      | some c =>
        rw [hc] at h
        simp only [map_eq_ok_iff] at h ⊢
        obtain ⟨members', hmembers, rfl⟩ := h
        exact ⟨members', coerceMembers_of_forall₂ (forall₂_of_coerceMembers ih hmembers) _, rfl⟩
    | _ => exact isPlaceFree_coerceScalar _ _ path r h path'
  | _ => exact isPlaceFree_coerceSingle (isPlaceFree_coerceScalar _)

/-- A value that is read in one place is read in any. -/
theorem reads_of_coerceAt (h : coerceAt m v t path = .ok r) : ReadsAs m v t r :=
  fun path' => isPlaceFree_coerceAt m v t path r h path'

theorem reads_iff : ReadsAs m v t r ↔ coerce m v t = .ok r :=
  ⟨fun h => h _, reads_of_coerceAt⟩

/-! ## Values of each shape -/

@[simp] theorem reads_null : ReadsAs m .null t r ↔ r = .null := by
  rw [reads_iff]
  constructor
  · exact fun h => (Except.ok.inj h).symm
  · rintro rfl
    rfl

/-- Whatever stands where no value is expected is read as null. -/
@[simp] theorem reads_void : ReadsAs m v .void r ↔ r = .null := by
  have hvoid : coerce m v .void = .ok .null := by
    cases v with
    | str s =>
      unfold coerce coerceAt coerceText
      split <;> rfl
    | _ => rfl
  rw [reads_iff, hvoid, Except.ok.injEq, eq_comm]

theorem coerce_primitive {kind : PrimitiveKind} (hv : v ≠ .null) :
    coerce m v (.primitive kind) = coercePrimitive kind v (.ofStart "") := by
  cases v with
  | null => exact absurd rfl hv
  | str s =>
    unfold coerce coerceAt coerceText
    split <;> rfl
  | _ => rfl

/-- What stands where a primitive value is expected is what its kind makes of it. -/
theorem reads_primitive_iff {kind : PrimitiveKind} (hv : v ≠ .null) :
    ReadsAs m v (.primitive kind) r ↔ kind.read? v = some r := by
  rw [reads_iff, coerce_primitive hv, coercePrimitive_eq_ok_iff]

/-- An array is read item by item where one is expected. -/
theorem reads_arr_iff {items : List Json} :
    ReadsAs m (.arr items) (.array item) r ↔
      ∃ items', r = .arr items' ∧ List.Forall₂ (fun v r => ReadsAs m v item r) items items' := by
  have harr : coerce m (.arr items) (.array item) =
      (coerceItems m item (.ofStart "") 0 items).map .arr := rfl
  rw [reads_iff, harr, map_eq_ok_iff]
  constructor
  · rintro ⟨items', hitems, rfl⟩
    exact ⟨items', rfl, forall₂_of_coerceItems (fun v _ => isPlaceFree_coerceAt m v) hitems⟩
  · rintro ⟨items', rfl, hitems⟩
    exact ⟨items', coerceItems_of_forall₂ hitems _ _, rfl⟩

/-- An object is read member by member where a structured value is expected. -/
theorem reads_obj_iff {members : List (String × Json)} {typeName : String} :
    ReadsAs m (.obj members) (.complex typeName) r ↔
      ∃ c members', m.complexType? typeName = some c ∧ r = .obj members' ∧
        List.Forall₂ (ReadsMember m c) members members' := by
  rw [reads_iff, coerce]
  cases htype : m.complexType? typeName with
  | none => simp [coerceAt, coerceSingle, htype]
  | some c =>
    simp only [coerceAt, coerceSingle, htype, map_eq_ok_iff]
    constructor
    · rintro ⟨members', hmembers, rfl⟩
      exact ⟨c, members', rfl, rfl,
        forall₂_of_coerceMembers (fun member _ => isPlaceFree_coerceAt m member.2) hmembers⟩
    · rintro ⟨_, members', hc, rfl, hmembers⟩
      obtain rfl := Option.some.inj hc
      exact ⟨members', coerceMembers_of_forall₂ hmembers _, rfl⟩

/-- What is read as the only item where an array is expected. -/
def Json.IsItem : Json → Prop
  | .null => False
  | .arr _ => False
  | .str s => Text.isBlankText s = false
  | _ => True

/-- A single value where an array is expected is read as its only item. -/
theorem coerceAt_array_of_isItem {raw : Json} (h : raw.IsItem) (item : TypeRef) (path : Path) :
    coerceAt m raw (.array item) path =
      (coerceAt m raw item (path.step (.item 0))).map fun v => .arr [v] := by
  cases raw with
  | null => exact h.elim
  | arr _ => exact h.elim
  | str s =>
    have hblank : ¬ Text.isBlankText s = true := by
      rw [show Text.isBlankText s = false from h]
      exact Bool.false_ne_true
    simp only [coerceAt, coerceText, if_neg hblank, coerceSingle]
  | _ => rfl

theorem reads_array_iff (h : v.IsItem) :
    ReadsAs m v (.array item) r ↔ ∃ r', r = .arr [r'] ∧ ReadsAs m v item r' := by
  rw [reads_iff, coerce, coerceAt_array_of_isItem h, map_eq_ok_iff]
  constructor
  · rintro ⟨r', hr', rfl⟩
    exact ⟨r', rfl, reads_of_coerceAt hr'⟩
  · rintro ⟨r', rfl, hr'⟩
    exact ⟨r', hr' _, rfl⟩

/-- A text of blanks is read as an array without items where an array is expected. -/
theorem reads_array_of_isBlankText {s : String} (h : Text.isBlankText s = true) :
    ReadsAs m (.str s) (.array item) r ↔ r = .arr [] := by
  have hblank : coerce m (.str s) (.array item) = .ok (.arr []) := by
    rw [coerce, coerceAt, coerceText, if_pos h]
  rw [reads_iff, hblank, Except.ok.injEq, eq_comm]

/-- What a value is read as where a structured value is expected. -/
theorem reads_complex {typeName : String} (h : ReadsAs m v (.complex typeName) r) :
    v = .null ∨ (∃ members, v = .obj members) ∨
      ∃ s, v = .str s ∧ Text.isBlankText s = true ∧ r = .obj [] := by
  have hread := reads_iff.mp h
  cases v with
  | null => exact .inl rfl
  | obj members => exact .inr (.inl ⟨members, rfl⟩)
  | str s =>
    refine .inr (.inr ⟨s, rfl, ?_⟩)
    rw [coerce, coerceAt, coerceText] at hread
    split at hread
    · next hblank => exact ⟨hblank, (Except.ok.inj hread).symm⟩
    · cases hread
  | _ => cases hread

/-! ## All readings -/

/-- The ways in which a raw value is read as a value of a type. -/
inductive Reading (m : ServiceModel) : Json → TypeRef → Json → Prop
  | null (t : TypeRef) : Reading m .null t .null
  | void (v : Json) : Reading m v .void .null
  | primitive {kind : PrimitiveKind} {v r : Json} :
    v ≠ .null → kind.read? v = some r → Reading m v (.primitive kind) r
  | blankArray {s : String} (item : TypeRef) :
    Text.isBlankText s = true → Reading m (.str s) (.array item) (.arr [])
  | blankObject {s : String} (typeName : String) :
    Text.isBlankText s = true → Reading m (.str s) (.complex typeName) (.obj [])
  | single {v r : Json} {item : TypeRef} :
    v.IsItem → ReadsAs m v item r → Reading m v (.array item) (.arr [r])
  | arr {items items' : List Json} {item : TypeRef} :
    List.Forall₂ (fun v r => ReadsAs m v item r) items items' →
      Reading m (.arr items) (.array item) (.arr items')
  | obj {members members' : List (String × Json)} {typeName : String} {c : ComplexType} :
    m.complexType? typeName = some c → List.Forall₂ (ReadsMember m c) members members' →
      Reading m (.obj members) (.complex typeName) (.obj members')

theorem ReadsAs.reading (h : ReadsAs m v t r) : Reading m v t r := by
  by_cases hnull : v = .null
  · subst hnull
    obtain rfl := reads_null.mp h
    exact .null t
  cases t with
  | void =>
    obtain rfl := reads_void.mp h
    exact .void v
  | primitive kind => exact .primitive hnull ((reads_primitive_iff hnull).mp h)
  | complex typeName =>
    rcases reads_complex h with rfl | ⟨members, rfl⟩ | ⟨s, rfl, hblank, rfl⟩
    · exact absurd rfl hnull
    · obtain ⟨c, members', hc, rfl, hmembers⟩ := reads_obj_iff.mp h
      exact .obj hc hmembers
    · exact .blankObject typeName hblank
  | array item =>
    by_cases hitem : v.IsItem
    · obtain ⟨r', rfl, hr'⟩ := (reads_array_iff hitem).mp h
      exact .single hitem hr'
    · cases v with
      | null => exact absurd rfl hnull
      | arr items =>
        obtain ⟨items', rfl, hitems⟩ := reads_arr_iff.mp h
        exact .arr hitems
      | str s =>
        have hblank : Text.isBlankText s = true := by simpa [Json.IsItem] using hitem
        obtain rfl := (reads_array_of_isBlankText hblank).mp h
        exact .blankArray item hblank
      | _ => exact absurd trivial hitem

/-- Every entry of the second list stands for one of the first. -/
theorem exists_of_forall₂_right {α β : Type} {R : α → β → Prop} {as : List α} {bs : List β}
    (h : List.Forall₂ R as bs) {b : β} (hb : b ∈ bs) : ∃ a ∈ as, R a b := by
  induction h with
  | nil => cases hb
  | cons hfirst _ ih =>
    rcases List.mem_cons.mp hb with rfl | hb
    · exact ⟨_, List.mem_cons_self, hfirst⟩
    · obtain ⟨a, ha, hR⟩ := ih hb
      exact ⟨a, List.mem_cons_of_mem _ ha, hR⟩

/-- What two lists have entry by entry follows from what they have there otherwise. -/
theorem forall₂_imp_of_mem {α β : Type} {R S : α → β → Prop} {as : List α} {bs : List β}
    (h : List.Forall₂ R as bs) (himp : ∀ a ∈ as, ∀ b, R a b → S a b) : List.Forall₂ S as bs := by
  induction h with
  | nil => exact .nil
  | cons hfirst _ ih =>
    rw [List.forall_mem_cons] at himp
    exact .cons (himp.1 _ hfirst) (ih himp.2)

/-- A property of all readings follows where arrays have it from their items, objects from their
declared members, and the only item of an array passes it on. -/
theorem ReadsAs.inductionOn {P : Json → TypeRef → Json → Prop} (h : ReadsAs m v t r)
    (null : ∀ t, P .null t .null) (void : ∀ v, P v .void .null)
    (primitive : ∀ {kind : PrimitiveKind} {v r : Json},
      v ≠ .null → kind.read? v = some r → P v (.primitive kind) r)
    (blankArray : ∀ {s : String} (item : TypeRef),
      Text.isBlankText s = true → P (.str s) (.array item) (.arr []))
    (blankObject : ∀ {s : String} (typeName : String),
      Text.isBlankText s = true → P (.str s) (.complex typeName) (.obj []))
    (single : ∀ {v r : Json} {item : TypeRef},
      v.IsItem → P v item r → P v (.array item) (.arr [r]))
    (arr : ∀ {items items' : List Json} {item : TypeRef},
      List.Forall₂ (fun v r => P v item r) items items' →
        P (.arr items) (.array item) (.arr items'))
    (obj : ∀ {members members' : List (String × Json)} {typeName : String} {c : ComplexType},
      m.complexType? typeName = some c →
        List.Forall₂ (fun member member' => ReadsMember m c member member' ∧
          ∀ field, c.field? member.1 = some field → P member.2 field.type member'.2)
          members members' →
        P (.obj members) (.complex typeName) (.obj members')) : P v t r := by
  -- outside on the parts of the value, and inside on the type: an only item is the same value
  induction v using Json.inductionOnParts generalizing t r with
  | _ v ih =>
    induction t generalizing r with
    | array item ihItem =>
      cases h.reading with
      | null => exact null _
      | blankArray _ hblank => exact blankArray item hblank
      | single hitem hr => exact single hitem (ihItem hr)
      | arr hitems => exact arr (forall₂_imp_of_mem hitems fun v hv r hr => ih v hv hr)
    | void =>
      cases h.reading with
      | null => exact null _
      | void => exact void _
    | primitive kind =>
      cases h.reading with
      | null => exact null _
      | primitive hnull hread => exact primitive hnull hread
    | complex typeName =>
      cases h.reading with
      | null => exact null _
      | blankObject _ hblank => exact blankObject typeName hblank
      | obj hc hmembers =>
        refine obj hc (forall₂_imp_of_mem hmembers fun member hmember member' h => ⟨h, ?_⟩)
        intro field hfield
        exact ih member.2 (List.mem_map_of_mem hmember) (h.declared field hfield)

end SoapClient
