import SoapClient.Value.Check
import SoapClient.Proofs.Outcome
import SoapClient.Proofs.Json.Everywhere

/-!
# Values that fit their slots

Where a value stands makes no difference to whether it fits (`fits_of_check`). What fits a type is
worked out once for all types that are looked into: arrays (`fits_arr_iff`) and structured ones
(`fits_obj_iff`).
-/

namespace SoapClient

open Outcome

variable {m : ServiceModel} {v : Json} {t : TypeRef} {isOptional : Bool} {path : Path}

/-- A value fits a slot: wherever it stands, its check finds no fault. -/
def Fits (m : ServiceModel) (v : Json) (t : TypeRef) (isOptional : Bool) : Prop :=
  ∀ path, check m v t isOptional path = .ok ()

/-! ## Values that are not looked into -/

/-- A value that is not looked into fits nothing but a kind that takes it. -/
theorem exists_kind_of_checkWhole (h : checkWhole v t isOptional path = .ok ()) :
    ∃ kind, t = .primitive kind ∧ kind.accepts v = true := by
  cases t with
  | primitive kind =>
    by_cases haccepts : kind.accepts v = true
    · exact ⟨kind, rfl, haccepts⟩
    · simp [checkWhole, haccepts] at h
  | _ => cases h

/-- What a kind takes fits wherever it stands. -/
theorem checkWhole_of_accepts {kind : PrimitiveKind} (h : kind.accepts v = true)
    (isOptional : Bool) (path : Path) :
    checkWhole v (.primitive kind) isOptional path = .ok () := by
  rw [checkWhole, if_pos h]

theorem checkWhole_of_checkWhole (h : checkWhole v t isOptional path = .ok ())
    (isOptional' : Bool) (path' : Path) : checkWhole v t isOptional' path' = .ok () := by
  obtain ⟨kind, rfl, haccepts⟩ := exists_kind_of_checkWhole h
  exact checkWhole_of_accepts haccepts isOptional' path'

/-! ## Arrays -/

/-- Only types of arrays look into an array. -/
theorem check_arr_of_ne {items : List Json} (h : ∀ item, t ≠ .array item) :
    check m (.arr items) t isOptional path = checkWhole (.arr items) t isOptional path := by
  rw [check, checker]
  cases t with
  | array item => exact absurd rfl (h item)
  | _ => rfl

/-- Every item is checked against the type of the items. -/
theorem checkItems_eq_ok {item : TypeRef} {i : Nat} {items : List Json}
    (h : checkItems item path i (itemCheckers m items) = .ok ()) :
    ∀ v ∈ items, ∃ place, check m v item false place = .ok () := by
  induction items generalizing i with
  | nil => simp
  | cons v rest ih =>
    rw [itemCheckers, checkItems, bind_eq_ok_iff] at h
    obtain ⟨_, hfirst, hrest⟩ := h
    intro w hw
    rcases List.mem_cons.mp hw with rfl | hw
    · exact ⟨_, hfirst⟩
    · exact ih hrest w hw

/-- Items that fit are found to fit one after the other. -/
theorem checkItems_of_fits {item : TypeRef} {items : List Json}
    (h : ∀ v ∈ items, Fits m v item false) (path : Path) (i : Nat) :
    checkItems item path i (itemCheckers m items) = .ok () := by
  induction items generalizing i with
  | nil => rfl
  | cons v rest ih =>
    rw [List.forall_mem_cons] at h
    have hfirst : checker m v item false (path.step (.item i)) = .ok () := h.1 _
    rw [itemCheckers, checkItems, hfirst, ok_bind]
    exact ih h.2 (i + 1)

/-! ## Objects -/

/-- Only structured types look into an object. -/
theorem check_obj_of_ne {members : List (String × Json)} (h : ∀ typeName, t ≠ .complex typeName) :
    check m (.obj members) t isOptional path = checkWhole (.obj members) t isOptional path := by
  rw [check, checker]
  cases t with
  | complex typeName => exact absurd rfl (h typeName)
  | _ => rfl

/-- A step through a list has no fault where no entry has one. -/
theorem forM_eq_ok_iff {α ε : Type} {f : α → Except ε Unit} {as : List α} :
    as.forM f = .ok () ↔ ∀ a ∈ as, f a = .ok () := by
  induction as with
  | nil => simp [pure, Except.pure]
  | cons a as ih =>
    have hcons : (a :: as).forM f = (f a >>= fun _ => as.forM f) := rfl
    rw [hcons, bind_eq_ok_iff, List.forall_mem_cons, ← ih]
    exact ⟨fun ⟨_, hfirst, hrest⟩ => ⟨hfirst, hrest⟩, fun h => ⟨(), h⟩⟩

/-- A member is found under its name where no other has this name. -/
theorem lookup_of_mem {α : Type} {members : List (String × α)}
    (hnames : (members.map (·.1)).Nodup) {name : String} {a : α} (h : (name, a) ∈ members) :
    members.lookup name = some a := by
  induction members with
  | nil => cases h
  | cons member rest ih =>
    obtain ⟨n, b⟩ := member
    rw [List.map_cons, List.nodup_cons] at hnames
    rcases List.mem_cons.mp h with heq | hmem
    · obtain ⟨rfl, rfl⟩ := Prod.mk.inj heq
      exact List.lookup_cons_self
    · have hne : name ≠ n := by
        rintro rfl
        exact hnames.1 (List.mem_map.mpr ⟨(name, a), hmem, rfl⟩)
      rw [List.lookup_cons, beq_false_of_ne hne]
      exact ih hnames.2 hmem

/-- A member that is found stands under its name. -/
theorem mem_of_lookup {α : Type} {members : List (String × α)} {name : String} {a : α}
    (h : members.lookup name = some a) : (name, a) ∈ members := by
  obtain ⟨before, after, rfl, -⟩ := List.lookup_eq_some_iff.mp h
  exact List.mem_append_right _ List.mem_cons_self

/-- No member is found under a name that none has. -/
theorem notMem_of_lookup {α : Type} {members : List (String × α)} {name : String}
    (h : members.lookup name = none) : name ∉ members.map (·.1) := by
  rw [List.lookup_eq_none_iff] at h
  intro hmem
  obtain ⟨member, hmember, rfl⟩ := List.mem_map.mp hmem
  simpa using h member hmember

/-- The field under a name has this name. -/
theorem ComplexType.mem_of_field? {c : ComplexType} {name : String} {field : Parameter}
    (h : c.field? name = some field) : field ∈ c.fields ∧ field.name = name := by
  have hname := List.find?_some h
  exact ⟨List.mem_of_find?_eq_some h, by simpa using hname⟩

theorem lookup_memberCheckers (m : ServiceModel) (members : List (String × Json)) (name : String) :
    (memberCheckers m members).lookup name = (members.lookup name).map (checker m) := by
  induction members with
  | nil => rfl
  | cons member rest ih =>
    obtain ⟨n, v⟩ := member
    rw [memberCheckers, List.lookup_cons, List.lookup_cons, ih]
    cases name == n <;> rfl

/-- A field has no fault where its member has none, or where there is none and none is needed. -/
theorem checkField_eq_ok_iff {members : List (String × Json)} {field : Parameter} :
    checkField (memberCheckers m members) path field = .ok () ↔
      (∀ v, members.lookup field.name = some v →
        check m v field.type field.isOptional (path.step (.field field.name)) = .ok ()) ∧
      (members.lookup field.name = none → field.isOptional) := by
  rw [checkField, lookup_memberCheckers]
  cases members.lookup field.name with
  | some v => simp [check]
  | none => simp

/-- No member is undeclared where all are declared. -/
theorem find?_memberCheckers_eq_none_iff {c : ComplexType} {members : List (String × Json)} :
    (memberCheckers m members).find? (fun (name, _) => (c.field? name).isNone) = none ↔
      ∀ member ∈ members, (c.field? member.1).isSome := by
  rw [memberCheckers_eq_map, List.find?_map, Option.map_eq_none_iff, List.find?_eq_none]
  simp [Option.isSome_iff_ne_none]

/-- An object has no fault where its type is defined and declares every member, and no field has
one. -/
theorem checkFields_eq_ok_iff {typeName : String} {members : List (String × Json)} :
    checkFields m typeName (memberCheckers m members) path = .ok () ↔
      ∃ c, m.complexType? typeName = some c ∧ (∀ member ∈ members, (c.field? member.1).isSome) ∧
        ∀ field ∈ c.fields, checkField (memberCheckers m members) path field = .ok () := by
  constructor
  · intro h
    rw [checkFields] at h
    split at h
    · cases h
    · next c hc =>
      split at h
      · cases h
      · next hnone =>
        exact ⟨c, hc, find?_memberCheckers_eq_none_iff.mp hnone, forM_eq_ok_iff.mp h⟩
  · rintro ⟨c, hc, hdeclared, hfields⟩
    rw [checkFields, hc]
    dsimp only
    rw [find?_memberCheckers_eq_none_iff.mpr hdeclared]
    exact forM_eq_ok_iff.mpr hfields

/-! ## All values -/

/-- A value that fits in one place fits in any. -/
theorem fits_of_check (h : check m v t isOptional path = .ok ()) : Fits m v t isOptional := by
  induction v using Json.inductionOn generalizing t isOptional path with
  | null =>
    intro path'
    simp only [check, checker, checkNull] at h ⊢
    split at h
    · next hfits => rw [if_pos hfits]
    · cases h
  | arr items ih =>
    intro path'
    cases t with
    | array item =>
      refine checkItems_of_fits (fun v hv => ?_) path' 0
      obtain ⟨place, hplace⟩ := checkItems_eq_ok h v hv
      exact ih v hv hplace
    | _ =>
      rw [check_arr_of_ne (by simp)] at h ⊢
      exact checkWhole_of_checkWhole h isOptional path'
  | obj members ih =>
    intro path'
    cases t with
    | complex typeName =>
      obtain ⟨c, hc, hdeclared, hfields⟩ := checkFields_eq_ok_iff.mp h
      refine checkFields_eq_ok_iff.mpr ⟨c, hc, hdeclared, fun field hfield => ?_⟩
      obtain ⟨hmember, hmissing⟩ := checkField_eq_ok_iff.mp (hfields field hfield)
      refine checkField_eq_ok_iff.mpr ⟨fun v hv => ?_, hmissing⟩
      exact ih _ (mem_of_lookup hv) (hmember v hv) _
    | _ =>
      rw [check_obj_of_ne (by simp)] at h ⊢
      exact checkWhole_of_checkWhole h isOptional path'
  | _ =>
    intro path'
    rw [check, checker] at h ⊢
    exact checkWhole_of_checkWhole h isOptional path'

/-- An array fits a type of arrays where all its items fit. -/
theorem fits_arr_iff {items : List Json} {item : TypeRef} :
    Fits m (.arr items) (.array item) isOptional ↔ ∀ v ∈ items, Fits m v item false := by
  constructor
  · intro h v hv
    obtain ⟨place, hplace⟩ := checkItems_eq_ok (h (.ofStart "")) v hv
    exact fits_of_check hplace
  · exact fun h path => checkItems_of_fits h path 0

/-- An object fits a structured type that declares every member and whose fields have members that
fit, or do not need any. -/
theorem fits_obj_iff {members : List (String × Json)} {typeName : String} :
    Fits m (.obj members) (.complex typeName) isOptional ↔
      ∃ c, m.complexType? typeName = some c ∧ (∀ member ∈ members, (c.field? member.1).isSome) ∧
        ∀ field ∈ c.fields,
          (∀ v, members.lookup field.name = some v → Fits m v field.type field.isOptional) ∧
          (members.lookup field.name = none → field.isOptional) := by
  constructor
  · intro h
    obtain ⟨c, hc, hdeclared, hfields⟩ := checkFields_eq_ok_iff.mp (h (.ofStart ""))
    refine ⟨c, hc, hdeclared, fun field hfield => ?_⟩
    obtain ⟨hmember, hmissing⟩ := checkField_eq_ok_iff.mp (hfields field hfield)
    exact ⟨fun v hv => fits_of_check (hmember v hv), hmissing⟩
  · rintro ⟨c, hc, hdeclared, hfields⟩ path
    refine checkFields_eq_ok_iff.mpr ⟨c, hc, hdeclared, fun field hfield => ?_⟩
    obtain ⟨hmember, hmissing⟩ := hfields field hfield
    exact checkField_eq_ok_iff.mpr ⟨fun v hv => hmember v hv _, hmissing⟩

/-- The first field with the name of a member is one that the member fits. -/
theorem exists_field_of_fits {members : List (String × Json)} {typeName : String}
    (hnames : (members.map (·.1)).Nodup)
    (h : Fits m (.obj members) (.complex typeName) isOptional) :
    ∃ c, m.complexType? typeName = some c ∧ ∀ member ∈ members,
      ∃ field, c.field? member.1 = some field ∧ Fits m member.2 field.type field.isOptional := by
  obtain ⟨c, hc, hdeclared, hfields⟩ := fits_obj_iff.mp h
  refine ⟨c, hc, fun member hmember => ?_⟩
  obtain ⟨field, hfield⟩ := Option.isSome_iff_exists.mp (hdeclared member hmember)
  obtain ⟨hin, hname⟩ := c.mem_of_field? hfield
  refine ⟨field, hfield, (hfields field hin).1 _ ?_⟩
  rw [hname]
  exact lookup_of_mem hnames hmember

/-! ## Names inside of values -/

/-- Inside of a value of a type stands a value of a type: an item stands for the type of items, and
a member for that of the first field with its name. -/
inductive ServiceModel.HoldsValue (m : ServiceModel) : Json → TypeRef → Json → TypeRef → Prop
  | self (v : Json) (t : TypeRef) : HoldsValue m v t v t
  | item {items : List Json} {item : TypeRef} {v w : Json} {u : TypeRef} :
    v ∈ items → HoldsValue m v item w u → HoldsValue m (.arr items) (.array item) w u
  | member {members : List (String × Json)} {typeName name : String} {c : ComplexType}
      {field : Parameter} {v w : Json} {u : TypeRef} :
    m.complexType? typeName = some c → (name, v) ∈ members → c.field? name = some field →
      HoldsValue m v field.type w u → HoldsValue m (.obj members) (.complex typeName) w u

/-- No kind but that of any value takes a value that has parts. -/
theorem eq_anyType_of_checkWhole (hv : v.kind = .array ∨ v.kind = .object)
    (h : checkWhole v t isOptional path = .ok ()) : t = .primitive .anyType := by
  obtain ⟨kind, rfl, haccepts⟩ := exists_kind_of_checkWhole h
  cases kind <;> cases v <;> simp_all [PrimitiveKind.accepts, Json.kind]

/-- The members of a value that fits have names of fields, but for what stands where anything can.
So all of them can stand in tags where the names of fields can, and those in such places. -/
theorem hasNCNames_of_fits (h : Fits m v t isOptional) (hv : v.Everywhere Json.HasDistinctNames)
    (hfields : ∀ w typeName c, m.HoldsValue v t w (.complex typeName) →
      m.complexType? typeName = some c → ∀ field ∈ c.fields, Xml.isNCName field.name)
    (hany : ∀ w, m.HoldsValue v t w (.primitive .anyType) → w.Everywhere Json.HasNCNames) :
    v.Everywhere Json.HasNCNames := by
  induction v using Json.inductionOn generalizing t isOptional with
  | arr items ih =>
    cases t with
    | array item =>
      rw [Json.everywhere_arr] at hv ⊢
      rw [fits_arr_iff] at h
      refine ⟨trivial, fun v hmem => ih v hmem (h v hmem) (hv.2 v hmem) ?_ ?_⟩
      · exact fun w typeName c hw => hfields w typeName c (.item hmem hw)
      · exact fun w hw => hany w (.item hmem hw)
    | _ =>
      have hwhole := h (.ofStart "")
      rw [check_arr_of_ne (by simp)] at hwhole
      have hkind := eq_anyType_of_checkWhole (.inl rfl) hwhole
      exact hany _ (hkind ▸ .self _ _)
  | obj members ih =>
    cases t with
    | complex typeName =>
      rw [Json.everywhere_obj] at hv ⊢
      obtain ⟨c, hc, hmembers⟩ := exists_field_of_fits hv.1 h
      refine ⟨fun member hmem => ?_, fun member hmem => ?_⟩
      · obtain ⟨field, hfield, -⟩ := hmembers member hmem
        obtain ⟨hin, hname⟩ := c.mem_of_field? hfield
        rw [← hname]
        exact hfields _ typeName c (.self _ _) hc field hin
      · obtain ⟨field, hfield, hfits⟩ := hmembers member hmem
        refine ih member hmem hfits (hv.2 member hmem) ?_ ?_
        · exact fun w typeName c' hw => hfields w typeName c' (.member hc hmem hfield hw)
        · exact fun w hw => hany w (.member hc hmem hfield hw)
    | _ =>
      have hwhole := h (.ofStart "")
      rw [check_obj_of_ne (by simp)] at hwhole
      have hkind := eq_anyType_of_checkWhole (.inr rfl) hwhole
      exact hany _ (hkind ▸ .self _ _)
  | _ => trivial

end SoapClient
