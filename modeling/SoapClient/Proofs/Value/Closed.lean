import SoapClient.Proofs.Json.Everywhere
import SoapClient.Proofs.Model.Closed
import SoapClient.Proofs.Outcome
import SoapClient.Value.Arrange
import SoapClient.Value.Coerce

/-!
# Values of the types of a closed model

Where a model is closed, no look at a value ever comes to a type that is not defined: not the check
of an argument (`findsTypes_check`), not the reading of a result (`findsTypes_coerceAt`), and not
the ordering of members (`arrangeOr_eq_arrange`).
-/

namespace SoapClient

open Outcome

/-- A look at a value that does not come to a type that is not defined. -/
def FindsTypes {α : Type} (result : Except Mismatch α) : Prop :=
  ∀ path typeName, result ≠ .error ⟨path, .undefinedType typeName⟩

namespace FindsTypes

variable {α β : Type}

theorem ok (a : α) : FindsTypes (.ok a) := fun _ _ h => nomatch h

theorem error {path : Path} {fault : Fault} (h : ∀ typeName, fault ≠ .undefinedType typeName) :
    FindsTypes (.error ⟨path, fault⟩ : Except Mismatch α) := by
  intro _ typeName heq
  exact h typeName (congrArg Mismatch.fault (Except.error.inj heq))

theorem bind {x : Except Mismatch α} {f : α → Except Mismatch β} (hx : FindsTypes x)
    (hf : ∀ a, FindsTypes (f a)) : FindsTypes (x >>= f) := by
  cases x with
  | error e =>
    intro path typeName h
    exact hx path typeName (congrArg Except.error (Except.error.inj h))
  | ok a => exact hf a

theorem map {x : Except Mismatch α} {f : α → β} (hx : FindsTypes x) : FindsTypes (x.map f) := by
  cases x with
  | error e =>
    intro path typeName h
    exact hx path typeName (congrArg Except.error (Except.error.inj h))
  | ok a => exact ok _

theorem forM {f : α → Except Mismatch Unit} {as : List α} (h : ∀ a ∈ as, FindsTypes (f a)) :
    FindsTypes (as.forM f) := by
  induction as with
  | nil => exact ok ()
  | cons a as ih =>
    rw [List.forall_mem_cons] at h
    exact bind (f := fun _ => as.forM f) h.1 fun _ => ih h.2

end FindsTypes

/-- That a value is of a kind that the type does not take is another fault. -/
theorem findsTypes_wrongKind {α : Type} (v : Json) (t : TypeRef) (path : Path) :
    FindsTypes (.error (wrongKind v t path) : Except Mismatch α) :=
  .error (by simp)

variable {m : ServiceModel} {t : TypeRef} {path : Path}

/-! ## Checking -/

theorem findsTypes_checkNull (t : TypeRef) (isOptional : Bool) (path : Path) :
    FindsTypes (checkNull t isOptional path) := by
  rw [checkNull]
  split
  · exact .ok ()
  · exact findsTypes_wrongKind .null t path

theorem findsTypes_checkWhole (v : Json) (t : TypeRef) (isOptional : Bool) (path : Path) :
    FindsTypes (checkWhole v t isOptional path) := by
  cases t with
  | primitive kind =>
    rw [checkWhole]
    split
    · exact .ok ()
    · exact findsTypes_wrongKind v _ path
  | _ => exact findsTypes_wrongKind v _ path

theorem findsTypes_checkItems {item : TypeRef} {items : List Json} (i : Nat)
    (h : ∀ v ∈ items, ∀ place, FindsTypes (check m v item false place)) :
    FindsTypes (checkItems item path i (itemCheckers m items)) := by
  induction items generalizing i with
  | nil => exact .ok ()
  | cons v rest ih =>
    rw [List.forall_mem_cons] at h
    rw [itemCheckers, checkItems]
    exact .bind (h.1 _) fun _ => ih (i + 1) h.2

/-- A member that is found has a value of the object. -/
theorem exists_of_lookup_memberCheckers {members : List (String × Json)} {name : String}
    {check : Checker} (h : (memberCheckers m members).lookup name = some check) :
    ∃ member ∈ members, check = checker m member.2 := by
  induction members with
  | nil => cases h
  | cons member rest ih =>
    obtain ⟨n, v⟩ := member
    rw [memberCheckers, List.lookup_cons] at h
    split at h
    · exact ⟨(n, v), List.mem_cons_self, (Option.some.inj h).symm⟩
    · obtain ⟨member, hmember, hcheck⟩ := ih h
      exact ⟨member, List.mem_cons_of_mem _ hmember, hcheck⟩

/-- The check of a value against a type of a closed model comes to no undefined type. -/
theorem findsTypes_check (hm : m.IsClosed) {v : Json} (ht : t.IsResult m.typeNames)
    (isOptional : Bool) (path : Path) : FindsTypes (check m v t isOptional path) := by
  -- on the value: its parts are checked against types that a result may have, too
  induction v using Json.inductionOn generalizing t isOptional path with
  | null => exact findsTypes_checkNull t isOptional path
  | arr items ih =>
    rw [check, checker]
    cases t with
    | array item =>
      have hitem : item.IsSingle m.typeNames := ht.resolve_left (by simp)
      exact findsTypes_checkItems 0 fun v hv place => ih v hv (.inr hitem.isSlot) false place
    | _ => exact findsTypes_checkWhole _ _ isOptional path
  | obj members ih =>
    rw [check, checker]
    cases t with
    | complex typeName =>
      have hname : typeName ∈ m.typeNames := ht.resolve_left (by simp)
      obtain ⟨c, hc⟩ := Option.isSome_iff_exists.mp (ServiceModel.isSome_complexType?_iff.mpr hname)
      dsimp only
      rw [checkFields, hc]
      dsimp only
      split
      · exact .error (by simp)
      · refine .forM fun field hfield => ?_
        have hslot := hm.areSlots hc field hfield
        rw [checkField]
        split
        · next check hlookup =>
          obtain ⟨member, hmember, rfl⟩ := exists_of_lookup_memberCheckers hlookup
          exact ih member hmember (.inr hslot) _ _
        · split
          · exact .ok ()
          · exact .error (by simp)
    | _ => exact findsTypes_checkWhole _ _ isOptional path
  | _ => exact findsTypes_checkWhole _ t isOptional path

/-! ## Reading -/

theorem findsTypes_coercePrimitive (kind : PrimitiveKind) (v : Json) (path : Path) :
    FindsTypes (coercePrimitive kind v path) := by
  unfold coercePrimitive
  split
  · split
    · exact .ok _
    · exact .error (by simp)
  · dsimp only
    split
    · exact .ok _
    · split
      · exact .ok _
      · exact findsTypes_wrongKind _ _ path

theorem findsTypes_coerceScalar (v : Json) (t : TypeRef) (path : Path) :
    FindsTypes (coerceScalar v t path) := by
  cases t with
  | void => exact .ok _
  | primitive kind => exact findsTypes_coercePrimitive kind v path
  | _ => exact findsTypes_wrongKind v _ path

/-- A single value in place of an array is looked at as its item. -/
theorem findsTypes_coerceSingle {coerce : Coercer} {names : List String}
    (ht : t.IsResult names)
    (h : ∀ u place, u.IsResult names → FindsTypes (coerce u place)) (path : Path) :
    FindsTypes (coerceSingle coerce t path) := by
  cases t with
  | array item =>
    have hitem : item.IsSingle names := ht.resolve_left (by simp)
    have hresult : FindsTypes (coerce item (path.step (.item 0))) := h _ _ (.inr hitem.isSlot)
    cases item with
    | array _ => exact hitem.elim
    | _ => exact hresult.map
  | _ => exact h _ path ht

theorem findsTypes_coerceText (s : String) {names : List String} (ht : t.IsResult names)
    (path : Path) : FindsTypes (coerceText s t path) := by
  unfold coerceText
  split
  · split
    · exact .ok _
    · exact .ok _
    · exact findsTypes_coerceScalar _ _ path
  · exact findsTypes_coerceSingle ht (fun u place _ => findsTypes_coerceScalar _ u place) path

theorem findsTypes_coerceItems {item : TypeRef} {items : List Json} (i : Nat)
    (h : ∀ v ∈ items, ∀ place, FindsTypes (coerceAt m v item place)) :
    FindsTypes (coerceItems m item path i items) := by
  induction items generalizing i with
  | nil => exact .ok []
  | cons v rest ih =>
    rw [List.forall_mem_cons] at h
    rw [coerceItems]
    exact .bind (h.1 _) fun _ => .bind (ih (i + 1) h.2) fun _ => .ok _

theorem findsTypes_coerceMembers {c : ComplexType} (hc : AreSlots m.typeNames c.fields)
    {members : List (String × Json)}
    (h : ∀ member ∈ members, ∀ t place, t.IsResult m.typeNames →
      FindsTypes (coerceAt m member.2 t place)) :
    FindsTypes (coerceMembers m c path members) := by
  induction members with
  | nil => exact .ok []
  | cons member rest ih =>
    obtain ⟨name, v⟩ := member
    rw [List.forall_mem_cons] at h
    rw [coerceMembers]
    cases hfield : c.field? name with
    | some field =>
      have hslot := hc field (List.mem_of_find?_eq_some hfield)
      exact .bind (h.1 _ _ (.inr hslot)) fun _ => .bind (ih h.2) fun _ => .ok _
    | none => exact .bind (.ok v) fun _ => .bind (ih h.2) fun _ => .ok _

/-- Reading a value as one of a type of a closed model comes to no undefined type. -/
theorem findsTypes_coerceAt (hm : m.IsClosed) {v : Json} (ht : t.IsResult m.typeNames)
    (path : Path) : FindsTypes (coerceAt m v t path) := by
  induction v using Json.inductionOn generalizing t path with
  | null => exact .ok _
  | str s => exact findsTypes_coerceText s ht path
  | arr items ih =>
    rw [coerceAt]
    cases t with
    | array item =>
      have hitem : item.IsSingle m.typeNames := ht.resolve_left (by simp)
      exact .map (findsTypes_coerceItems 0 fun v hv place => ih v hv (.inr hitem.isSlot) place)
    | _ => exact findsTypes_coerceScalar _ _ _
  | obj members ih =>
    rw [coerceAt]
    refine findsTypes_coerceSingle ht (fun u place hu => ?_) path
    cases u with
    | complex typeName =>
      have hname : typeName ∈ m.typeNames := hu.resolve_left (by simp)
      obtain ⟨c, hc⟩ := Option.isSome_iff_exists.mp (ServiceModel.isSome_complexType?_iff.mpr hname)
      simp only [hc]
      exact .map (findsTypes_coerceMembers (hm.areSlots hc) fun member hmember t place ht =>
        ih member hmember ht place)
    | _ => exact findsTypes_coerceScalar _ _ _
  | _ => exact findsTypes_coerceSingle ht (fun u place _ => findsTypes_coerceScalar _ u place) path

/-! ## Ordering members -/

mutual

/-- The value with the members of its objects in declared order, and with `fallback` in place of an
object of an undefined type. -/
def arrangeOr (fallback : Json) (m : ServiceModel) : Json → TypeRef → Json
  | .arr items, .array item => .arr (arrangeItemsOr fallback m item items)
  | .obj members, .complex typeName =>
    match m.complexType? typeName with
    | some t => .obj (orderMembers (t.fields.map (·.name)) (arrangeMembersOr fallback m t members))
    | none => fallback
  | v, _ => v

/-- The items of an array, each arranged. -/
def arrangeItemsOr (fallback : Json) (m : ServiceModel) (item : TypeRef) : List Json → List Json
  | [] => []
  | v :: rest => arrangeOr fallback m v item :: arrangeItemsOr fallback m item rest

/-- The members of an object, the declared ones arranged by the type of their field. -/
def arrangeMembersOr (fallback : Json) (m : ServiceModel) (t : ComplexType) :
    List (String × Json) → List (String × Json)
  | [] => []
  | (name, v) :: rest =>
    let arranged :=
      match t.field? name with
      | some field => arrangeOr fallback m v field.type
      | none => v
    (name, arranged) :: arrangeMembersOr fallback m t rest

end

theorem arrangeItemsOr_eq {fallback : Json} {item : TypeRef} {items : List Json}
    (h : ∀ v ∈ items, arrangeOr fallback m v item = arrange m v item) :
    arrangeItemsOr fallback m item items = arrangeItems m item items := by
  induction items with
  | nil => rfl
  | cons v rest ih =>
    rw [List.forall_mem_cons] at h
    rw [arrangeItemsOr, h.1, ih h.2, arrangeItems]

theorem arrangeMembersOr_eq {fallback : Json} {c : ComplexType}
    (hc : AreSlots m.typeNames c.fields) {members : List (String × Json)}
    (h : ∀ member ∈ members, ∀ t : TypeRef, t.IsResult m.typeNames →
      arrangeOr fallback m member.2 t = arrange m member.2 t) :
    arrangeMembersOr fallback m c members = arrangeMembers m c members := by
  induction members with
  | nil => rfl
  | cons member rest ih =>
    obtain ⟨name, v⟩ := member
    rw [List.forall_mem_cons] at h
    rw [arrangeMembersOr, arrangeMembers, ih h.2]
    cases hfield : c.field? name with
    | some field =>
      have hslot := hc field (List.mem_of_find?_eq_some hfield)
      simp only [h.1 field.type (.inr hslot)]
    | none => rfl

/-- What is put in place of an object of an undefined type makes no difference to the values of the
types of a closed model. -/
theorem arrangeOr_eq_arrange (hm : m.IsClosed) (fallback : Json) {v : Json}
    (ht : t.IsResult m.typeNames) : arrangeOr fallback m v t = arrange m v t := by
  induction v using Json.inductionOn generalizing t with
  | arr items ih =>
    cases t with
    | array item =>
      have hitem : item.IsSingle m.typeNames := ht.resolve_left (by simp)
      rw [arrangeOr, arrange, arrangeItemsOr_eq fun v hv => ih v hv (.inr hitem.isSlot)]
    | _ => rfl
  | obj members ih =>
    cases t with
    | complex typeName =>
      have hname : typeName ∈ m.typeNames := ht.resolve_left (by simp)
      obtain ⟨c, hc⟩ := Option.isSome_iff_exists.mp (ServiceModel.isSome_complexType?_iff.mpr hname)
      rw [arrangeOr, arrange, hc]
      simp only [arrangeMembersOr_eq (hm.areSlots hc)
        fun member hmember t ht => ih member hmember ht]
    | _ => rfl
  | _ => rfl

end SoapClient
