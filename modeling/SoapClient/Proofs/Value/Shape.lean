import SoapClient.Proofs.Model.Closed
import SoapClient.Proofs.Value.Coercion
import SoapClient.Proofs.Value.Decimals
import SoapClient.Proofs.Value.Legible

/-!
# Shapes of values that are read

Main statement: what a raw value is read as has the shape of the type, an object keeps its members,
and reading the result changes nothing (`coerce_sound`).
-/

namespace SoapClient

open Decimal

variable {m : ServiceModel} {t : TypeRef} {v r : Json}

namespace ServiceModel

/-- The shape of a type: null, a value that its kind takes, items of the shape of an item, or an
object. A declared member of an object has the shape of its field, which is the first one with the
name of the member. Other members may be anything. -/
inductive HasShape (m : ServiceModel) : TypeRef → Json → Prop
  | null (t : TypeRef) : HasShape m t .null
  | primitive {kind : PrimitiveKind} {v : Json} :
    kind.accepts v = true → HasShape m (.primitive kind) v
  | array {item : TypeRef} {items : List Json} :
    (∀ v ∈ items, HasShape m item v) → HasShape m (.array item) (.arr items)
  | complex {typeName : String} {c : ComplexType} {members : List (String × Json)} :
    m.complexType? typeName = some c →
      (∀ member ∈ members, ∀ field, c.field? member.1 = some field →
        HasShape m field.type member.2) →
      HasShape m (.complex typeName) (.obj members)

/-- All structured types that a value of a type may hold are defined. -/
def IsDefined (m : ServiceModel) (t : TypeRef) : Prop :=
  ∀ typeName, m.Holds t (.complex typeName) → (m.complexType? typeName).isSome

theorem IsDefined.item {item : TypeRef} (h : m.IsDefined (.array item)) : m.IsDefined item :=
  fun typeName hholds => h typeName (.item hholds)

theorem IsDefined.field {typeName : String} {c : ComplexType} {field : Parameter}
    (h : m.IsDefined (.complex typeName)) (hc : m.complexType? typeName = some c)
    (hfield : field ∈ c.fields) : m.IsDefined field.type :=
  fun typeName hholds => h typeName (.field hc hfield hholds)

/-- What a type of a closed model holds is of types of the model. -/
theorem IsClosed.isResult_of_holds (h : m.IsClosed) (ht : t.IsResult m.typeNames) {u : TypeRef}
    (hu : m.Holds t u) : u.IsResult m.typeNames := by
  induction hu with
  | self => exact ht
  | item _ ih =>
    have hitem := ht.resolve_left (by simp)
    exact ih (.inr (TypeRef.IsSingle.isSlot hitem))
  | field hc hfield _ ih => exact ih (.inr (h.areSlots hc _ hfield))

/-- In a closed model all types are defined that an operation refers to. -/
theorem IsClosed.isDefined (h : m.IsClosed) (ht : t.IsResult m.typeNames) : m.IsDefined t := by
  intro typeName hholds
  have hresult := h.isResult_of_holds ht hholds
  exact isSome_complexType?_iff.mpr (hresult.resolve_left (by simp))

end ServiceModel

/-! ## Primitive values -/

/-- The text of a special floating point value has no blanks around it. -/
theorem trim_of_isSpecialFloat {s : String} (h : isSpecialFloat s = true) :
    Text.trim (Text.trim s) = Text.trim s := by
  have hmem : Text.trim s ∈ specialFloats := by simpa [isSpecialFloat] using h
  have hall : ∀ special ∈ specialFloats, Text.trim special = special := by decide
  exact hall _ hmem

/-- A number in a range of a list is a whole number that one of the ranges holds. -/
theorem exists_of_readWhole? {ranges : List Range} {s : String}
    (h : readWhole? ranges s = some r) :
    ∃ n : Json.Whole, r = .whole n ∧ ∃ range ∈ ranges, range.holds n.value = true := by
  obtain ⟨n, hn, hof⟩ := Option.bind_eq_some_iff.mp h
  obtain ⟨range, hrange, hread⟩ := List.exists_of_findSome?_eq_some hn
  have hholds : range.holds n = true := (Option.filter_eq_some_iff.mp hread).2
  obtain ⟨whole, hwhole, rfl⟩ := Option.map_eq_some_iff.mp hof
  have hvalue : whole.value = n := by
    unfold Json.Whole.ofInt? at hwhole
    split at hwhole
    · rw [← Option.some.inj hwhole]
    · cases hwhole
  exact ⟨whole, rfl, range, hrange, hvalue ▸ hholds⟩

/-- A floating point value is a number, or the text of a special one without blanks around it, which
is read as itself. -/
theorem readFloat?_spec {s : String} (h : readFloat? s = some r) :
    (∃ x, r = .real x) ∨
      ∃ special, r = .str special ∧ isSpecialFloat special = true ∧
        readFloat? special = some (.str special) := by
  unfold readFloat? at h
  split at h
  · next hspecial =>
    obtain rfl := Option.some.inj h
    have htrim := trim_of_isSpecialFloat hspecial
    have hself : isSpecialFloat (Text.trim s) = true := by
      rw [isSpecialFloat, htrim]
      exact hspecial
    exact .inr ⟨_, rfl, hself, by rw [readFloat?, if_pos hself, htrim]⟩
  · obtain ⟨x, -, rfl⟩ := Option.map_eq_some_iff.mp h
    exact .inl ⟨x, rfl⟩

/-- A decimal is a number, or a text with a canonical form that is read as itself. -/
theorem readDecimal?_spec {s : String} (h : readDecimal? s = some r) :
    (∃ n, r = .whole n) ∨ (∃ x, r = .real x) ∨
      ∃ text, r = .str text ∧ isDecimalText text = true ∧ readDecimal? text = some (.str text) := by
  obtain ⟨canonical, hcanonical, hreads⟩ := readsDecimal_of_readDecimal? h
  cases hreads with
  | number hexact =>
    cases hexact with
    | whole => exact .inl ⟨_, rfl⟩
    | real => exact .inr (.inl ⟨_, rfl⟩)
  | text _ =>
    refine .inr (.inr ⟨_, rfl, ?_, readDecimal?_self h⟩)
    rw [isDecimalText, String.toList_ofList, canonical?_self hcanonical]
    rfl

/-- A kind takes what it makes of a text, and makes the same of it again. -/
theorem PrimitiveKind.readText?_spec {kind : PrimitiveKind} {s : String}
    (h : kind.readText? s = some r) : kind.accepts r = true ∧ kind.read? r = some r := by
  cases kind with
  | boolean =>
    simp only [readText?, readBoolean?] at h
    split at h
    · obtain rfl := Option.some.inj h
      exact ⟨rfl, rfl⟩
    · split at h
      · obtain rfl := Option.some.inj h
        exact ⟨rfl, rfl⟩
      · cases h
  | int =>
    obtain ⟨n, rfl, range, hrange, hholds⟩ := exists_of_readWhole? h
    obtain rfl := List.mem_singleton.mp hrange
    have haccepts : PrimitiveKind.int.accepts (.whole n) = true := hholds
    refine ⟨haccepts, ?_⟩
    show (if PrimitiveKind.int.accepts (.whole n) then some (Json.whole n) else none) = _
    rw [if_pos haccepts]
  | long =>
    obtain ⟨n, rfl, -⟩ := exists_of_readWhole? h
    exact ⟨rfl, rfl⟩
  | float | double =>
    rcases readFloat?_spec h with ⟨x, rfl⟩ | ⟨special, rfl, hspecial, hself⟩
    · exact ⟨rfl, rfl⟩
    · exact ⟨hspecial, hself⟩
  | decimal =>
    rcases readDecimal?_spec h with ⟨n, rfl⟩ | ⟨x, rfl⟩ | ⟨text, rfl, htext, hself⟩
    · exact ⟨rfl, rfl⟩
    · exact ⟨rfl, rfl⟩
    · exact ⟨htext, hself⟩
  | _ =>
    obtain rfl := Option.some.inj h
    exact ⟨rfl, rfl⟩

/-- Every text is a value of a kind whose values are texts. -/
theorem PrimitiveKind.read?_str_of_isTextual {kind : PrimitiveKind} (h : kind.isTextual = true)
    (s : String) : kind.accepts (.str s) = true ∧ kind.read? (.str s) = some (.str s) := by
  cases kind with
  | string | dateTime | date | time | base64Binary => exact ⟨rfl, rfl⟩
  | _ => cases h

/-- A kind takes what it makes of a value, and makes the same of it again. -/
theorem PrimitiveKind.read?_spec {kind : PrimitiveKind} (h : kind.read? v = some r) :
    kind.accepts r = true ∧ kind.read? r = some r := by
  have hread := h
  unfold PrimitiveKind.read? at hread
  split at hread
  · exact PrimitiveKind.readText?_spec hread
  · split at hread
    · next s hs =>
      split at hs
      · next htextual =>
        obtain rfl := Option.some.inj hread
        exact PrimitiveKind.read?_str_of_isTextual htextual s
      · cases hs
    · split at hread
      · next haccepts =>
        obtain rfl := Option.some.inj hread
        exact ⟨haccepts, h⟩
      · cases hread

/-! ## All values -/

/-- What is read has the shape of its type, and is read as itself. -/
theorem hasShape_of_reads (ht : m.IsDefined t) (h : ReadsAs m v t r) :
    m.HasShape t r ∧ ReadsAs m r t r := by
  refine ReadsAs.inductionOn (P := fun _ t r => m.IsDefined t → m.HasShape t r ∧ ReadsAs m r t r) h
    ?null ?void ?primitive ?blankArray ?blankObject ?single ?arr ?obj ht
  case null => exact fun t _ => ⟨.null t, reads_null.mpr rfl⟩
  case void => exact fun _ _ => ⟨.null _, reads_null.mpr rfl⟩
  case primitive =>
    intro kind v r hv hread _
    obtain ⟨haccepts, hself⟩ := PrimitiveKind.read?_spec hread
    refine ⟨.primitive haccepts, ?_⟩
    by_cases hr : r = .null
    · rw [hr]
      exact reads_null.mpr rfl
    · exact (reads_primitive_iff hr).mpr hself
  case blankArray =>
    intro s item _ _
    exact ⟨.array (by simp), reads_arr_iff.mpr ⟨[], rfl, .nil⟩⟩
  case blankObject =>
    intro s typeName _ ht
    obtain ⟨c, hc⟩ := Option.isSome_iff_exists.mp (ht typeName (.self _))
    exact ⟨.complex hc (by simp), reads_obj_iff.mpr ⟨c, [], hc, rfl, .nil⟩⟩
  case single =>
    intro v r item _ ih ht
    obtain ⟨hshape, hself⟩ := ih ht.item
    exact ⟨.array (by simpa using hshape), reads_arr_iff.mpr ⟨[r], rfl, .cons hself .nil⟩⟩
  case arr =>
    intro items items' item hitems ht
    have hall : ∀ r ∈ items', m.HasShape item r ∧ ReadsAs m r item r := by
      intro r hr
      obtain ⟨v, -, hv⟩ := exists_of_forall₂_right hitems hr
      exact hv ht.item
    refine ⟨.array fun r hr => (hall r hr).1, reads_arr_iff.mpr ⟨items', rfl, ?_⟩⟩
    rw [List.forall₂_same]
    exact fun r hr => (hall r hr).2
  case obj =>
    intro members members' typeName c hc hmembers ht
    have hall : ∀ member' ∈ members', (∀ field, c.field? member'.1 = some field →
        m.HasShape field.type member'.2) ∧ ReadsMember m c member' member' := by
      intro member' hmember'
      obtain ⟨member, -, hreads, ih⟩ := exists_of_forall₂_right hmembers hmember'
      rw [hreads.name]
      have hfield : ∀ field, c.field? member.1 = some field →
          m.HasShape field.type member'.2 ∧ ReadsAs m member'.2 field.type member'.2 :=
        fun field hfield => ih field hfield (ht.field hc (c.mem_of_field? hfield).1)
      refine ⟨fun field h => (hfield field h).1, rfl, fun field h => ?_, fun _ => rfl⟩
      rw [hreads.name] at h
      exact (hfield field h).2
    refine ⟨.complex hc fun member' hmember' => (hall member' hmember').1,
      reads_obj_iff.mpr ⟨c, members', hc, rfl, ?_⟩⟩
    rw [List.forall₂_same]
    exact fun member' hmember' => (hall member' hmember').2

/-- What a raw value is read as has the shape of the type, where all structured types inside of it
are defined. An object that is read as one of a structured type keeps its members in their order,
and those that the type does not declare are not touched. Reading the result again changes nothing.
-/
theorem coerce_sound (m : ServiceModel) {v r : Json} {t : TypeRef}
    (ht : ∀ typeName, m.Holds t (.complex typeName) → (m.complexType? typeName).isSome)
    (h : coerce m v t = .ok r) :
    m.HasShape t r ∧
      (∀ members typeName, v = .obj members → t = .complex typeName →
        ∃ c members', m.complexType? typeName = some c ∧ r = .obj members' ∧
          List.Forall₂ (fun member member' => member'.1 = member.1 ∧
            (c.field? member.1 = none → member' = member)) members members') ∧
      coerce m r t = .ok r := by
  have hreads := reads_iff.mpr h
  obtain ⟨hshape, hself⟩ := hasShape_of_reads ht hreads
  refine ⟨hshape, ?_, reads_iff.mp hself⟩
  rintro members typeName rfl rfl
  obtain ⟨c, members', hc, rfl, hmembers⟩ := reads_obj_iff.mp hreads
  refine ⟨c, members', hc, rfl, hmembers.imp fun member member' h => ⟨h.name, fun hfield => ?_⟩⟩
  exact Prod.ext h.name (h.undeclared hfield)

/-- A model with a type that refers to itself. -/
def treeModel : ServiceModel where
  targetNamespace := none
  services := []
  types := [⟨"Node", [⟨"name", .primitive .string, false⟩, ⟨"size", .primitive .decimal, false⟩,
    ⟨"children", .array (.complex "Node"), true⟩]⟩]

/-- A node with a number for a name, a size with zeros in front, a single child that is blank, and a
member that is not declared. -/
theorem coerce_sound_node :
    let raw := Json.obj [("size", .str " 012 "), ("name", .bool true),
      ("children", .obj [("children", .str " ")]), ("note", .str " ")]
    let node := Json.obj [("size", .whole ⟨12, by decide, by decide⟩), ("name", .str "true"),
      ("children", .arr [.obj [("children", .arr [])]]), ("note", .str " ")]
    coerce treeModel raw (.complex "Node") = .ok node ∧
      treeModel.HasShape (.complex "Node") node ∧
      coerce treeModel node (.complex "Node") = .ok node := by
  intro raw node
  have hclosed : treeModel.IsClosed := by
    refine ⟨by simp [treeModel], ?_⟩
    simp [treeModel, AreSlots, TypeRef.IsSlot, TypeRef.IsSingle, ServiceModel.typeNames]
  have hdefined := hclosed.isDefined (t := .complex "Node") (.inr List.mem_cons_self)
  have hread : coerce treeModel raw (.complex "Node") = .ok node := rfl
  obtain ⟨hshape, -, hself⟩ := coerce_sound treeModel hdefined hread
  exact ⟨hread, hshape, hself⟩

end SoapClient
