import SoapClient.Model.Lookup

/-!
# Closed models

A model is closed where its types refer to nothing but its types. Values of a type are single ones
or arrays of such, and that there is no value can be said of a result only.
-/

namespace SoapClient

namespace TypeRef

/-- A type of single values that refers to no structured types but those with the given names. -/
def IsSingle (names : List String) : TypeRef → Prop
  | .primitive _ => True
  | .complex name => name ∈ names
  | .void => False
  | .array _ => False

/-- A type of what a field or a parameter holds: single values, or arrays of single values. -/
def IsSlot (names : List String) : TypeRef → Prop
  | .array item => item.IsSingle names
  | t => t.IsSingle names

/-- A type of what an operation returns: no value, or what a field can hold. -/
def IsResult (names : List String) (t : TypeRef) : Prop := t = .void ∨ t.IsSlot names

variable {names names' : List String} {t : TypeRef}

theorem IsSingle.isSlot (h : t.IsSingle names) : t.IsSlot names := by
  cases t with
  | array item => exact h.elim
  | _ => exact h

theorem IsSingle.mono (h : t.IsSingle names) (hsub : names ⊆ names') : t.IsSingle names' := by
  cases t with
  | complex name => exact hsub h
  | _ => exact h

theorem IsSlot.mono (h : t.IsSlot names) (hsub : names ⊆ names') : t.IsSlot names' := by
  cases t with
  | array item => exact IsSingle.mono h hsub
  | complex name => exact hsub h
  | _ => exact h

theorem IsResult.mono (h : t.IsResult names) (hsub : names ⊆ names') : t.IsResult names' :=
  h.imp_right (·.mono hsub)

end TypeRef

/-- Parameters, or the fields of a structured type, that refer to the given types only. -/
def AreSlots (names : List String) (parameters : List Parameter) : Prop :=
  ∀ p ∈ parameters, p.type.IsSlot names

theorem AreSlots.mono {names names' : List String} {parameters : List Parameter}
    (h : AreSlots names parameters) (hsub : names ⊆ names') : AreSlots names' parameters :=
  fun p hp => (h p hp).mono hsub

/-- An operation that refers to the given types only. -/
structure Operation.IsClosed (names : List String) (op : Operation) : Prop where
  parameters : AreSlots names op.parameters
  returnType : op.returnType.IsResult names

theorem Operation.IsClosed.mono {names names' : List String} {op : Operation}
    (h : op.IsClosed names) (hsub : names ⊆ names') : op.IsClosed names' :=
  ⟨h.parameters.mono hsub, h.returnType.mono hsub⟩

namespace ServiceModel

/-- The names of the structured types. -/
def typeNames (m : ServiceModel) : List String := m.types.map (·.name)

/-- A model of which all types are defined. -/
structure IsClosed (m : ServiceModel) : Prop where
  operations : ∀ service ∈ m.services, ∀ op ∈ service.operations, op.IsClosed m.typeNames
  types : ∀ t ∈ m.types, AreSlots m.typeNames t.fields

variable {m : ServiceModel}

/-- A type is found under a name exactly where the name is one of a type. -/
theorem isSome_complexType?_iff {name : String} :
    (m.complexType? name).isSome ↔ name ∈ m.typeNames := by
  simp [complexType?, typeNames, List.find?_isSome]

/-- The fields of a type that is found refer to types of the model. -/
theorem IsClosed.areSlots (h : m.IsClosed) {name : String} {c : ComplexType}
    (hc : m.complexType? name = some c) : AreSlots m.typeNames c.fields :=
  h.types c (List.mem_of_find?_eq_some hc)

end ServiceModel

end SoapClient
