import SoapClient.Proofs.Wsdl.Messages

/-!
# How operations are laid out

Main statement: an operation of a model is laid out by the parts that it takes. In document style
these are body elements themselves, or the only one is an element around the parameters
(`exists_shape_of_bindOperation`).
-/

namespace SoapClient.Wsdl

open Outcome
open Xml (QName)
open Schema

variable {c : Components} {b : Bound} {s s' : Resolution} {name style : String} {parts : List Part}
  {output : Option (List Part)} {shape : Shape}

namespace Shape

/-- The parts of a message are body elements. The namespace is that of the first element that a part
refers to, and the request's element has the name of that element. -/
structure HasBareParts (shape : Shape) (name : String) (parts : List Part) : Prop where
  style : shape.style = .documentBare
  parameters : shape.parameters.map (·.name) = parts.map (·.name)
  namespaceName : shape.namespaceName = (parts.findSome? (·.element)).bind (·.namespaceName)
  requestElement :
    shape.requestElement = ((parts.findSome? (·.element)).map (·.localName)).getD name
  qualifiedParameters : shape.qualifiedParameters = true

/-- The only part of a message is an element around the parameters. These are written as its
declaration says. -/
structure HasWrapper (shape : Shape) (c : Components) (parts : List Part) (element : QName) :
    Prop where
  style : shape.style = .documentWrapped
  wrapper : wrapper? parts = some element
  namespaceName : shape.namespaceName = element.namespaceName
  requestElement : shape.requestElement = element.localName
  qualifiedParameters : ∃ decl, Table.find? element c.elements = some decl ∧
    shape.qualifiedParameters = decl.isQualified

/-- A shape in document style. -/
def IsDocument (shape : Shape) (c : Components) (name : String) (parts : List Part) : Prop :=
  shape.HasBareParts name parts ∨ ∃ element, shape.HasWrapper c parts element

end Shape

/-! ## Shapes -/

/-- Parameters have the names of the parts. -/
theorem names_of_partParameters {parameters : List Parameter}
    (h : partParameters c parts s = .ok (parameters, s')) :
    parameters.map (·.name) = parts.map (·.name) := by
  induction parts generalizing s s' parameters with
  | nil =>
    obtain ⟨rfl, -⟩ := Prod.mk.inj (Except.ok.inj h)
    rfl
  | cons p rest ih =>
    rw [partParameters, run_bind_eq_ok_iff] at h
    obtain ⟨type, s₁, -, h⟩ := h
    rw [run_bind_eq_ok_iff] at h
    obtain ⟨others, s₂, hothers, h⟩ := h
    obtain ⟨rfl, -⟩ := Prod.mk.inj (Except.ok.inj h)
    rw [List.map_cons, List.map_cons, ih hothers]

/-- An element that has a type is declared. -/
theorem exists_of_resolve_element {element : QName} {type : TypeRef}
    (h : resolve c (.element element) s = .ok (type, s')) :
    ∃ decl, Table.find? element c.elements = some decl := by
  rw [resolve_eq, resolveTarget] at h
  cases hfind : Table.find? element c.elements with
  | some decl => exact ⟨decl, rfl⟩
  | none =>
    rw [hfind] at h
    cases h

theorem hasBareParts_of_bareShape (h : bareShape c name parts output s = .ok (shape, s')) :
    shape.HasBareParts name parts := by
  rw [bareShape, run_bind_eq_ok_iff] at h
  obtain ⟨parameters, s₁, hparameters, h⟩ := h
  rw [run_bind_eq_ok_iff] at h
  obtain ⟨returnType, s₂, -, h⟩ := h
  obtain ⟨rfl, -⟩ := Prod.mk.inj (Except.ok.inj h)
  exact ⟨rfl, names_of_partParameters hparameters, rfl, rfl, rfl⟩

theorem hasWrapper_of_wrappedShape {element : QName} {decl : ElementDecl}
    {parameters : List Parameter} (hwrapper : wrapper? parts = some element)
    (hdecl : Table.find? element c.elements = some decl)
    (h : wrappedShape c element parameters output s = .ok (shape, s')) :
    shape.HasWrapper c parts element := by
  rw [wrappedShape, run_bind_eq_ok_iff] at h
  obtain ⟨⟨returnType, resultElement⟩, s₁, -, h⟩ := h
  obtain ⟨rfl, -⟩ := Prod.mk.inj (Except.ok.inj h)
  refine ⟨rfl, hwrapper, rfl, rfl, decl, hdecl, ?_⟩
  rw [hdecl]
  rfl

theorem isDocument_of_documentShape (h : documentShape c name parts output s = .ok (shape, s')) :
    shape.IsDocument c name parts := by
  rw [documentShape] at h
  cases hwrapper : (wrapper? parts).filter (·.localName = name) with
  | none =>
    rw [hwrapper] at h
    exact .inl (hasBareParts_of_bareShape h)
  | some element =>
    simp only [hwrapper] at h
    rw [run_bind_eq_ok_iff] at h
    obtain ⟨type, s₁, htype, h⟩ := h
    rw [run_bind_eq_ok_iff] at h
    obtain ⟨fields, s₂, -, h⟩ := h
    cases fields with
    | none => exact .inl (hasBareParts_of_bareShape h)
    | some parameters =>
      obtain ⟨decl, hdecl⟩ := exists_of_resolve_element htype
      have hpart := (Option.filter_eq_some_iff.mp hwrapper).1
      exact .inr ⟨element, hasWrapper_of_wrappedShape hpart hdecl h⟩

theorem style_of_rpcShape (h : rpcShape c name parts output s = .ok (shape, s')) :
    shape.style = .rpc := by
  rw [rpcShape, run_bind_eq_ok_iff] at h
  obtain ⟨parameters, s₁, -, h⟩ := h
  rw [run_bind_eq_ok_iff] at h
  obtain ⟨returnType, s₂, -, h⟩ := h
  obtain ⟨rfl, -⟩ := Prod.mk.inj (Except.ok.inj h)
  rfl

/-- The parts that an operation takes, as they are read. -/
def readInput (b : Bound) (decl : OperationDecl) : Resolve (List Part) :=
  match decl.input with
  | some target => lift (b.definitions.message "input" target)
  | none => pure []

/-- The parts that an operation gives, as they are read. -/
def readOutput (b : Bound) (decl : OperationDecl) : Resolve (Option (List Part)) :=
  match decl.output with
  | some target => some <$> lift (b.definitions.message "output" target)
  | none => pure none

/-- An operation is read message by message. -/
theorem readShape_eq (b : Bound) (name style : String) (decl : OperationDecl) :
    readShape b name style decl = (do
      let input ← readInput b decl
      let output ← readOutput b decl
      if style = "rpc" then rpcShape b.components name input output
      else documentShape b.components name input output) := by
  rw [readShape, readInput, readOutput]
  cases decl.input <;> cases decl.output <;> simp only [pure_bind, map_eq_pure_bind, bind_assoc]

/-- A shape is that of the parts that the operation takes, in the style of its binding. -/
theorem exists_takes_of_readShape {decl : OperationDecl}
    (h : readShape b name style decl s = .ok (shape, s')) :
    ∃ parts, b.definitions.Takes decl parts ∧
      if style = "rpc" then shape.style = .rpc
      else shape.IsDocument b.components name parts := by
  rw [readShape_eq, run_bind_eq_ok_iff] at h
  obtain ⟨parts, s₁, hparts, h⟩ := h
  rw [run_bind_eq_ok_iff] at h
  obtain ⟨output, s₂, -, h⟩ := h
  refine ⟨parts, ?_, ?_⟩
  · rw [readInput] at hparts
    rw [Definitions.Takes]
    cases hinput : decl.input with
    | some target =>
      rw [hinput] at hparts
      exact (lift_eq_ok hparts).1
    | none =>
      rw [hinput] at hparts
      exact (Prod.mk.inj (Except.ok.inj hparts)).1.symm
  · by_cases hstyle : style = "rpc"
    · rw [if_pos hstyle] at h ⊢
      exact style_of_rpcShape h
    · rw [if_neg hstyle] at h ⊢
      exact isDocument_of_documentShape h

/-! ## Operations -/

/-- An operation with a shape. In document style the shape also gives the namespace. -/
structure HasShape (op : Operation) (shape : Shape) : Prop where
  style : op.style = shape.style
  parameters : op.parameters = shape.parameters
  namespaceName : shape.style ≠ .rpc → op.namespaceName = shape.namespaceName
  requestElement : op.requestElement = shape.requestElement
  qualifiedParameters : op.qualifiedParameters = shape.qualifiedParameters

theorem Shape.IsDocument.style_ne_rpc (h : shape.IsDocument c name parts) :
    shape.style ≠ .rpc := by
  rcases h with h | ⟨element, h⟩
  · rw [h.style]
    decide
  · rw [h.style]
    decide

/-- An operation that is bound has the shape of the parts that it takes. -/
theorem exists_shape_of_bindOperation {decl : OperationDecl} {op : Operation}
    (h : bindOperation b name decl s = .ok (op, s')) :
    ∃ parts shape, b.definitions.Takes decl parts ∧ HasShape op shape ∧
      (op.style = .rpc ∨ shape.IsDocument b.components name parts) := by
  rw [bindOperation, run_bind_eq_ok_iff] at h
  obtain ⟨shape, s₁, hshape, h⟩ := h
  obtain ⟨parts, htakes, hlayout⟩ := exists_takes_of_readShape hshape
  refine ⟨parts, shape, htakes, ?_⟩
  dsimp only at h
  cases hrepeated : firstRepeated? [] (shape.parameters.map (·.name)) with
  | some parameter =>
    rw [hrepeated] at h
    cases h
  | none =>
    rw [hrepeated] at h
    obtain ⟨rfl, -⟩ := Prod.mk.inj (Except.ok.inj h)
    split at hlayout
    case isTrue hstyle => exact ⟨⟨rfl, rfl, fun hne => absurd hlayout hne, rfl, rfl⟩, .inl hlayout⟩
    case isFalse hstyle =>
      -- the binding gives a namespace in the other style only
      refine ⟨⟨rfl, rfl, fun _ => ?_, rfl, rfl⟩, .inr hlayout⟩
      rw [if_neg hstyle]
      rfl

end SoapClient.Wsdl
