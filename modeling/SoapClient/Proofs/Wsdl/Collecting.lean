import SoapClient.Proofs.Schema.Collecting
import SoapClient.Proofs.Wsdl.Interpretation

/-!
# Contents of the types of a model

Binding services goes from state to state by resolving names only, so what every resolution of a
name relates is related by the interpretation of a document (`bindServices_relates`). In particular
the content of every type of a model was collected (`Interpretation.wasCollected`).
-/

namespace SoapClient.Wsdl

open Xml (Element QName)
open Schema

variable {c : Components} {R : Resolution → Resolution → Prop} [IsPreorder Resolution R]

section

variable (hresolve : ∀ target, Relates R (resolve c target))
include hresolve

omit [IsPreorder Resolution R] in
theorem partType_relates (p : Part) : Relates R (partType c p) := by
  rw [partType]
  cases p.element with
  | some element => exact hresolve _
  | none =>
    cases p.type with
    | some type => exact hresolve _
    | none => exact .throw _

theorem partParameters_relates (parts : List Part) : Relates R (partParameters c parts) := by
  induction parts with
  | nil => exact .pure _
  | cons p rest ih =>
    rw [partParameters]
    exact (partType_relates hresolve p).bind fun _ => ih.map _

theorem firstPartType_relates (parts : Option (List Part)) :
    Relates R (firstPartType c parts) := by
  rw [firstPartType]
  cases parts.bind List.head? with
  | some p => exact partType_relates hresolve p
  | none => exact .pure _

omit hresolve in
theorem fieldsOfType_relates (t : TypeRef) : Relates R (fieldsOfType t) := by
  cases t with
  | complex name => exact (Relates.fieldsOf name).map _
  | primitive kind => exact .pure _
  | array item => exact .pure _
  | void => exact .pure _

theorem rpcShape_relates (name : String) (input : List Part) (output : Option (List Part)) :
    Relates R (rpcShape c name input output) :=
  (partParameters_relates hresolve input).bind fun _ =>
    (firstPartType_relates hresolve output).map _

theorem bareShape_relates (name : String) (input : List Part) (output : Option (List Part)) :
    Relates R (bareShape c name input output) :=
  (partParameters_relates hresolve input).bind fun _ =>
    (firstPartType_relates hresolve output).map _

theorem wrappedResult_relates (output : Option (List Part)) :
    Relates R (wrappedResult c output) := by
  rw [wrappedResult]
  cases output.bind wrapper? with
  | some response =>
    refine (hresolve _).bind fun type => (fieldsOfType_relates type).bind fun found => ?_
    rcases found with _ | _ | ⟨_, _ | _⟩
    · exact .pure _
    · exact .pure _
    · exact .pure _
    · exact .pure _
  | none => exact (firstPartType_relates hresolve output).map _

theorem wrappedShape_relates (element : QName) (parameters : List Parameter)
    (output : Option (List Part)) : Relates R (wrappedShape c element parameters output) :=
  (wrappedResult_relates hresolve output).map _

theorem documentShape_relates (name : String) (input : List Part) (output : Option (List Part)) :
    Relates R (documentShape c name input output) := by
  rw [documentShape]
  cases (wrapper? input).filter (·.localName = name) with
  | none => exact bareShape_relates hresolve name input output
  | some element =>
    refine (hresolve _).bind fun type => (fieldsOfType_relates type).bind fun found => ?_
    cases found with
    | some parameters => exact wrappedShape_relates hresolve element parameters output
    | none => exact bareShape_relates hresolve name input output

end

section

variable {b : Bound} (hresolve : ∀ target, Relates R (resolve b.components target))
include hresolve

theorem readShape_relates (name style : String) (decl : OperationDecl) :
    Relates R (readShape b name style decl) := by
  have hshape : ∀ input output, Relates R
      (if style = "rpc" then rpcShape b.components name input output
        else documentShape b.components name input output) := by
    intro input output
    split
    · exact rpcShape_relates hresolve name input output
    · exact documentShape_relates hresolve name input output
  rw [readShape]
  cases decl.input with
  | some target =>
    refine (Relates.lift _).bind fun input => ?_
    cases decl.output with
    | some target => exact (Relates.lift _).bind fun parts => hshape input (some parts)
    | none => exact hshape input none
  | none =>
    cases decl.output with
    | some target => exact (Relates.lift _).bind fun parts => hshape [] (some parts)
    | none => exact hshape [] none

theorem bindOperation_relates (name : String) (decl : OperationDecl) :
    Relates R (bindOperation b name decl) := by
  rw [bindOperation]
  refine (readShape_relates hresolve name _ decl).bind fun shape => ?_
  dsimp only
  cases firstRepeated? [] (shape.parameters.map (·.name)) with
  | some parameter => exact .throw _
  | none => exact .pure _

theorem bindOperations_relates (earlier : List String) (decls : List OperationDecl) :
    Relates R (bindOperations b earlier decls) := by
  induction decls generalizing earlier with
  | nil => exact .pure _
  | cons decl rest ih =>
    rw [bindOperations]
    refine (Relates.lift _).bind fun name => ?_
    by_cases hname : name ∈ earlier
    · simp only [if_pos hname]
      exact .throw _
    · simp only [if_neg hname]
      exact (bindOperation_relates hresolve name decl).bind fun _ => (ih _).map _

end

section

variable (hresolve : ∀ target, Relates R (resolve c target))
include hresolve

theorem bindService_relates (d : Definitions) (name : String) (decl : ServiceDecl) :
    Relates R (bindService d c name decl) := by
  rw [bindService]
  refine (Relates.lift _).bind fun ports => ?_
  cases selectPort ports with
  | none => exact .pure _
  | some port =>
    exact (Relates.lift _).bind fun declared =>
      (bindOperations_relates (b := ⟨d, c, port.soap⟩) hresolve [] declared).map _

/-- Binding services relates what resolving names does. -/
theorem bindServices_relates (d : Definitions) (earlier : List String) (decls : List ServiceDecl) :
    Relates R (bindServices d c earlier decls) := by
  induction decls generalizing earlier with
  | nil => exact .pure _
  | cons decl rest ih =>
    rw [bindServices]
    refine (Relates.lift _).bind fun name => ?_
    by_cases hname : name ∈ earlier
    · simp only [if_pos hname]
      exact .throw _
    · simp only [if_neg hname]
      exact (bindService_relates hresolve d name decl).bind fun _ => (ih _).map _

end

variable {root : Element} {m : ServiceModel}

namespace Interpretation

/-- The content of every type of a model was collected. -/
theorem wasCollected (I : Interpretation root m) {key : TypeKey} {name : String}
    {content : List Content} (h : (key, name) ∈ I.register)
    (hdecl : I.components.Declares key (.mk none content)) :
    WasCollected I.components content := by
  have hinterpret : Relates (NotesDone I.components)
      (interpret I.definitions I.components I.description.services) :=
    (resolveAll_collects _).bind fun _ =>
      bindServices_relates (resolveWithin_collects _ _) _ _ _
  have hnoted : Table.find? key I.resolution.resolved ≠ none := by
    rw [I.registered.entered key name h]
    exact Option.some_ne_none _
  obtain ⟨decl, hdecl', hcollected⟩ := hinterpret _ _ _ I.resolved key rfl hnoted
  obtain rfl := I.consistent.declares_unique hdecl hdecl'
  exact hcollected content rfl

end Interpretation

end SoapClient.Wsdl
