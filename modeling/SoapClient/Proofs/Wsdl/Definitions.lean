import SoapClient.Proofs.Schema.Faults
import SoapClient.Proofs.Schema.Meaning
import SoapClient.Wsdl.Model
import SoapClient.Wsdl.Reader

/-!
# Definitions of documents

Reading the definitions of a document and looking messages, bindings and port types up in them says
something about the document or fails on a fault of it. What holds of the names in definitions holds
of the names in what is looked up (`Definitions.HasNames`).
-/

namespace SoapClient.Wsdl

open Outcome
open Xml (Element)
open Schema

/-! ## Answers about definitions -/

theorem isAnswer_resolve (p : PartDecl) : IsAnswer p.resolve :=
  .bind (isAnswer_required _ _ _) fun _ => .bind (isAnswer_followOption _) fun _ =>
    .bind (isAnswer_followOption _) fun _ => .ok _

namespace Definitions

theorem isAnswer_add (d : Definitions) (decl : Declaration) : IsAnswer (d.add decl) := by
  match decl with
  | .imported location => exact .error rfl
  | .message name parts =>
    exact .bind (isAnswer_required _ _ _) fun _ =>
      .bind (.mapM isAnswer_resolve parts) fun _ => .ok _
  | .portType name operations => exact .bind (isAnswer_required _ _ _) fun _ => .ok _
  | .binding name decl => exact .bind (isAnswer_required _ _ _) fun _ => .ok _

theorem isAnswer_ofDescription (d : Description) : IsAnswer (ofDescription d) :=
  .foldlM isAnswer_add _ d.declarations

theorem isAnswer_message (d : Definitions) (direction : String) (target : Option Reference) :
    IsAnswer (d.message direction target) := by
  refine .bind (isAnswer_followRequired _ _ _) fun name => ?_
  cases Table.find? name d.messages with
  | some parts => exact .ok parts
  | none => exact .error rfl

theorem isAnswer_binding (d : Definitions) (port : PortDecl) : IsAnswer (d.binding port) := by
  refine .bind (isAnswer_followRequired _ _ _) fun name => ?_
  cases Table.find? name d.bindings with
  | some decl => exact .ok decl
  | none => exact .error rfl

theorem isAnswer_portType (d : Definitions) (decl : BindingDecl) :
    IsAnswer (d.portType decl) := by
  refine .bind (isAnswer_followRequired _ _ _) fun name => ?_
  cases Table.find? name d.portTypes with
  | some operations => exact .ok operations
  | none => exact .error rfl

end Definitions

theorem isAnswer_soapPorts (d : Definitions) (ports : List PortDecl) :
    IsAnswer (soapPorts d ports) := by
  induction ports with
  | nil => exact .ok []
  | cons port rest ih =>
    rw [soapPorts]
    refine .bind (d.isAnswer_binding port) fun binding => .bind ih fun others => ?_
    cases binding.soap with
    | some soap => exact .ok _
    | none => exact .ok _

theorem isAnswer_readDescription (root : Element) : IsAnswer (readDescription root) := by
  rw [readDescription]
  split
  · exact .ok _
  · exact .error rfl

/-! ## Names in definitions -/

namespace Definitions

/-- The names that definitions give to the parts of messages and to operations meet a condition. -/
structure HasNames (d : Definitions) (P : String → Prop) : Prop where
  parts : ∀ entry ∈ d.messages, ∀ p ∈ entry.2, P p.name
  operations : ∀ entry ∈ d.portTypes, ∀ decl ∈ entry.2, ∀ name, decl.name = some name → P name

namespace HasNames

variable {d : Definitions} {P : String → Prop}

/-- Names meet what all names meet. -/
theorem of_forall (h : ∀ name, P name) : d.HasNames P :=
  ⟨fun _ _ p _ => h p.name, fun _ _ _ _ name _ => h name⟩

/-- The parts of a message have names that meet the condition. -/
theorem message (hd : d.HasNames P) {direction : String} {target : Option Reference}
    {parts : List Part} (h : d.message direction target = .ok parts) : ∀ p ∈ parts, P p.name := by
  rw [Definitions.message, bind_eq_ok_iff] at h
  obtain ⟨key, -, h⟩ := h
  cases hfind : Table.find? key d.messages with
  | some found =>
    rw [hfind] at h
    rw [← Except.ok.inj h]
    exact hd.parts (key, found) (Components.mem_of_find? hfind)
  | none =>
    rw [hfind] at h
    cases h

/-- The operations of a port type have names that meet the condition. -/
theorem portType (hd : d.HasNames P) {binding : BindingDecl} {decls : List OperationDecl}
    (h : d.portType binding = .ok decls) :
    ∀ decl ∈ decls, ∀ name, decl.name = some name → P name := by
  rw [Definitions.portType, bind_eq_ok_iff] at h
  obtain ⟨key, -, h⟩ := h
  cases hfind : Table.find? key d.portTypes with
  | some found =>
    rw [hfind] at h
    rw [← Except.ok.inj h]
    exact hd.operations (key, found) (Components.mem_of_find? hfind)
  | none =>
    rw [hfind] at h
    cases h

end HasNames

end Definitions

end SoapClient.Wsdl
