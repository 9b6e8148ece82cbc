import SoapClient.Proofs.Schema.FieldNames
import SoapClient.Proofs.Schema.Soundness
import SoapClient.Proofs.Wsdl.Definitions

/-!
# Operations refer to types of the model

Whatever a description says about an operation, binding it keeps the register of the types, and the
operation refers to entered types only. That there is no value can be the result of an operation,
and is the type of none of its parameters. What holds of the names that the description gives holds
of the names in the operation. Main statement: services are bound so (`bindServices_upholds`).
-/

namespace SoapClient.Wsdl

open Xml (QName)
open Schema

variable {P : String → Prop} {c : Components} {r : Register} {s : Resolution}

/-! ## Parts of messages -/

/-- Parameters or fields that refer to the given types only, with names that meet a condition. -/
structure AreNamedSlots (names : List String) (P : String → Prop) (parameters : List Parameter) :
    Prop where
  slots : AreSlots names parameters
  named : ∀ parameter ∈ parameters, P parameter.name

namespace AreNamedSlots

variable {names names' : List String} {parameters : List Parameter}

theorem nil : AreNamedSlots names P [] := ⟨List.forall_mem_nil _, List.forall_mem_nil _⟩

theorem cons {parameter : Parameter} (hslot : parameter.type.IsSlot names)
    (hname : P parameter.name) (h : AreNamedSlots names P parameters) :
    AreNamedSlots names P (parameter :: parameters) :=
  ⟨List.forall_mem_cons.mpr ⟨hslot, h.slots⟩, List.forall_mem_cons.mpr ⟨hname, h.named⟩⟩

theorem mono (h : AreNamedSlots names P parameters) (hsub : names ⊆ names') :
    AreNamedSlots names' P parameters :=
  ⟨h.slots.mono hsub, h.named⟩

end AreNamedSlots

theorem isSingle_of_isTypeOf {mention : Mention} {t : TypeRef} (h : IsTypeOf c r mention t) :
    t.IsSingle r.names := by
  obtain ⟨μ, -, ht⟩ := h
  exact ht.isSingle

/-- A global name is resolved to a type of single values. -/
theorem resolve_isSingle (hc : c.IsConsistent) (h : IsRegistered c r [] s) (target : Target) :
    Upholds c r s (fun r' _ t => t.IsSingle r'.names) (resolve c target s) :=
  (resolve_upholds hc h target).mono fun _ _ _ _ _ ht => isSingle_of_isTypeOf ht

theorem partType_upholds (hc : c.IsConsistent) (h : IsRegistered c r [] s) (p : Part) :
    Upholds c r s (fun r' _ t => t.IsSingle r'.names) (partType c p s) := by
  rw [partType]
  cases p.element with
  | some element => exact resolve_isSingle hc h _
  | none =>
    cases p.type with
    | some type => exact resolve_isSingle hc h _
    | none => exact Upholds.throw rfl

theorem partParameters_upholds (hc : c.IsConsistent) (h : IsRegistered c r [] s)
    {parts : List Part} (hparts : ∀ p ∈ parts, P p.name) :
    Upholds c r s (fun r' _ parameters => AreNamedSlots r'.names P parameters)
      (partParameters c parts s) := by
  induction parts generalizing r s with
  | nil => exact Upholds.pure h .nil
  | cons p rest ih =>
    rw [List.forall_mem_cons] at hparts
    rw [partParameters]
    refine Upholds.bind (partType_upholds hc h p) ?_
    intro r₁ s₁ type h₁ _ htype
    refine Upholds.bind (ih h₁ hparts.2) ?_
    intro r₂ s₂ others h₂ hgrows hothers
    exact Upholds.pure h₂ (.cons (htype.mono hgrows.names_subset).isSlot hparts.1 hothers)

theorem firstPartType_upholds (hc : c.IsConsistent) (h : IsRegistered c r [] s)
    (parts : Option (List Part)) :
    Upholds c r s (fun r' _ t => t.IsResult r'.names) (firstPartType c parts s) := by
  rw [firstPartType]
  cases parts.bind List.head? with
  | some p => exact (partType_upholds hc h p).mono fun _ _ _ _ _ ht => .inr ht.isSlot
  | none => exact Upholds.pure h (.inl rfl)

/-- The fields of a type that was resolved can be looked up. They refer to entered types, and have
names that elements of the schemas have. -/
theorem fieldsOfType_upholds (hn : c.IsNamed P) (h : IsRegistered c r [] s) {t : TypeRef}
    (ht : t.IsSingle r.names) :
    Upholds c r s
      (fun r' _ found => ∀ fields, found = some fields → AreNamedSlots r'.names P fields)
      (fieldsOfType t s) := by
  cases t with
  | complex name =>
    obtain ⟨⟨key, other⟩, hmem, rfl⟩ := List.mem_map.mp ht
    obtain ⟨_, fields, -, -, hfields⟩ := h.collected key other hmem List.not_mem_nil
    have hlookup : Upholds c r s (fun r' _ fields => AreNamedSlots r'.names P fields)
        (fieldsOf other s) := by
      rw [fieldsOf, hfields]
      exact Upholds.pure h
        ⟨h.slots key other fields hmem hfields, name_of_isRegistered hn h hmem hfields⟩
    refine Upholds.bind hlookup fun r₁ s₁ found h₁ _ hfound => Upholds.pure h₁ ?_
    rintro fields heq
    obtain rfl := Option.some.inj heq
    exact hfound
  | _ => exact Upholds.pure h (by simp)

/-! ## Shapes -/

/-- A shape that refers to the given types only. -/
structure Shape.IsClosed (names : List String) (shape : Shape) : Prop where
  parameters : AreSlots names shape.parameters
  returnType : shape.returnType.IsResult names

/-- A shape with names that meet a condition: those of its parameters, and that of the element
around them where there is one. -/
structure Shape.HasNames (shape : Shape) (P : String → Prop) : Prop where
  parameters : ∀ parameter ∈ shape.parameters, P parameter.name
  requestElement : shape.style ≠ .documentBare → P shape.requestElement

/-- What becomes of the messages of an operation: a shape that refers to entered types only, with
names that meet the condition. -/
def IsShape (P : String → Prop) (r : Register) (_ : Resolution) (shape : Shape) : Prop :=
  shape.IsClosed r.names ∧ shape.HasNames P

theorem rpcShape_upholds (hc : c.IsConsistent) (h : IsRegistered c r [] s) {name : String}
    (hname : P name) {input : List Part} (hinput : ∀ p ∈ input, P p.name)
    (output : Option (List Part)) :
    Upholds c r s (IsShape P) (rpcShape c name input output s) := by
  rw [rpcShape]
  refine Upholds.bind (partParameters_upholds hc h hinput) ?_
  intro r₁ s₁ parameters h₁ _ hparameters
  refine Upholds.bind (firstPartType_upholds hc h₁ output) ?_
  intro r₂ s₂ returnType h₂ hgrows hreturn
  have hslots := hparameters.mono hgrows.names_subset
  exact Upholds.pure h₂ ⟨⟨hslots.slots, hreturn⟩, ⟨hslots.named, fun _ => hname⟩⟩

theorem bareShape_upholds (hc : c.IsConsistent) (h : IsRegistered c r [] s) (name : String)
    {input : List Part} (hinput : ∀ p ∈ input, P p.name) (output : Option (List Part)) :
    Upholds c r s (IsShape P) (bareShape c name input output s) := by
  rw [bareShape]
  refine Upholds.bind (partParameters_upholds hc h hinput) ?_
  intro r₁ s₁ parameters h₁ _ hparameters
  refine Upholds.bind (firstPartType_upholds hc h₁ output) ?_
  intro r₂ s₂ returnType h₂ hgrows hreturn
  have hslots := hparameters.mono hgrows.names_subset
  -- no element stands around the parameters
  exact Upholds.pure h₂ ⟨⟨hslots.slots, hreturn⟩, ⟨hslots.named, fun hstyle => absurd rfl hstyle⟩⟩

theorem wrappedResult_upholds (hc : c.IsConsistent) (hn : c.IsNamed P) (h : IsRegistered c r [] s)
    (output : Option (List Part)) :
    Upholds c r s (fun r' _ result => result.1.IsResult r'.names) (wrappedResult c output s) := by
  rw [wrappedResult]
  cases output.bind wrapper? with
  | some response =>
    refine Upholds.bind (resolve_isSingle hc h _) ?_
    intro r₁ s₁ type h₁ _ htype
    refine Upholds.bind (fieldsOfType_upholds hn h₁ htype) ?_
    intro r₂ s₂ found h₂ hgrows hfound
    have hwhole := htype.mono hgrows.names_subset
    match found with
    | none => exact Upholds.pure h₂ (.inr hwhole.isSlot)
    | some [] => exact Upholds.pure h₂ (.inl rfl)
    | some [field] =>
      exact Upholds.pure h₂ (.inr ((hfound [field] rfl).slots field List.mem_cons_self))
    | some (_ :: _ :: _) => exact Upholds.pure h₂ (.inr hwhole.isSlot)
  | none =>
    refine Upholds.bind (firstPartType_upholds hc h output) ?_
    intro r₁ s₁ type h₁ _ htype
    exact Upholds.pure h₁ htype

theorem wrappedShape_upholds (hc : c.IsConsistent) (hn : c.IsNamed P) (h : IsRegistered c r [] s)
    {element : QName} (helement : P element.localName) {parameters : List Parameter}
    (hparameters : AreNamedSlots r.names P parameters) (output : Option (List Part)) :
    Upholds c r s (IsShape P) (wrappedShape c element parameters output s) := by
  rw [wrappedShape]
  refine Upholds.bind (wrappedResult_upholds hc hn h output) ?_
  intro r₁ s₁ result h₁ hgrows hresult
  have hslots := hparameters.mono hgrows.names_subset
  exact Upholds.pure h₁ ⟨⟨hslots.slots, hresult⟩, ⟨hslots.named, fun _ => helement⟩⟩

theorem documentShape_upholds (hc : c.IsConsistent) (hn : c.IsNamed P) (h : IsRegistered c r [] s)
    {name : String} (hname : P name) {input : List Part} (hinput : ∀ p ∈ input, P p.name)
    (output : Option (List Part)) :
    Upholds c r s (IsShape P) (documentShape c name input output s) := by
  rw [documentShape]
  cases hwrapper : (wrapper? input).filter (·.localName = name) with
  | some element =>
    -- an element wraps the message only where it has the name of the operation
    have helement : P element.localName := by
      have hlocal := (Option.filter_eq_some_iff.mp hwrapper).2
      rw [decide_eq_true_iff] at hlocal
      rw [hlocal]
      exact hname
    refine Upholds.bind (resolve_isSingle hc h _) ?_
    intro r₁ s₁ type h₁ _ htype
    refine Upholds.bind (fieldsOfType_upholds hn h₁ htype) ?_
    intro r₂ s₂ found h₂ _ hfound
    cases found with
    | some parameters =>
      exact wrappedShape_upholds hc hn h₂ helement (hfound parameters rfl) output
    | none => exact bareShape_upholds hc h₂ name hinput output
  | none => exact bareShape_upholds hc h name hinput output

/-- The parts of the message that an operation takes or gives. -/
theorem message_upholds {d : Definitions} (hd : d.HasNames P) (h : IsRegistered c r [] s)
    (direction : String) (target : Option Reference) :
    Upholds c r s (fun _ _ parts => ∀ p ∈ parts, P p.name)
      (lift (d.message direction target) s) :=
  Upholds.lift h (fun _ hparts => hd.message hparts) (d.isAnswer_message direction target)

section

variable {b : Bound}

theorem readShape_upholds (hc : b.components.IsConsistent) (hn : b.components.IsNamed P)
    (hb : b.definitions.HasNames P) (h : IsRegistered b.components r [] s) {name : String}
    (hname : P name) (style : String) (decl : OperationDecl) :
    Upholds b.components r s (IsShape P) (readShape b name style decl s) := by
  let shape (input : List Part) (output : Option (List Part)) : Resolve Shape :=
    if style = "rpc" then rpcShape b.components name input output
    else documentShape b.components name input output
  have hshape : ∀ r' s' input output, IsRegistered b.components r' [] s' →
      (∀ p ∈ input, P p.name) →
      Upholds b.components r' s' (IsShape P) (shape input output s') := by
    intro r' s' input output h' hinput
    by_cases hstyle : style = "rpc"
    · simp only [shape, if_pos hstyle]
      exact rpcShape_upholds hc h' hname hinput output
    · simp only [shape, if_neg hstyle]
      exact documentShape_upholds hc hn h' hname hinput output
  rw [readShape]
  cases decl.output with
  | some output =>
    have houtput : ∀ r' s' input, IsRegistered b.components r' [] s' →
        (∀ p ∈ input, P p.name) →
        Upholds b.components r' s' (IsShape P)
          ((lift (b.definitions.message "output" output) >>= fun parts =>
            shape input (some parts)) s') := by
      intro r' s' input h' hinput
      refine Upholds.bind (message_upholds hb h' "output" output) ?_
      rintro r'' s'' parts h'' - -
      exact hshape r'' s'' input (some parts) h'' hinput
    cases decl.input with
    | some target =>
      refine Upholds.bind (message_upholds hb h "input" target) ?_
      rintro r' s' input h' - hinput
      exact houtput r' s' input h' hinput
    | none => exact houtput r s [] h (List.forall_mem_nil _)
  | none =>
    cases decl.input with
    | some target =>
      refine Upholds.bind (message_upholds hb h "input" target) ?_
      rintro r' s' input h' - hinput
      exact hshape r' s' input none h' hinput
    | none => exact hshape r s [] none h (List.forall_mem_nil _)

/-! ## Operations and services -/

/-- An operation with names that meet a condition: those of its parameters, and that of the element
around them where there is one. -/
structure HasNames (op : Operation) (P : String → Prop) : Prop where
  parameters : ∀ parameter ∈ op.parameters, P parameter.name
  requestElement : op.style ≠ .documentBare → P op.requestElement

/-- What is bound: operations that refer to entered types only, with names that meet the
condition. -/
def AreBound (P : String → Prop) (names : List String) (ops : List Operation) : Prop :=
  ∀ op ∈ ops, op.IsClosed names ∧ HasNames op P

theorem AreBound.mono {names names' : List String} {ops : List Operation}
    (h : AreBound P names ops) (hsub : names ⊆ names') : AreBound P names' ops :=
  fun op hop => ⟨(h op hop).1.mono hsub, (h op hop).2⟩

theorem bindOperation_upholds (hc : b.components.IsConsistent) (hn : b.components.IsNamed P)
    (hb : b.definitions.HasNames P) (h : IsRegistered b.components r [] s) {name : String}
    (hname : P name) (decl : OperationDecl) :
    Upholds b.components r s (fun r' _ op => op.IsClosed r'.names ∧ HasNames op P)
      (bindOperation b name decl s) := by
  rw [bindOperation]
  refine Upholds.bind (readShape_upholds hc hn hb h hname _ decl) ?_
  rintro r₁ s₁ shape h₁ - ⟨hclosed, hnamed⟩
  dsimp only
  cases firstRepeated? [] (shape.parameters.map (·.name)) with
  | some parameter => exact Upholds.throw rfl
  | none =>
    exact Upholds.pure h₁ ⟨⟨hclosed.parameters, hclosed.returnType⟩,
      ⟨hnamed.parameters, hnamed.requestElement⟩⟩

/-- A name that has to be there. -/
theorem required_upholds (h : IsRegistered c r [] s) (element : String) {value : Option String}
    (hvalue : ∀ name, value = some name → P name) :
    Upholds c r s (fun _ _ name => P name) (lift (required element "name" value) s) :=
  Upholds.lift h (fun name hname => hvalue name (eq_some_of_required hname))
    (isAnswer_required _ _ _)

theorem bindOperations_upholds (hc : b.components.IsConsistent) (hn : b.components.IsNamed P)
    (hb : b.definitions.HasNames P) (h : IsRegistered b.components r [] s)
    (earlier : List String) {decls : List OperationDecl}
    (hdecls : ∀ decl ∈ decls, ∀ name, decl.name = some name → P name) :
    Upholds b.components r s (fun r' _ ops => AreBound P r'.names ops)
      (bindOperations b earlier decls s) := by
  induction decls generalizing earlier r s with
  | nil => exact Upholds.pure h (List.forall_mem_nil _)
  | cons decl rest ih =>
    rw [List.forall_mem_cons] at hdecls
    rw [bindOperations]
    refine Upholds.bind (required_upholds h "operation" hdecls.1) ?_
    rintro r₁ s₁ name h₁ - hname
    by_cases hearlier : name ∈ earlier
    · simp only [if_pos hearlier]
      exact Upholds.throw rfl
    · simp only [if_neg hearlier]
      refine Upholds.bind (bindOperation_upholds hc hn hb h₁ hname decl) ?_
      rintro r₂ s₂ op h₂ - ⟨hclosed, hnamed⟩
      refine Upholds.bind (ih h₂ (name :: earlier) hdecls.2) ?_
      intro r₃ s₃ others h₃ hgrows hothers
      have hfirst := hclosed.mono hgrows.names_subset
      exact Upholds.pure h₃ (List.forall_mem_cons.mpr ⟨⟨hfirst, hnamed⟩, hothers⟩)

end

section

variable {d : Definitions}

theorem bindService_upholds (hc : c.IsConsistent) (hn : c.IsNamed P) (hd : d.HasNames P)
    (h : IsRegistered c r [] s) (name : String) (decl : ServiceDecl) :
    Upholds c r s (fun r' _ service => AreBound P r'.names service.operations)
      (bindService d c name decl s) := by
  rw [bindService]
  refine Upholds.bind (Q := fun _ _ _ => True)
    (Upholds.lift h (fun _ _ => trivial) (isAnswer_soapPorts d decl.ports)) ?_
  rintro r₁ s₁ ports h₁ - -
  cases selectPort ports with
  | none => exact Upholds.pure h₁ (List.forall_mem_nil _)
  | some port =>
    have hdeclared : Upholds c r₁ s₁
        (fun _ _ decls => ∀ decl ∈ decls, ∀ name, decl.name = some name → P name)
        (lift (d.portType port.binding) s₁) :=
      Upholds.lift h₁ (fun _ hdecls => hd.portType hdecls) (d.isAnswer_portType port.binding)
    refine Upholds.bind hdeclared ?_
    rintro r₂ s₂ declared h₂ - hdecls
    have hops := bindOperations_upholds (b := ⟨d, c, port.soap⟩) hc hn hd h₂ [] hdecls
    exact Upholds.bind hops fun r₃ s₃ ops h₃ _ hops => Upholds.pure h₃ hops

/-- Services refer to entered types only, and have the names that the document gives. -/
theorem bindServices_upholds (hc : c.IsConsistent) (hn : c.IsNamed P) (hd : d.HasNames P)
    (h : IsRegistered c r [] s) (earlier : List String) (decls : List ServiceDecl) :
    Upholds c r s
      (fun r' _ services => ∀ service ∈ services, AreBound P r'.names service.operations)
      (bindServices d c earlier decls s) := by
  induction decls generalizing earlier r s with
  | nil => exact Upholds.pure h (List.forall_mem_nil _)
  | cons decl rest ih =>
    rw [bindServices]
    refine Upholds.bind (required_upholds (P := fun _ => True) h "service" fun _ _ => trivial) ?_
    rintro r₁ s₁ name h₁ - -
    by_cases hearlier : name ∈ earlier
    · simp only [if_pos hearlier]
      exact Upholds.throw rfl
    · simp only [if_neg hearlier]
      refine Upholds.bind (bindService_upholds hc hn hd h₁ name decl) ?_
      intro r₂ s₂ service h₂ _ hservice
      refine Upholds.bind (ih h₂ (name :: earlier)) ?_
      intro r₃ s₃ others h₃ hgrows hothers
      have hfirst := hservice.mono hgrows.names_subset
      exact Upholds.pure h₃ (List.forall_mem_cons.mpr ⟨hfirst, hothers⟩)

end

end SoapClient.Wsdl
