import SoapClient.Proofs.Outcome
import SoapClient.Schema.Resolver

/-!
# Faults of documents

Interpreting a document may fail in two ways that are no fault of the document: a type of the model
is looked up that has not been entered (`DescriptionError.unregistered`), or the names that are met
are more than the depth of the interpretation allows (`DescriptionError.unfinished`). What fails
neither way is an answer about the document.
-/

namespace SoapClient

open Outcome
open Xml (QName)

/-- Whether a failure is one of the interpretation and no fault of the document. -/
def DescriptionError.isInternal : DescriptionError → Bool
  | .unfinished | .unregistered _ => true
  | _ => false

/-- A failure that is neither of the two is a fault of the document. -/
theorem DescriptionError.isInternal_eq_false {e : DescriptionError} (hdepth : e ≠ .unfinished)
    (hlookup : ∀ name, e ≠ .unregistered name) : e.isInternal = false := by
  cases e with
  | unfinished => exact absurd rfl hdepth
  | unregistered name => exact absurd rfl (hlookup name)
  | _ => rfl

/-- A result that says something about the document: it fails on a fault of the document or not at
all. -/
def IsAnswer {α : Type} (result : Except DescriptionError α) : Prop :=
  ∀ e, result = .error e → e.isInternal = false

/-- A result that is not the failure to look up a type of the model. -/
def NeverMisses {α : Type} (result : Except DescriptionError α) : Prop :=
  ∀ name, result ≠ .error (.unregistered name)

namespace IsAnswer

variable {α β : Type}

theorem neverMisses {result : Except DescriptionError α} (h : IsAnswer result) :
    NeverMisses result :=
  fun _ heq => nomatch h _ heq

theorem ne_unfinished {result : Except DescriptionError α} (h : IsAnswer result) :
    result ≠ .error .unfinished :=
  fun heq => nomatch h _ heq

theorem ok (a : α) : IsAnswer (.ok a) := fun _ h => nomatch h

theorem error {e : DescriptionError} (h : e.isInternal = false) :
    IsAnswer (.error e : Except DescriptionError α) := by
  rintro _ heq
  rw [← Except.error.inj heq]
  exact h

theorem bind {x : Except DescriptionError α} {f : α → Except DescriptionError β}
    (hx : IsAnswer x) (hf : ∀ a, IsAnswer (f a)) : IsAnswer (x >>= f) := by
  cases x with
  | error e => exact error (hx e rfl)
  | ok a => exact hf a

theorem map {x : Except DescriptionError α} {f : α → β} (hx : IsAnswer x) :
    IsAnswer (x.map f) := by
  cases x with
  | error e => exact error (hx e rfl)
  | ok a => exact ok _

theorem foldlM {f : β → α → Except DescriptionError β} (hf : ∀ b a, IsAnswer (f b a)) (b : β)
    (as : List α) : IsAnswer (as.foldlM f b) := by
  induction as generalizing b with
  | nil => exact ok b
  | cons a as ih =>
    rw [List.foldlM_cons]
    exact bind (hf b a) ih

theorem mapM {f : α → Except DescriptionError β} (hf : ∀ a, IsAnswer (f a)) (as : List α) :
    IsAnswer (as.mapM f) := by
  induction as with
  | nil => exact ok _
  | cons a as ih =>
    rw [List.mapM_cons]
    exact bind (hf a) fun b => bind ih fun bs => ok _

end IsAnswer

namespace Schema

theorem isAnswer_follow (ref : Reference) : IsAnswer ref.follow := by
  match ref with
  | .to name => exact .ok name
  | .unbound text => exact .error rfl

theorem isAnswer_followOption (ref : Option Reference) :
    IsAnswer (Reference.followOption ref) := by
  cases ref with
  | none => exact .ok none
  | some ref => exact (isAnswer_follow ref).map

theorem isAnswer_followRequired (element attributeName : String) (ref : Option Reference) :
    IsAnswer (Reference.followRequired element attributeName ref) := by
  cases ref with
  | none => exact .error rfl
  | some ref => exact isAnswer_follow ref

/-- An attribute that has to be there is the one that is. -/
theorem eq_some_of_required {element attributeName : String} {value : Option String}
    {text : String} (h : required element attributeName value = .ok text) : value = some text := by
  cases value with
  | none => cases h
  | some given => rw [Except.ok.inj h]

theorem isAnswer_required (element attributeName : String) (value : Option String) :
    IsAnswer (required element attributeName value) := by
  cases value with
  | none => exact .error rfl
  | some value => exact .ok value

theorem isAnswer_add (schema : SchemaDecl) (c : Components) (d : TopLevel) :
    IsAnswer (Components.add schema c d) := by
  match d with
  | .imported none => exact .ok c
  | .imported (some location) => exact .error rfl
  | .included keyword location => exact .error rfl
  | .element name type => exact .bind (isAnswer_required _ _ name) fun _ => .ok _
  | .complexType name decl => exact .bind (isAnswer_required _ _ name) fun _ => .ok _
  | .simpleType name decl => exact .bind (isAnswer_required _ _ name) fun _ => .ok _

theorem isAnswer_ofSchemas (schemas : List SchemaDecl) :
    IsAnswer (Components.ofSchemas schemas) :=
  .foldlM (fun c schema => .foldlM (isAnswer_add schema) c schema.declarations) _ schemas

end Schema

end SoapClient
