import Mathlib.Order.Defs.Unbundled
import SoapClient.Proofs.Schema.Termination

/-!
# Contents that were collected

A declaration is noted when its content is going to be collected, and a resolution fails where the
content of one fails. Main statement: a name is not resolved unless the content of every declaration
that is noted on the way was collected (`resolveWithin_collects`). What has to be so for a content
to be collected is so for the content of every type of a model then.
-/

namespace SoapClient.Schema

open Outcome
open Xml (QName)

variable {α β : Type} {c : Components} {follow : Follow} {s s' s'' : Resolution}

/-! ## Steps that have a result -/

/-- A step of a resolution has a result in some state. -/
def Succeeds (x : Resolve α) : Prop := ∃ s result, x s = .ok result

namespace Succeeds

theorem intro {x : Resolve α} {result : α × Resolution} (h : x s = .ok result) : Succeeds x :=
  ⟨s, result, h⟩

/-- Two steps one after the other both have results. -/
theorem bind {x : Resolve α} {f : α → Resolve β} (h : Succeeds (x >>= f)) :
    Succeeds x ∧ ∃ a, Succeeds (f a) := by
  obtain ⟨s, result, h⟩ := h
  obtain ⟨a, s', hfirst, hsecond⟩ := run_bind_eq_ok_iff.mp h
  exact ⟨.intro hfirst, a, .intro hsecond⟩

/-- A step that needs the result of what does not depend on the state. -/
theorem lift_bind {result : Except DescriptionError α} {f : α → Resolve β}
    (h : Succeeds (lift result >>= f)) : ∃ a, result = .ok a ∧ Succeeds (f a) := by
  obtain ⟨s, final, h⟩ := h
  obtain ⟨a, s', hfirst, hsecond⟩ := run_bind_eq_ok_iff.mp h
  obtain ⟨a', ha, heq⟩ := map_eq_ok_iff.mp hfirst
  obtain ⟨rfl, -⟩ := Prod.mk.inj heq
  exact ⟨a', ha, .intro hsecond⟩

end Succeeds

/-! ## Steps that relate states -/

/-- Where a step of a resolution leads is related to where it starts. -/
def Relates (R : Resolution → Resolution → Prop) (x : Resolve α) : Prop :=
  ∀ s a s', x s = .ok (a, s') → R s s'

namespace Relates

variable {R : Resolution → Resolution → Prop} [IsPreorder Resolution R]

theorem pure (a : α) : Relates R (Pure.pure a : Resolve α) := by
  intro s a' s' h
  obtain ⟨-, rfl⟩ := Prod.mk.inj (Except.ok.inj h)
  exact Std.Refl.refl s

omit [IsPreorder Resolution R] in
theorem throw (e : DescriptionError) : Relates R (MonadExcept.throw e : Resolve α) :=
  fun _ _ _ h => nomatch h

/-- What does not depend on the state does not change it. -/
theorem lift (result : Except DescriptionError α) : Relates R (Schema.lift result) := by
  intro s a s' h
  obtain ⟨a', -, heq⟩ := map_eq_ok_iff.mp h
  obtain ⟨-, rfl⟩ := Prod.mk.inj heq
  exact Std.Refl.refl s

/-- One step after the other. -/
theorem bind {x : Resolve α} {f : α → Resolve β} (hx : Relates R x) (hf : ∀ a, Relates R (f a)) :
    Relates R (x >>= f) := by
  intro s b s'' h
  obtain ⟨a, s', hfirst, hsecond⟩ := run_bind_eq_ok_iff.mp h
  exact IsTrans.trans _ _ _ (hx s a s' hfirst) (hf a s' b s'' hsecond)

/-- Steps after which a result is only put together. -/
theorem map {x : Resolve α} (hx : Relates R x) (f : α → β) :
    Relates R (x >>= fun a => Pure.pure (f a)) :=
  hx.bind fun _ => pure _

theorem forM {names : List QName} {f : QName → Resolve Unit} (hf : ∀ name, Relates R (f name)) :
    Relates R (names.forM f) := by
  induction names with
  | nil => exact pure ()
  | cons name rest ih => exact (hf name).bind fun _ => ih

theorem fieldsOf (name : String) : Relates R (Schema.fieldsOf name) := by
  intro s fields s' h
  rw [Schema.fieldsOf] at h
  split at h
  · obtain ⟨-, rfl⟩ := Prod.mk.inj (Except.ok.inj h)
    exact Std.Refl.refl s
  · cases h

/-! Simple types and bases leave the state to the names that are followed. -/

variable (hfollow : ∀ target, Relates R (follow target))
include hfollow

theorem resolveSimple (depth : Nat) (decl : SimpleDecl) :
    Relates R (Schema.resolveSimple c follow depth decl) := by
  induction depth generalizing decl with
  | zero => exact throw _
  | succ depth ih =>
    match decl with
    | .text => exact pure _
    | .restriction none none => exact pure _
    | .restriction none (some inner) => exact ih inner
    | .restriction (some base) inner =>
      rw [Schema.resolveSimple]
      refine bind (lift _) fun name => ?_
      by_cases hbuiltin : name.namespaceName = some namespaceName
      · rw [if_pos hbuiltin]
        exact pure _
      · rw [if_neg hbuiltin]
        cases Table.find? name c.simpleTypes with
        | some decl => exact ih decl
        | none => exact hfollow _

theorem inheritedFields (base : QName) : Relates R (Schema.inheritedFields c follow base) := by
  refine bind (lift _) fun _ => bind (hfollow _) fun t => ?_
  cases t with
  | complex name => exact fieldsOf name
  | primitive kind => exact pure _
  | array item => exact pure _
  | void => exact pure _

theorem baseFields (base : Option Reference) : Relates R (Schema.baseFields c follow base) := by
  refine bind (lift _) fun name => ?_
  cases name with
  | some name => exact inheritedFields hfollow name
  | none => exact pure _

theorem simpleContentType (base : Option Reference) :
    Relates R (Schema.simpleContentType follow base) := by
  refine bind (lift _) fun name => ?_
  cases name with
  | some name => exact hfollow _
  | none => exact pure _

end Relates

/-! ## What is noted was collected -/

/-- A content was collected, whatever became of the names in it. -/
def WasCollected (c : Components) (content : List Content) : Prop :=
  ∃ follow, Succeeds (collectContents c follow false content)

/-- The key means a declaration, and its content was collected where it has no simple content. -/
def IsDone (c : Components) (key : TypeKey) : Prop :=
  ∃ decl, c.Declares key decl ∧ ∀ content, decl = .mk none content → WasCollected c content

/-- What a resolution notes on its way is done. -/
def NotesDone (c : Components) (s s' : Resolution) : Prop :=
  ∀ key, Table.find? key s.resolved = none → Table.find? key s'.resolved ≠ none → IsDone c key

namespace NotesDone

/-- Where nothing is noted there is nothing to do. -/
theorem of_resolved_eq (h : s'.resolved = s.resolved) : NotesDone c s s' := by
  intro key hnone hsome
  rw [h] at hsome
  exact absurd hnone hsome

theorem trans (h : NotesDone c s s') (h' : NotesDone c s' s'') : NotesDone c s s'' := by
  intro key hnone hsome
  by_cases hbetween : Table.find? key s'.resolved = none
  · exact h' key hbetween hsome
  · exact h key hnone hbetween

theorem note {key : TypeKey} {t : TypeRef} (hresolved : s'.resolved = (key, t) :: s.resolved)
    (hkey : IsDone c key) : NotesDone c s s' := by
  intro other hnone hsome
  by_cases hother : key = other
  · exact hother ▸ hkey
  · rw [hresolved, Table.find?, if_neg hother] at hsome
    exact absurd hnone hsome

instance : IsPreorder Resolution (NotesDone c) where
  refl _ := of_resolved_eq rfl
  trans _ _ _ := trans

end NotesDone

/-- What is noted when names are followed is done. -/
def FollowsDone (c : Components) (follow : Follow) : Prop :=
  ∀ target, Relates (NotesDone c) (follow target)

mutual

/-- A declaration is done when it is resolved. -/
theorem resolveComplex_collects (hfollow : FollowsDone c follow) {key : TypeKey} (name : String)
    (decl : ComplexDecl) (hplaces : decl.places ⊆ c.places) (hdecl : c.Declares key decl) :
    Relates (NotesDone c) (resolveComplex c follow key name decl) := by
  match decl with
  | .mk (some base) content =>
    rw [resolveComplex]
    refine (Relates.simpleContentType hfollow base).bind fun t => ?_
    intro s t' s' h
    obtain ⟨-, rfl⟩ := Prod.mk.inj (Except.ok.inj h)
    exact .note rfl ⟨_, hdecl, fun _ heq => by cases heq⟩
  | .mk none content =>
    have hcontent := collectContents_collects hfollow false content hplaces
    intro s t s' h
    rw [resolveComplex_eq] at h
    cases hcollect : collectContents c follow false content (s.enter key name) with
    | error e =>
      rw [hcollect] at h
      cases h
    | ok p =>
      rw [hcollect] at h
      obtain ⟨-, rfl⟩ := Prod.mk.inj (Except.ok.inj h)
      have hdone : IsDone c key := by
        refine ⟨_, hdecl, fun other heq => ?_⟩
        obtain rfl : content = other := by injection heq
        exact ⟨follow, .intro hcollect⟩
      -- the key is noted already when the type is entered, before its content is collected
      have henter : NotesDone c s (s.enter key name) := .note rfl hdone
      exact (henter.trans (hcontent _ p.1 p.2 hcollect)).trans (.of_resolved_eq rfl)

theorem collectContents_collects (hfollow : FollowsDone c follow)
    (isForced : Bool) (parts : List Content) (hplaces : placesOfAll parts ⊆ c.places) :
    Relates (NotesDone c) (collectContents c follow isForced parts) := by
  match parts with
  | [] => exact .pure _
  | part :: rest =>
    obtain ⟨hpart, hrest⟩ := List.append_subset.mp hplaces
    rw [collectContents]
    exact (collectContent_collects hfollow isForced part hpart).bind fun fields =>
      .map (collectContents_collects hfollow isForced rest hrest) _

theorem collectContent_collects (hfollow : FollowsDone c follow) (isForced : Bool)
    (part : Content) (hplaces : part.places ⊆ c.places) :
    Relates (NotesDone c) (collectContent c follow isForced part) := by
  match part with
  | .group occurs items =>
    rw [collectContent]
    exact collectContents_collects hfollow _ items hplaces
  | .choice occurs items =>
    rw [collectContent]
    exact collectContents_collects hfollow true items hplaces
  | .derived derivations =>
    rw [collectContent]
    exact collectDerivations_collects hfollow isForced derivations hplaces
  | .elementRef occurs target =>
    rw [collectContent]
    exact .bind (.lift _) fun name => .map (hfollow _) _
  | .element occurs name type =>
    rw [collectContent]
    exact .bind (.lift _) fun name => .map (resolveElementType_collects hfollow name type hplaces) _

theorem collectDerivations_collects (hfollow : FollowsDone c follow) (isForced : Bool)
    (derivations : List (Option Reference × List Content))
    (hplaces : placesOfDerivations derivations ⊆ c.places) :
    Relates (NotesDone c) (collectDerivations c follow isForced derivations) := by
  match derivations with
  | [] => exact .pure _
  | (base, content) :: rest =>
    obtain ⟨hcontent, hrest⟩ := List.append_subset.mp hplaces
    rw [collectDerivations]
    exact (Relates.baseFields hfollow base).bind fun inherited =>
      (collectContents_collects hfollow isForced content hcontent).bind fun added =>
        .map (collectDerivations_collects hfollow isForced rest hrest) _

theorem resolveElementType_collects (hfollow : FollowsDone c follow) (name : String)
    (type : ElementType) (hplaces : type.places ⊆ c.places) :
    Relates (NotesDone c) (resolveElementType c follow name type) := by
  match type with
  | .named type =>
    rw [resolveElementType]
    exact .bind (.lift _) fun _ => hfollow _
  | .simple decl =>
    rw [resolveElementType]
    exact .resolveSimple hfollow _ decl
  | .any =>
    rw [resolveElementType]
    exact .pure _
  | .complex path decl =>
    obtain ⟨hpath, hinside⟩ := List.cons_subset.mp hplaces
    have hdecl : c.Declares (.inPlace path) decl := hpath
    intro s t s' h
    rw [resolveElementType] at h
    obtain ⟨known, s₁, hknown, h⟩ := run_bind_eq_ok_iff.mp h
    obtain ⟨rfl, rfl⟩ := Prod.mk.inj (Except.ok.inj hknown)
    cases hfound : Table.find? (.inPlace path) s.resolved with
    | some t =>
      rw [hfound] at h
      exact Relates.pure t s _ s' h
    | none =>
      rw [hfound] at h
      -- what stands inside of the declaration is among the places of the components, as it is
      exact resolveComplex_collects hfollow _ decl hinside hdecl s t s' h

end

theorem resolveDeclared_collects (hfollow : FollowsDone c follow) {name : QName}
    (hname : ¬ IsBuiltin name) :
    Relates (NotesDone c) (resolveDeclared c follow name) := by
  rw [resolveDeclared]
  cases hcomplex : Table.find? name c.complexTypes with
  | some decl =>
    exact resolveComplex_collects hfollow _ decl (c.places_subset_of_find? hcomplex)
      ⟨hname, hcomplex⟩
  | none =>
    cases Table.find? name c.simpleTypes with
    | some decl => exact .resolveSimple hfollow _ decl
    | none => exact .throw _

theorem resolveTarget_collects (hfollow : FollowsDone c follow) (target : Target) :
    Relates (NotesDone c) (resolveTarget c follow target) := by
  cases target with
  | element name =>
    rw [resolveTarget]
    cases hfind : Table.find? name c.elements with
    | some decl =>
      exact resolveElementType_collects hfollow _ decl.type
        (c.places_subset_of_find?_elements hfind)
    | none => exact .throw _
  | type name =>
    intro s t s' h
    rw [resolveTarget_type] at h
    split at h
    · exact Relates.pure _ s t s' h
    · next hbuiltin =>
      split at h
      · exact Relates.pure _ s t s' h
      · split at h
        · cases h
        · -- what is in progress is not looked at
          cases hresult : resolveDeclared c follow name
              { s with inProgress := name :: s.inProgress } with
          | error e =>
            rw [hresult] at h
            cases h
          | ok p =>
            rw [hresult] at h
            obtain ⟨-, rfl⟩ := Prod.mk.inj (Except.ok.inj h)
            have hdone : NotesDone c { s with inProgress := name :: s.inProgress } p.2 :=
              resolveDeclared_collects hfollow hbuiltin _ p.1 p.2 hresult
            exact hdone

/-- What is noted while a name is resolved is done when the name is. -/
theorem resolveWithin_collects (c : Components) (fuel : Nat) :
    FollowsDone c (resolveWithin c fuel) := by
  induction fuel with
  | zero => exact fun _ => .throw _
  | succ fuel ih => exact resolveTarget_collects ih

/-- The same holds of all types, one after the other. -/
theorem resolveAll_collects (c : Components) : Relates (NotesDone c) (resolveAll c) := by
  intro s a s' h
  rw [resolveAll_eq] at h
  split at h
  · cases h
  · have henter : ∀ name, Relates (NotesDone c) (enterType c name) := fun name =>
      .map (resolveWithin_collects c c.wayLength (.type name)) _
    exact Relates.forM henter s a s' h

end SoapClient.Schema
