import SoapClient.Proofs.Schema.Agreement
import SoapClient.Proofs.Schema.Termination

/-!
# Resolutions that agree

Components that agree are resolved alike: two resolutions that start from states that agree both
fail, or they have the same result and end in states that agree. States agree where they have the
same types and note the same for keys that are related, so the types of the models are the same
(`resolveAll_agree`).
-/

namespace SoapClient.Schema

open Outcome Relator
open Xml (QName)

/-! ## Components -/

/-- Two declarations of global elements agree. -/
structure ElementDecl.Agree (ρ : List Nat → List Nat → Prop) (decl decl' : ElementDecl) : Prop where
  type : decl.type.Agree ρ decl'.type
  isQualified : decl.isQualified = decl'.isQualified

/-- Components agree where they declare the same names, and declare them alike. -/
structure Components.Agree (ρ : List Nat → List Nat → Prop) (c c' : Components) : Prop where
  elements : Table.Agree Eq (ElementDecl.Agree ρ) c.elements c'.elements
  complexTypes : Table.Agree Eq (ComplexDecl.Agree ρ) c.complexTypes c'.complexTypes
  simpleTypes : Table.Agree Eq SimpleDecl.Agree c.simpleTypes c'.simpleTypes

variable {ρ : List Nat → List Nat → Prop} {c c' : Components}

theorem required_agree (element attributeName : String) (value : Option String) :
    OutcomesAgree Eq (required element attributeName value)
      (required element attributeName value) := by
  cases value with
  | some value => exact .ok rfl
  | none => exact .error _ _

/-- A declaration is added to both sides alike. -/
theorem add_agree {schema schema' : SchemaDecl} {d d' : TopLevel} (hschema : schema.Agree ρ schema')
    (hc : c.Agree ρ c') (hd : d.Agree ρ d') :
    OutcomesAgree (Components.Agree ρ) (c.add schema d) (c'.add schema' d') := by
  cases hd with
  | imported location =>
    cases location with
    | none => exact .ok hc
    | some location => exact .error _ _
  | included keyword location => exact .error _ _
  | element name htype =>
    refine (required_agree _ _ name).bind fun name name' hname => .ok ?_
    rw [hname, hschema.targetNamespace, hschema.isQualified]
    exact { hc with elements := hc.elements.set biUnique_eq rfl ⟨htype, rfl⟩ }
  | complexType name hdecl =>
    refine (required_agree _ _ name).bind fun name name' hname => .ok ?_
    rw [hname, hschema.targetNamespace]
    exact { hc with complexTypes := hc.complexTypes.set biUnique_eq rfl hdecl }
  | simpleType name hdecl =>
    refine (required_agree _ _ name).bind fun name name' hname => .ok ?_
    rw [hname, hschema.targetNamespace]
    exact { hc with simpleTypes := hc.simpleTypes.set biUnique_eq rfl hdecl }

/-- Schemas that agree have components that agree. -/
theorem ofSchemas_agree {schemas schemas' : List SchemaDecl}
    (h : List.Forall₂ (SchemaDecl.Agree ρ) schemas schemas') :
    OutcomesAgree (Components.Agree ρ) (Components.ofSchemas schemas)
      (Components.ofSchemas schemas') := by
  refine .foldlM h ⟨.nil, .nil, .nil⟩ fun c c' schema schema' hc hschema => ?_
  exact .foldlM hschema.declarations hc fun _ _ _ _ => add_agree hschema

theorem Components.Agree.typeNames_eq (h : c.Agree ρ c') : c.typeNames = c'.typeNames :=
  h.complexTypes.keys_eq

theorem Components.Agree.localTypeNames_eq (h : c.Agree ρ c') :
    c.localTypeNames = c'.localTypeNames := by
  rw [localTypeNames, localTypeNames, h.typeNames_eq]

theorem Components.Agree.wayLength_eq (h : c.Agree ρ c') : c.wayLength = c'.wayLength := by
  rw [wayLength, wayLength, h.complexTypes.length_eq, h.simpleTypes.length_eq, h.elements.length_eq]

/-! ## States -/

/-- Two keys mean declarations that correspond. -/
inductive TypeKey.Agree (ρ : List Nat → List Nat → Prop) : TypeKey → TypeKey → Prop
  | named (name : QName) : Agree ρ (.named name) (.named name)
  | inPlace {path path' : List Nat} : ρ path path' → Agree ρ (.inPlace path) (.inPlace path')

theorem TypeKey.biUnique_agree (hρ : BiUnique ρ) : BiUnique (TypeKey.Agree ρ) := by
  refine ⟨fun _ _ _ h h' => ?_, fun _ _ _ h h' => ?_⟩
  · cases h with
    | named name =>
      cases h'
      rfl
    | inPlace hpath =>
      cases h' with
      | inPlace hpath' => exact congrArg _ (hρ.1 hpath hpath')
  · cases h with
    | named name =>
      cases h'
      rfl
    | inPlace hpath =>
      cases h' with
      | inPlace hpath' => exact congrArg _ (hρ.2 hpath hpath')

/-- States agree where they differ in nothing but the paths in the keys of what is resolved. -/
structure Resolution.Agree (ρ : List Nat → List Nat → Prop) (s s' : Resolution) : Prop where
  types : s.types = s'.types
  resolved : Table.Agree (TypeKey.Agree ρ) Eq s.resolved s'.resolved
  inProgress : s.inProgress = s'.inProgress
  enclosing : s.enclosing = s'.enclosing

/-- Nothing has been resolved on either side. -/
theorem Resolution.Agree.start : Resolution.start.Agree ρ Resolution.start := ⟨rfl, .nil, rfl, rfl⟩

variable {s s' : Resolution} {α β : Type}

theorem Resolution.Agree.anonymousName_eq (h : s.Agree ρ s') (reserved : List String)
    (element : String) : s.anonymousName reserved element = s'.anonymousName reserved element := by
  obtain ⟨types, resolved, inProgress, enclosing⟩ := s
  obtain ⟨types', resolved', inProgress', enclosing'⟩ := s'
  obtain ⟨rfl, -, -, rfl⟩ := h
  rfl

theorem Resolution.Agree.enter (h : s.Agree ρ s') {key key' : TypeKey} (hkey : key.Agree ρ key')
    (name : String) : (s.enter key name).Agree ρ (s'.enter key' name) where
  types := congrArg (· ++ [(⟨name, []⟩ : ComplexType)]) h.types
  resolved := .cons ⟨hkey, rfl⟩ h.resolved
  inProgress := h.inProgress
  enclosing := congrArg (name :: ·) h.enclosing

theorem Resolution.Agree.leave (h : s.Agree ρ s') (name : String) (fields : List Parameter) :
    (s.leave name fields).Agree ρ (s'.leave name fields) where
  types := congrArg (List.map _) h.types
  resolved := h.resolved
  inProgress := h.inProgress
  enclosing := congrArg (List.drop 1) h.enclosing

/-- Steps of two resolutions agree: from states that agree both fail, or both have the same result
and end in states that agree. -/
def StepsAgree (ρ : List Nat → List Nat → Prop) (x x' : Resolve α) : Prop :=
  ∀ s s', s.Agree ρ s' →
    OutcomesAgree (fun r r' => r.1 = r'.1 ∧ r.2.Agree ρ r'.2) (x s) (x' s')

namespace StepsAgree

theorem pure (a : α) : StepsAgree ρ (Pure.pure a : Resolve α) (Pure.pure a) :=
  fun _ _ hs => .ok ⟨rfl, hs⟩

theorem throw (e e' : DescriptionError) :
    StepsAgree ρ (MonadExcept.throw e : Resolve α) (MonadExcept.throw e') :=
  fun _ _ _ => .error e e'

/-- One step after the other. -/
theorem bind {x x' : Resolve α} {f f' : α → Resolve β} (hx : StepsAgree ρ x x')
    (hf : ∀ a, StepsAgree ρ (f a) (f' a)) : StepsAgree ρ (x >>= f) (x' >>= f') := by
  intro s s' hs
  refine OutcomesAgree.bind (hx s s' hs) fun r r' hr => ?_
  obtain ⟨a, t⟩ := r
  obtain ⟨a', t'⟩ := r'
  obtain ⟨rfl, ht⟩ := hr
  exact hf a t t' ht

/-- Steps after which a result is only put together. -/
theorem map {x x' : Resolve α} (hx : StepsAgree ρ x x') (f : α → β) :
    StepsAgree ρ (x >>= fun a => Pure.pure (f a)) (x' >>= fun a => Pure.pure (f a)) :=
  hx.bind fun _ => pure _

/-- A result that does not depend on the state is related on both sides. -/
theorem lift_bind {R : α → α → Prop} {x x' : Except DescriptionError α} {f f' : α → Resolve β}
    (hx : OutcomesAgree R x x') (hf : ∀ a a', R a a' → StepsAgree ρ (f a) (f' a')) :
    StepsAgree ρ (Schema.lift x >>= f) (Schema.lift x' >>= f') := by
  intro s s' hs
  cases hx with
  | ok h => exact hf _ _ h s s' hs
  | error e e' => exact .error e e'

/-- The state is looked at. -/
theorem get_bind {f f' : Resolution → Resolve β}
    (hf : ∀ s s', s.Agree ρ s' →
      OutcomesAgree (fun r r' => r.1 = r'.1 ∧ r.2.Agree ρ r'.2) (f s s) (f' s' s')) :
    StepsAgree ρ (MonadState.get >>= f) (MonadState.get >>= f') :=
  fun s s' hs => hf s s' hs

/-- The state is changed on both sides alike. -/
theorem change {f f' : Resolution → Resolution}
    (hf : ∀ s s', s.Agree ρ s' → (f s).Agree ρ (f' s')) :
    StepsAgree ρ (modify f : Resolve Unit) (modify f') :=
  fun s s' hs => .ok ⟨rfl, hf s s' hs⟩

end StepsAgree

/-! ## References and bases -/

theorem Reference.Agree.follow {r r' : Reference} (h : r.Agree r') :
    OutcomesAgree Eq r.follow r'.follow := by
  match h with
  | .to name => exact .ok rfl
  | .unbound text text' => exact .error _ _

theorem followOption_agree {r r' : Option Reference} (h : Option.Rel Reference.Agree r r') :
    OutcomesAgree Eq (Reference.followOption r) (Reference.followOption r') := by
  cases h with
  | none => exact .ok rfl
  | some h => exact h.follow.map fun _ _ h => congrArg some h

theorem followRequired_agree {r r' : Option Reference} (element attributeName : String)
    (h : Option.Rel Reference.Agree r r') :
    OutcomesAgree Eq (Reference.followRequired element attributeName r)
      (Reference.followRequired element attributeName r') := by
  cases h with
  | none => exact .error _ _
  | some h => exact h.follow

theorem DerivationsAgree.rel_base {ds ds' : List (Option Reference × List Content)}
    (h : DerivationsAgree ρ ds ds') :
    Option.Rel Reference.Agree (ds.findSome? (·.1)) (ds'.findSome? (·.1)) := by
  match h with
  | .nil => exact .none
  | .cons (.some hbase) _ _ => exact .some hbase
  | .cons .none _ hrest => exact hrest.rel_base
  | .silent hrest => exact hrest.rel_base

theorem ContentsAgree.rel_derivedBase? {parts parts' : List Content}
    (h : ContentsAgree ρ parts parts') :
    Option.Rel (Option.Rel Reference.Agree) (derivedBase? parts) (derivedBase? parts') := by
  match h with
  | .nil => exact .none
  | .cons (.derived hderivations) _ => exact .some hderivations.rel_base
  | .cons (.group _ _) hrest => exact hrest.rel_derivedBase?
  | .cons (.choice _ _) hrest => exact hrest.rel_derivedBase?
  | .cons (.elementRef _ _) hrest => exact hrest.rel_derivedBase?
  | .cons (.element _ _ _) hrest => exact hrest.rel_derivedBase?

theorem ComplexDecl.Agree.rel_base? {decl decl' : ComplexDecl} (h : decl.Agree ρ decl') :
    Option.Rel Reference.Agree decl.base? decl'.base? := by
  cases h with
  | @mk base base' content content' hsimple hcontent =>
    have hderived := hcontent.rel_derivedBase?
    rw [ComplexDecl.base?, ComplexDecl.base?, ComplexDecl.content, ComplexDecl.content,
      ComplexDecl.simpleContent, ComplexDecl.simpleContent]
    generalize derivedBase? content = derived at hderived
    generalize derivedBase? content' = derived' at hderived
    cases hderived with
    | some hbase => exact hbase
    | none =>
      cases hsimple with
      | some hbase => exact hbase
      | none => exact .none

variable {follow follow' : Follow}

/-- Chains of bases are followed alike. -/
theorem checkDerivation_agree (hc : c.Agree ρ c') (start : QName) (fuel : Nat) (seen : List QName)
    (name : QName) :
    OutcomesAgree Eq (checkDerivation c start fuel seen name)
      (checkDerivation c' start fuel seen name) := by
  induction fuel generalizing seen name with
  | zero => exact .error _ _
  | succ fuel ih =>
    have hfind := hc.complexTypes.find? biUnique_eq (rfl : name = name)
    rw [checkDerivation, checkDerivation]
    generalize Table.find? name c.complexTypes = decl at hfind
    generalize Table.find? name c'.complexTypes = decl' at hfind
    cases hfind with
    | none => exact .ok rfl
    | some hdecl =>
      refine (followOption_agree hdecl.rel_base?).bind fun base base' hbase => ?_
      obtain rfl := hbase
      by_cases hseen : name ∈ seen
      · rw [if_pos hseen, if_pos hseen]
        exact .error _ _
      · rw [if_neg hseen, if_neg hseen]
        cases base with
        | none => exact .ok rfl
        | some next => exact ih _ next

/-! ## Steps of the resolver -/

/-- Names are followed alike on both sides. -/
def FollowsAgree (ρ : List Nat → List Nat → Prop) (follow follow' : Follow) : Prop :=
  ∀ target, StepsAgree ρ (follow target) (follow' target)

theorem resolveSimple_agree (hc : c.Agree ρ c') (hfollow : FollowsAgree ρ follow follow')
    (depth : Nat) {decl decl' : SimpleDecl} (h : decl.Agree decl') :
    StepsAgree ρ (resolveSimple c follow depth decl) (resolveSimple c' follow' depth decl') := by
  induction depth generalizing decl decl' with
  | zero =>
    rw [resolveSimple, resolveSimple]
    exact .throw _ _
  | succ depth ih =>
    have hnamed : ∀ {base base' : Reference} (inner inner' : Option SimpleDecl),
        base.Agree base' → StepsAgree ρ
          (resolveSimple c follow (depth + 1) (.restriction (some base) inner))
          (resolveSimple c' follow' (depth + 1) (.restriction (some base') inner')) := by
      intro base base' inner inner' hbase
      rw [resolveSimple, resolveSimple]
      refine .lift_bind hbase.follow fun name name' hname => ?_
      obtain rfl := hname
      by_cases hbuiltin : name.namespaceName = some namespaceName
      · rw [if_pos hbuiltin, if_pos hbuiltin]
        exact .pure _
      · rw [if_neg hbuiltin, if_neg hbuiltin]
        have hfind := hc.simpleTypes.find? biUnique_eq (rfl : name = name)
        generalize Table.find? name c.simpleTypes = decl at hfind
        generalize Table.find? name c'.simpleTypes = decl' at hfind
        cases hfind with
        | none => exact hfollow _
        | some hdecl => exact ih hdecl
    cases h with
    | text => exact .pure _
    | restriction hbase =>
      cases hbase with
      | none => exact .pure _
      | some hbase => exact hnamed _ _ hbase
    | inside hbase hinner =>
      cases hbase with
      | none => exact ih hinner
      | some hbase => exact hnamed _ _ hbase

theorem fieldsOf_agree (name : String) : StepsAgree ρ (fieldsOf name) (fieldsOf name) := by
  intro s s' hs
  have hfields : s.fields? name = s'.fields? name := by
    rw [Resolution.fields?, Resolution.fields?, hs.types]
  rw [fieldsOf, fieldsOf, hfields]
  cases s'.fields? name with
  | some fields => exact .ok ⟨rfl, hs⟩
  | none => exact .error _ _

theorem inheritedFields_agree (hc : c.Agree ρ c') (hfollow : FollowsAgree ρ follow follow')
    (base : QName) :
    StepsAgree ρ (inheritedFields c follow base) (inheritedFields c' follow' base) := by
  have hcheck := checkDerivation_agree hc base (c.complexTypes.length + 1) [] base
  rw [inheritedFields, inheritedFields, ← hc.complexTypes.length_eq]
  refine .lift_bind hcheck fun _ _ _ => (hfollow (.type base)).bind fun type => ?_
  cases type with
  | complex name => exact fieldsOf_agree name
  | _ => exact .pure _

theorem baseFields_agree (hc : c.Agree ρ c') (hfollow : FollowsAgree ρ follow follow')
    {base base' : Option Reference} (h : Option.Rel Reference.Agree base base') :
    StepsAgree ρ (baseFields c follow base) (baseFields c' follow' base') := by
  rw [baseFields, baseFields]
  refine .lift_bind (followOption_agree h) fun name name' hname => ?_
  obtain rfl := hname
  cases name with
  | none => exact .pure _
  | some name => exact inheritedFields_agree hc hfollow name

theorem simpleContentType_agree (hfollow : FollowsAgree ρ follow follow')
    {base base' : Option Reference} (h : Option.Rel Reference.Agree base base') :
    StepsAgree ρ (simpleContentType follow base) (simpleContentType follow' base') := by
  rw [simpleContentType, simpleContentType]
  refine .lift_bind (followOption_agree h) fun name name' hname => ?_
  obtain rfl := hname
  cases name with
  | none => exact .pure _
  | some name => exact hfollow _

theorem note_agree {key key' : TypeKey} (h : key.Agree ρ key') (type : TypeRef) :
    StepsAgree ρ (note key type) (note key' type) :=
  .change fun _ _ hs => ⟨hs.types, .cons ⟨h, rfl⟩ hs.resolved, hs.inProgress, hs.enclosing⟩

/-- What keys that correspond stand for is the same. -/
theorem known?_agree (hρ : BiUnique ρ) {key key' : TypeKey} (h : key.Agree ρ key') :
    StepsAgree ρ (known? key) (known? key') := by
  intro s s' hs
  have hfind := hs.resolved.find? (TypeKey.biUnique_agree hρ) h
  rw [known?, known?]
  generalize Table.find? key s.resolved = known at hfind
  generalize Table.find? key' s'.resolved = known' at hfind
  cases hfind with
  | none => exact .ok ⟨rfl, hs⟩
  | some heq => exact .ok ⟨congrArg some heq, hs⟩

/-- A derivation that says nothing adds nothing. -/
theorem collectDerivations_silent (c : Components) (follow : Follow) (isForced : Bool)
    (ds : List (Option Reference × List Content)) :
    collectDerivations c follow isForced ((none, []) :: ds) =
      collectDerivations c follow isForced ds := by
  have hbase : baseFields c follow none = Pure.pure [] := rfl
  rw [collectDerivations, hbase, collectContents]
  simp

/-- Two resolvers agree: their components do, the paths being paired one to one, and they follow
names alike. -/
structure ResolversAgree (ρ : List Nat → List Nat → Prop) (c c' : Components)
    (follow follow' : Follow) : Prop where
  paths : BiUnique ρ
  components : c.Agree ρ c'
  follow : FollowsAgree ρ follow follow'

mutual

theorem resolveComplex_agree (hr : ResolversAgree ρ c c' follow follow') {key key' : TypeKey}
    (hkey : key.Agree ρ key') (name : String) {decl decl' : ComplexDecl} (h : decl.Agree ρ decl') :
    StepsAgree ρ (resolveComplex c follow key name decl)
      (resolveComplex c' follow' key' name decl') := by
  match h with
  | .mk (.some hbase) _ =>
    rw [resolveComplex, resolveComplex]
    exact (simpleContentType_agree hr.follow hbase).bind fun type =>
      (note_agree hkey type).bind fun _ => .pure type
  | .mk .none hcontent =>
    rw [resolveComplex, resolveComplex]
    refine .bind (.change fun _ _ hs => hs.enter hkey name) fun _ => ?_
    refine .bind (collectContents_agree hr false hcontent) fun fields => ?_
    exact .bind (.change fun _ _ hs => hs.leave name fields) fun _ => .pure _

theorem collectContents_agree (hr : ResolversAgree ρ c c' follow follow') (isForced : Bool)
    {parts parts' : List Content} (h : ContentsAgree ρ parts parts') :
    StepsAgree ρ (collectContents c follow isForced parts)
      (collectContents c' follow' isForced parts') := by
  match h with
  | .nil => exact .pure _
  | .cons hpart hrest =>
    rw [collectContents, collectContents]
    exact (collectContent_agree hr isForced hpart).bind fun fields =>
      (collectContents_agree hr isForced hrest).map _

theorem collectContent_agree (hr : ResolversAgree ρ c c' follow follow') (isForced : Bool)
    {part part' : Content} (h : part.Agree ρ part') :
    StepsAgree ρ (collectContent c follow isForced part)
      (collectContent c' follow' isForced part') := by
  match h with
  | .group occurs hitems =>
    rw [collectContent, collectContent]
    exact collectContents_agree hr _ hitems
  | .choice occurs hitems =>
    rw [collectContent, collectContent]
    exact collectContents_agree hr true hitems
  | .derived hderivations =>
    rw [collectContent, collectContent]
    exact collectDerivations_agree hr isForced hderivations
  | .elementRef occurs htarget =>
    rw [collectContent, collectContent]
    refine .lift_bind htarget.follow fun name name' hname => ?_
    obtain rfl := hname
    exact (hr.follow (.element name)).map _
  | .element occurs name htype =>
    rw [collectContent, collectContent]
    refine .lift_bind (required_agree _ _ name) fun name name' hname => ?_
    obtain rfl := hname
    exact (resolveElementType_agree hr name htype).map _

theorem collectDerivations_agree (hr : ResolversAgree ρ c c' follow follow') (isForced : Bool)
    {ds ds' : List (Option Reference × List Content)} (h : DerivationsAgree ρ ds ds') :
    StepsAgree ρ (collectDerivations c follow isForced ds)
      (collectDerivations c' follow' isForced ds') := by
  match h with
  | .nil => exact .pure _
  | .cons hbase hcontent hrest =>
    rw [collectDerivations, collectDerivations]
    exact (baseFields_agree hr.components hr.follow hbase).bind fun inherited =>
      (collectContents_agree hr isForced hcontent).bind fun added =>
        (collectDerivations_agree hr isForced hrest).map _
  | .silent hrest =>
    rw [collectDerivations_silent]
    exact collectDerivations_agree hr isForced hrest

theorem resolveElementType_agree (hr : ResolversAgree ρ c c' follow follow') (name : String)
    {type type' : ElementType} (h : type.Agree ρ type') :
    StepsAgree ρ (resolveElementType c follow name type)
      (resolveElementType c' follow' name type') := by
  match h with
  | .named htype =>
    rw [resolveElementType, resolveElementType]
    refine .lift_bind htype.follow fun target target' htarget => ?_
    obtain rfl := htarget
    exact hr.follow (.type target)
  | .complex hpath hdecl =>
    rw [resolveElementType, resolveElementType]
    refine (known?_agree hr.paths (.inPlace hpath)).bind fun known => ?_
    cases known with
    | some type => exact .pure type
    | none =>
      refine .get_bind fun s s' hs => ?_
      rw [hs.anonymousName_eq, hr.components.localTypeNames_eq]
      exact resolveComplex_agree hr (.inPlace hpath) _ hdecl s s' hs
  | .simple hdecl =>
    rw [resolveElementType, resolveElementType]
    exact resolveSimple_agree hr.components hr.follow _ hdecl
  | .any => exact .pure _

end

/-! ## Names -/

theorem resolveDeclared_agree (hr : ResolversAgree ρ c c' follow follow') (name : QName) :
    StepsAgree ρ (resolveDeclared c follow name) (resolveDeclared c' follow' name) := by
  have hcomplex := hr.components.complexTypes.find? biUnique_eq (rfl : name = name)
  have hsimple := hr.components.simpleTypes.find? biUnique_eq (rfl : name = name)
  rw [resolveDeclared, resolveDeclared]
  generalize Table.find? name c.complexTypes = complex at hcomplex
  generalize Table.find? name c'.complexTypes = complex' at hcomplex
  generalize Table.find? name c.simpleTypes = simple at hsimple
  generalize Table.find? name c'.simpleTypes = simple' at hsimple
  cases hcomplex with
  | some hdecl => exact resolveComplex_agree hr (.named name) _ hdecl
  | none =>
    cases hsimple with
    | some hdecl => exact resolveSimple_agree hr.components hr.follow _ hdecl
    | none => exact .throw _ _

theorem resolveTarget_agree (hr : ResolversAgree ρ c c' follow follow') (target : Target) :
    StepsAgree ρ (resolveTarget c follow target) (resolveTarget c' follow' target) := by
  cases target with
  | element name =>
    have hfind := hr.components.elements.find? biUnique_eq (rfl : name = name)
    rw [resolveTarget, resolveTarget]
    generalize Table.find? name c.elements = decl at hfind
    generalize Table.find? name c'.elements = decl' at hfind
    cases hfind with
    | some hdecl => exact resolveElementType_agree hr _ hdecl.type
    | none => exact .throw _ _
  | type name =>
    intro s s' hs
    rw [resolveTarget_type, resolveTarget_type]
    by_cases hbuiltin : IsBuiltin name
    · rw [if_pos hbuiltin, if_pos hbuiltin]
      exact .ok ⟨rfl, hs⟩
    rw [if_neg hbuiltin, if_neg hbuiltin]
    have hfind := hs.resolved.find? (TypeKey.biUnique_agree hr.paths) (.named name)
    generalize Table.find? (.named name) s.resolved = known at hfind
    generalize Table.find? (.named name) s'.resolved = known' at hfind
    cases hfind with
    | some heq => exact .ok ⟨heq, hs⟩
    | none =>
      dsimp only
      rw [← hs.inProgress]
      by_cases hprogress : name ∈ s.inProgress
      · rw [if_pos hprogress, if_pos hprogress]
        exact .error _ _
      · rw [if_neg hprogress, if_neg hprogress]
        have hbegin : ({ s with inProgress := name :: s.inProgress } : Resolution).Agree ρ
            { s' with inProgress := name :: s.inProgress } :=
          ⟨hs.types, hs.resolved, rfl, hs.enclosing⟩
        have hdeclared := resolveDeclared_agree hr name _ _ hbegin
        generalize resolveDeclared c follow name _ = outcome at hdeclared
        generalize resolveDeclared c' follow' name _ = outcome' at hdeclared
        cases hdeclared with
        | error e e' => exact .error e e'
        | ok h =>
          have hend := h.2
          exact .ok ⟨h.1, hend.types, hend.resolved, congrArg (List.erase · name) hend.inProgress,
            hend.enclosing⟩

theorem resolveWithin_agree (hρ : BiUnique ρ) (hc : c.Agree ρ c') (fuel : Nat) :
    FollowsAgree ρ (resolveWithin c fuel) (resolveWithin c' fuel) := by
  induction fuel with
  | zero => exact fun _ => .throw _ _
  | succ fuel ih => exact fun target => resolveTarget_agree ⟨hρ, hc, ih⟩ target

/-- A name is resolved alike. -/
theorem resolve_agree (hρ : BiUnique ρ) (hc : c.Agree ρ c') (target : Target) :
    StepsAgree ρ (resolve c target) (resolve c' target) := by
  rw [resolve, resolve, ← hc.wayLength_eq]
  exact resolveWithin_agree hρ hc _ target

/-- All types are resolved alike. -/
theorem resolveAll_agree (hρ : BiUnique ρ) (hc : c.Agree ρ c') :
    StepsAgree ρ (resolveAll c) (resolveAll c') := by
  have hforM : ∀ names : List QName,
      StepsAgree ρ (names.forM (enterType c)) (names.forM (enterType c')) := by
    intro names
    induction names with
    | nil => exact .pure ()
    | cons name rest ih =>
      exact .bind ((resolve_agree hρ hc (.type name)).map fun _ => ()) fun _ => ih
  intro s s' hs
  rw [resolveAll_eq, resolveAll_eq, ← hc.localTypeNames_eq, ← hc.typeNames_eq]
  cases firstRepeated? [] c.localTypeNames with
  | some name => exact .error _ _
  | none => exact hforM c.typeNames s s' hs

end SoapClient.Schema
