import SoapClient.Proofs.Agreement
import SoapClient.Proofs.Schema.Places

/-!
# Declarations that agree

Two declarations agree where they say the same but for the texts of references that are not bound,
derivations without a base that add nothing, and the paths of what is declared in place, which are
related. Main statement: declarations that agree but for their paths have paths that can be paired
one to one (`exists_agree_paths`).
-/

namespace SoapClient.Schema

open Relator
open Xml (QName)

/-- Two references agree: they refer to the same name, or neither of them is bound. -/
inductive Reference.Agree : Reference → Reference → Prop
  | to (name : QName) : Agree (.to name) (.to name)
  | unbound (text text' : String) : Agree (.unbound text) (.unbound text')

/-- Two simple types agree. -/
inductive SimpleDecl.Agree : SimpleDecl → SimpleDecl → Prop
  | text : Agree .text .text
  | restriction {base base' : Option Reference} : Option.Rel Reference.Agree base base' →
      Agree (.restriction base none) (.restriction base' none)
  | inside {base base' : Option Reference} {inner inner' : SimpleDecl} :
      Option.Rel Reference.Agree base base' → Agree inner inner' →
      Agree (.restriction base (some inner)) (.restriction base' (some inner'))

/-- Restrictions agree where their bases do and what they hold does. -/
theorem SimpleDecl.Agree.of_inner {base base' : Option Reference} {inner inner' : Option SimpleDecl}
    (hbase : Option.Rel Reference.Agree base base')
    (hinner : Option.Rel SimpleDecl.Agree inner inner') :
    SimpleDecl.Agree (.restriction base inner) (.restriction base' inner') := by
  cases hinner with
  | none => exact .restriction hbase
  | some hinner => exact .inside hbase hinner

mutual

/-- Two structured types agree, the paths in them being related. -/
inductive ComplexDecl.Agree (ρ : List Nat → List Nat → Prop) : ComplexDecl → ComplexDecl → Prop
  | mk {base base' : Option (Option Reference)} {content content' : List Content} :
      Option.Rel (Option.Rel Reference.Agree) base base' → ContentsAgree ρ content content' →
      ComplexDecl.Agree ρ (.mk base content) (.mk base' content')

/-- Two content models agree. -/
inductive ContentsAgree (ρ : List Nat → List Nat → Prop) : List Content → List Content → Prop
  | nil : ContentsAgree ρ [] []
  | cons {part part' : Content} {rest rest' : List Content} : Content.Agree ρ part part' →
      ContentsAgree ρ rest rest' → ContentsAgree ρ (part :: rest) (part' :: rest')

/-- Two parts of content models agree. -/
inductive Content.Agree (ρ : List Nat → List Nat → Prop) : Content → Content → Prop
  | group (occurs : Occurrence) {items items' : List Content} : ContentsAgree ρ items items' →
      Content.Agree ρ (.group occurs items) (.group occurs items')
  | choice (occurs : Occurrence) {items items' : List Content} : ContentsAgree ρ items items' →
      Content.Agree ρ (.choice occurs items) (.choice occurs items')
  | derived {ds ds' : List (Option Reference × List Content)} : DerivationsAgree ρ ds ds' →
      Content.Agree ρ (.derived ds) (.derived ds')
  | elementRef (occurs : Occurrence) {target target' : Reference} : target.Agree target' →
      Content.Agree ρ (.elementRef occurs target) (.elementRef occurs target')
  | element (occurs : Occurrence) (name : Option String) {type type' : ElementType} :
      ElementType.Agree ρ type type' →
      Content.Agree ρ (.element occurs name type) (.element occurs name type')

/-- Two lists of derivations agree. In the second one there may be more that say nothing. -/
inductive DerivationsAgree (ρ : List Nat → List Nat → Prop) :
    List (Option Reference × List Content) → List (Option Reference × List Content) → Prop
  | nil : DerivationsAgree ρ [] []
  | cons {base base' : Option Reference} {content content' : List Content}
      {rest rest' : List (Option Reference × List Content)} :
      Option.Rel Reference.Agree base base' → ContentsAgree ρ content content' →
      DerivationsAgree ρ rest rest' →
      DerivationsAgree ρ ((base, content) :: rest) ((base', content') :: rest')
  | silent {ds ds' : List (Option Reference × List Content)} : DerivationsAgree ρ ds ds' →
      DerivationsAgree ρ ds ((none, []) :: ds')

/-- Two types of elements agree. -/
inductive ElementType.Agree (ρ : List Nat → List Nat → Prop) : ElementType → ElementType → Prop
  | named {type type' : Reference} : type.Agree type' →
      ElementType.Agree ρ (.named type) (.named type')
  | complex {path path' : List Nat} {decl decl' : ComplexDecl} : ρ path path' →
      ComplexDecl.Agree ρ decl decl' →
      ElementType.Agree ρ (.complex path decl) (.complex path' decl')
  | simple {decl decl' : SimpleDecl} : decl.Agree decl' →
      ElementType.Agree ρ (.simple decl) (.simple decl')
  | any : ElementType.Agree ρ .any .any

end

/-- Two declarations at the top of schemas agree. -/
inductive TopLevel.Agree (ρ : List Nat → List Nat → Prop) : TopLevel → TopLevel → Prop
  | imported (location : Option String) : Agree ρ (.imported location) (.imported location)
  | included (keyword : String) (location : Option String) :
      Agree ρ (.included keyword location) (.included keyword location)
  | element (name : Option String) {type type' : ElementType} : type.Agree ρ type' →
      Agree ρ (.element name type) (.element name type')
  | complexType (name : Option String) {decl decl' : ComplexDecl} : decl.Agree ρ decl' →
      Agree ρ (.complexType name decl) (.complexType name decl')
  | simpleType (name : Option String) {decl decl' : SimpleDecl} : decl.Agree decl' →
      Agree ρ (.simpleType name decl) (.simpleType name decl')

/-- Two schemas agree. -/
structure SchemaDecl.Agree (ρ : List Nat → List Nat → Prop) (schema schema' : SchemaDecl) :
    Prop where
  targetNamespace : schema.targetNamespace = schema'.targetNamespace
  isQualified : schema.isQualified = schema'.isQualified
  declarations : List.Forall₂ (TopLevel.Agree ρ) schema.declarations schema'.declarations

/-! ## Paths -/

/-- The paths of what is declared in place on both sides, and that it agrees where these paths are
related. -/
def AgreeAlong (agree : (List Nat → List Nat → Prop) → Prop)
    (places places' : List (List Nat × ComplexDecl)) : Prop :=
  ∃ pairs : List (List Nat × List Nat), pathsOf places = pairs.map (·.1) ∧
    pathsOf places' = pairs.map (·.2) ∧
    ∀ ρ : List Nat → List Nat → Prop, (∀ p ∈ pairs, ρ p.1 p.2) → agree ρ

namespace AgreeAlong

variable {agree agree' agree'' : (List Nat → List Nat → Prop) → Prop}
  {ps ps' qs qs' : List (List Nat × ComplexDecl)}

/-- Where nothing is declared in place. -/
theorem nil (h : ∀ ρ, agree ρ) : AgreeAlong agree [] [] := ⟨[], rfl, rfl, fun ρ _ => h ρ⟩

theorem imp (h : AgreeAlong agree ps ps') (himp : ∀ ρ, agree ρ → agree' ρ) :
    AgreeAlong agree' ps ps' := by
  obtain ⟨pairs, hleft, hright, hagree⟩ := h
  exact ⟨pairs, hleft, hright, fun ρ hρ => himp ρ (hagree ρ hρ)⟩

/-- Two parts, one after the other. -/
theorem append (h : AgreeAlong agree ps ps') (h' : AgreeAlong agree' qs qs')
    (hboth : ∀ ρ, agree ρ → agree' ρ → agree'' ρ) : AgreeAlong agree'' (ps ++ qs) (ps' ++ qs') := by
  obtain ⟨pairs, hleft, hright, hagree⟩ := h
  obtain ⟨pairs', hleft', hright', hagree'⟩ := h'
  refine ⟨pairs ++ pairs', ?_, ?_, fun ρ hρ => ?_⟩
  · rw [pathsOf_append, hleft, hleft', List.map_append]
  · rw [pathsOf_append, hright, hright', List.map_append]
  · rw [List.forall_mem_append] at hρ
    exact hboth ρ (hagree ρ hρ.1) (hagree' ρ hρ.2)

/-- A structured type with what is declared in place inside of it. -/
theorem cons {p p' : List Nat} {decl decl' : ComplexDecl} (h : AgreeAlong agree ps ps')
    (hboth : ∀ ρ, ρ p p' → agree ρ → agree' ρ) :
    AgreeAlong agree' ((p, decl) :: ps) ((p', decl') :: ps') := by
  obtain ⟨pairs, hleft, hright, hagree⟩ := h
  refine ⟨(p, p') :: pairs, congrArg _ hleft, congrArg _ hright, fun ρ hρ => ?_⟩
  rw [List.forall_mem_cons] at hρ
  exact hboth ρ hρ.1 (hagree ρ hρ.2)

/-- Lists of parts, one by one. -/
theorem forall₂ {δ : Type} {agree : (List Nat → List Nat → Prop) → δ → δ → Prop}
    {places : δ → List (List Nat × ComplexDecl)} {ds ds' : List δ} {any : δ → δ → Prop}
    (h : List.Forall₂ any ds ds')
    (hone : ∀ d d', any d d' → AgreeAlong (fun ρ => agree ρ d d') (places d) (places d')) :
    AgreeAlong (fun ρ => List.Forall₂ (agree ρ) ds ds') (ds.flatMap places)
      (ds'.flatMap places) := by
  induction h with
  | nil => exact .nil fun _ => .nil
  | cons hfirst _ ih =>
    rw [List.flatMap_cons, List.flatMap_cons]
    exact (hone _ _ hfirst).append ih fun _ => .cons

end AgreeAlong

mutual

theorem ComplexDecl.Agree.along {ρ : List Nat → List Nat → Prop} {decl decl' : ComplexDecl}
    (h : decl.Agree ρ decl') : AgreeAlong (decl.Agree · decl') decl.places decl'.places := by
  match h with
  | .mk hbase hcontent =>
    rw [ComplexDecl.places, ComplexDecl.places]
    exact hcontent.along.imp fun _ => .mk hbase

theorem ContentsAgree.along {ρ : List Nat → List Nat → Prop} {parts parts' : List Content}
    (h : ContentsAgree ρ parts parts') :
    AgreeAlong (ContentsAgree · parts parts') (placesOfAll parts) (placesOfAll parts') := by
  match h with
  | .nil => exact .nil fun _ => .nil
  | .cons hfirst hrest =>
    rw [placesOfAll, placesOfAll]
    exact hfirst.along.append hrest.along fun _ => .cons

theorem Content.Agree.along {ρ : List Nat → List Nat → Prop} {part part' : Content}
    (h : part.Agree ρ part') : AgreeAlong (part.Agree · part') part.places part'.places := by
  match h with
  | .group occurs hitems =>
    rw [Content.places, Content.places]
    exact hitems.along.imp fun _ => .group occurs
  | .choice occurs hitems =>
    rw [Content.places, Content.places]
    exact hitems.along.imp fun _ => .choice occurs
  | .derived hderivations =>
    rw [Content.places, Content.places]
    exact hderivations.along.imp fun _ => .derived
  | .elementRef occurs htarget => exact .nil fun _ => .elementRef occurs htarget
  | .element occurs name htype =>
    rw [Content.places, Content.places]
    exact htype.along.imp fun _ => .element occurs name

theorem DerivationsAgree.along {ρ : List Nat → List Nat → Prop}
    {ds ds' : List (Option Reference × List Content)} (h : DerivationsAgree ρ ds ds') :
    AgreeAlong (DerivationsAgree · ds ds') (placesOfDerivations ds) (placesOfDerivations ds') := by
  match h with
  | .nil => exact .nil fun _ => .nil
  | .cons hbase hcontent hrest =>
    rw [placesOfDerivations, placesOfDerivations]
    exact hcontent.along.append hrest.along fun _ => .cons hbase
  | .silent hrest => exact hrest.along.imp fun _ => .silent

theorem ElementType.Agree.along {ρ : List Nat → List Nat → Prop} {type type' : ElementType}
    (h : type.Agree ρ type') : AgreeAlong (type.Agree · type') type.places type'.places := by
  match h with
  | .named htype => exact .nil fun _ => .named htype
  | .complex hpath hdecl =>
    rw [ElementType.places, ElementType.places]
    exact hdecl.along.cons fun _ => .complex
  | .simple hdecl => exact .nil fun _ => .simple hdecl
  | .any => exact .nil fun _ => .any

end

theorem TopLevel.Agree.along {ρ : List Nat → List Nat → Prop} {d d' : TopLevel}
    (h : d.Agree ρ d') : AgreeAlong (d.Agree · d') d.places d'.places := by
  cases h with
  | imported location => exact .nil fun _ => .imported location
  | included keyword location => exact .nil fun _ => .included keyword location
  | element name htype => exact htype.along.imp fun _ => .element name
  | complexType name hdecl => exact hdecl.along.imp fun _ => .complexType name
  | simpleType name hdecl => exact .nil fun _ => .simpleType name hdecl

theorem SchemaDecl.Agree.along {ρ : List Nat → List Nat → Prop} {schema schema' : SchemaDecl}
    (h : schema.Agree ρ schema') :
    AgreeAlong (schema.Agree · schema') schema.places schema'.places :=
  (AgreeAlong.forall₂ h.declarations fun _ _ => TopLevel.Agree.along).imp fun _ hdeclarations =>
    ⟨h.targetNamespace, h.isQualified, hdeclarations⟩

/-- Schemas that agree but for their paths have paths that can be paired, and they agree where these
are. The pairing is one to one where no path comes twice. -/
theorem exists_agree_paths {ρ : List Nat → List Nat → Prop} {schemas schemas' : List SchemaDecl}
    (h : List.Forall₂ (SchemaDecl.Agree ρ) schemas schemas')
    (hnodup : (pathsOf (schemas.flatMap SchemaDecl.places)).Nodup)
    (hnodup' : (pathsOf (schemas'.flatMap SchemaDecl.places)).Nodup) :
    ∃ σ, BiUnique σ ∧ List.Forall₂ (SchemaDecl.Agree σ) schemas schemas' := by
  have halong : AgreeAlong (fun σ => List.Forall₂ (SchemaDecl.Agree σ) schemas schemas')
      (schemas.flatMap SchemaDecl.places) (schemas'.flatMap SchemaDecl.places) :=
    .forall₂ h fun _ _ => SchemaDecl.Agree.along
  obtain ⟨pairs, hleft, hright, hagree⟩ := halong
  rw [hleft] at hnodup
  rw [hright] at hnodup'
  exact ⟨fun p p' => (p, p') ∈ pairs, biUnique_mem hnodup hnodup', hagree _ fun _ hp => hp⟩

end SoapClient.Schema
