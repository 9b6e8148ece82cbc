import Mathlib.Logic.Relation
import SoapClient.Schema.Resolver

/-!
# What types stand for

The meaning of what a schema says about types, before any type has been given a name and with no
account of the order in which types are resolved: a type stands for a built-in kind, or for the
declaration of a structured type. Every mention of a type stands for one thing at most
(`StandsFor.unique`).

The content model of a structured type is taken apart into its rows, each an inherited base or a
particle. What the rows mention is what the type refers to.
-/

namespace SoapClient.Schema

open Xml (QName)

/-! ## Meanings -/

/-- What a type stands for in the end: a kind, or the declaration of a structured type. -/
inductive Meaning where
  | primitive (kind : PrimitiveKind)
  | structured (key : TypeKey)
  deriving DecidableEq

/-- Where a type is mentioned: by its name, or by its declaration. -/
inductive Mention where
  | target (target : Target)
  | simple (decl : SimpleDecl)
  | structured (key : TypeKey) (decl : ComplexDecl)
  | element (type : ElementType)

/-- Whether a name is one of the built-in types. -/
def IsBuiltin (name : QName) : Prop :=
  name.namespaceName = some namespaceName ∨ name.namespaceName = some encodingNamespace

instance (name : QName) : Decidable (IsBuiltin name) := inferInstanceAs (Decidable (_ ∨ _))

mutual

/-- The structured types declared in place inside of a declaration, with their paths. -/
def ComplexDecl.places : ComplexDecl → List (List Nat × ComplexDecl)
  | .mk _ content => placesOfAll content

/-- The structured types declared in place in the parts of a content model. -/
def placesOfAll : List Content → List (List Nat × ComplexDecl)
  | [] => []
  | part :: rest => part.places ++ placesOfAll rest

/-- The structured types declared in place in a part of a content model. -/
def Content.places : Content → List (List Nat × ComplexDecl)
  | .group _ items => placesOfAll items
  | .choice _ items => placesOfAll items
  | .derived derivations => placesOfDerivations derivations
  | .elementRef _ _ => []
  | .element _ _ type => type.places

/-- The structured types declared in place in derivations. -/
def placesOfDerivations : List (Option Reference × List Content) → List (List Nat × ComplexDecl)
  | [] => []
  | (_, content) :: rest => placesOfAll content ++ placesOfDerivations rest

/-- The structured types declared in place in the type of an element, its own one first. -/
def ElementType.places : ElementType → List (List Nat × ComplexDecl)
  | .complex path decl => (path, decl) :: decl.places
  | .named _ => []
  | .simple _ => []
  | .any => []

end

namespace Components

/-- All structured types that are declared in place. -/
def places (c : Components) : List (List Nat × ComplexDecl) :=
  c.complexTypes.flatMap (·.2.places) ++ c.elements.flatMap (·.2.type.places)

/-- The declaration that a key means. One of the names of built-in types means none. -/
def Declares (c : Components) : TypeKey → ComplexDecl → Prop
  | .named name, decl => ¬ IsBuiltin name ∧ Table.find? name c.complexTypes = some decl
  | .inPlace path, decl => (path, decl) ∈ c.places

/-- What is declared can be told apart: local names of structured types by themselves, types that
are declared in place by their paths. -/
structure IsConsistent (c : Components) : Prop where
  localNames : c.localTypeNames.Nodup
  places : ∀ path d d', (path, d) ∈ c.places → (path, d') ∈ c.places → d = d'

/-- An entry that is found stands in the table. -/
theorem mem_of_find? {κ α : Type} [DecidableEq κ] {key : κ} {entry : α} {table : List (κ × α)}
    (h : Table.find? key table = some entry) : (key, entry) ∈ table := by
  induction table with
  | nil => cases h
  | cons p rest ih =>
    obtain ⟨k, e⟩ := p
    rw [Table.find?] at h
    split at h
    · next hk =>
      subst hk
      obtain rfl := Option.some.inj h
      exact List.mem_cons_self
    · exact List.mem_cons_of_mem _ (ih h)

/-- What is declared in place inside of a named type is declared in place. -/
theorem places_subset_of_find? (c : Components) {name : QName} {decl : ComplexDecl}
    (h : Table.find? name c.complexTypes = some decl) : decl.places ⊆ c.places :=
  fun _ hp => List.mem_append_left _ (List.mem_flatMap.mpr ⟨(name, decl), mem_of_find? h, hp⟩)

/-- What is declared in place inside of a global element is declared in place. -/
theorem places_subset_of_find?_elements (c : Components) {name : QName} {decl : ElementDecl}
    (h : Table.find? name c.elements = some decl) : decl.type.places ⊆ c.places :=
  fun _ hp => List.mem_append_right _ (List.mem_flatMap.mpr ⟨(name, decl), mem_of_find? h, hp⟩)

/-- A type with a name of its own is one of those at the top of the schemas. -/
theorem Declares.mem_typeNames {c : Components} {name : QName} {decl : ComplexDecl}
    (h : c.Declares (.named name) decl) : name ∈ c.typeNames :=
  List.mem_map.mpr ⟨(name, decl), mem_of_find? h.2, rfl⟩

/-- A key means one declaration at most. -/
theorem IsConsistent.declares_unique {c : Components} (hc : c.IsConsistent) {key : TypeKey}
    {d d' : ComplexDecl} (h : c.Declares key d) (h' : c.Declares key d') : d = d' := by
  cases key with
  | named name => exact Option.some.inj (h.2.symm.trans h'.2)
  | inPlace path => exact hc.places path d d' h h'

/-- What a mention of a type stands for. -/
inductive StandsFor (c : Components) : Mention → Meaning → Prop
  | builtin {name : QName} :
    IsBuiltin name → StandsFor c (.target (.type name)) (.primitive (.ofBuiltin name.localName))
  | complexType {name : QName} {decl : ComplexDecl} {μ : Meaning} :
    c.Declares (.named name) decl → StandsFor c (.structured (.named name) decl) μ →
      StandsFor c (.target (.type name)) μ
  | simpleType {name : QName} {decl : SimpleDecl} {μ : Meaning} :
    ¬ IsBuiltin name → Table.find? name c.complexTypes = none →
      Table.find? name c.simpleTypes = some decl → StandsFor c (.simple decl) μ →
      StandsFor c (.target (.type name)) μ
  | globalElement {name : QName} {decl : ElementDecl} {μ : Meaning} :
    Table.find? name c.elements = some decl → StandsFor c (.element decl.type) μ →
      StandsFor c (.target (.element name)) μ
  | text : StandsFor c (.simple .text) (.primitive .string)
  | restrictedBuiltin {name : QName} {inner : Option SimpleDecl} :
    name.namespaceName = some namespaceName →
      StandsFor c (.simple (.restriction (some (.to name)) inner))
        (.primitive (.ofBuiltin name.localName))
  | restrictedSimple {name : QName} {inner : Option SimpleDecl} {decl : SimpleDecl} {μ : Meaning} :
    name.namespaceName ≠ some namespaceName → Table.find? name c.simpleTypes = some decl →
      StandsFor c (.simple decl) μ →
      StandsFor c (.simple (.restriction (some (.to name)) inner)) μ
  | restrictedOther {name : QName} {inner : Option SimpleDecl} {μ : Meaning} :
    name.namespaceName ≠ some namespaceName → Table.find? name c.simpleTypes = none →
      StandsFor c (.target (.type name)) μ →
      StandsFor c (.simple (.restriction (some (.to name)) inner)) μ
  | restrictedInner {inner : SimpleDecl} {μ : Meaning} :
    StandsFor c (.simple inner) μ → StandsFor c (.simple (.restriction none (some inner))) μ
  | restrictedNothing : StandsFor c (.simple (.restriction none none)) (.primitive .string)
  | simpleText {key : TypeKey} {content : List Content} :
    StandsFor c (.structured key (.mk (some none) content)) (.primitive .string)
  | simpleContent {key : TypeKey} {name : QName} {content : List Content} {μ : Meaning} :
    StandsFor c (.target (.type name)) μ →
      StandsFor c (.structured key (.mk (some (some (.to name))) content)) μ
  | itself {key : TypeKey} {content : List Content} :
    StandsFor c (.structured key (.mk none content)) (.structured key)
  | named {name : QName} {μ : Meaning} :
    StandsFor c (.target (.type name)) μ → StandsFor c (.element (.named (.to name))) μ
  | inPlace {path : List Nat} {decl : ComplexDecl} {μ : Meaning} :
    StandsFor c (.structured (.inPlace path) decl) μ →
      StandsFor c (.element (.complex path decl)) μ
  | simple {decl : SimpleDecl} {μ : Meaning} :
    StandsFor c (.simple decl) μ → StandsFor c (.element (.simple decl)) μ
  | any : StandsFor c (.element .any) (.primitive .anyType)

/-- A mention stands for one thing at most. -/
theorem StandsFor.unique {c : Components} {mention : Mention} {μ ν : Meaning}
    (h : c.StandsFor mention μ) (h' : c.StandsFor mention ν) : μ = ν := by
  -- the conditions of the rules exclude one another, and what is found under a name is one thing
  induction h generalizing ν with
  | builtin hb =>
    cases h' with
    | builtin => rfl
    | complexType hd => exact absurd hb hd.1
    | simpleType hn => exact absurd hb hn
  | complexType hd _ ih =>
    cases h' with
    | builtin hb => exact absurd hb hd.1
    | complexType hd' h =>
      obtain rfl := Option.some.inj (hd.2.symm.trans hd'.2)
      exact ih h
    | simpleType _ hnone =>
      rw [hd.2] at hnone
      cases hnone
  | simpleType hn hnone hfind _ ih =>
    cases h' with
    | builtin hb => exact absurd hb hn
    | complexType hd =>
      rw [hd.2] at hnone
      cases hnone
    | simpleType _ _ hfind' h =>
      obtain rfl := Option.some.inj (hfind.symm.trans hfind')
      exact ih h
  | globalElement hfind _ ih =>
    cases h' with
    | globalElement hfind' h =>
      obtain rfl := Option.some.inj (hfind.symm.trans hfind')
      exact ih h
  | restrictedBuiltin hb =>
    cases h' with
    | restrictedBuiltin => rfl
    | restrictedSimple hn => exact absurd hb hn
    | restrictedOther hn => exact absurd hb hn
  | restrictedSimple hn hfind _ ih =>
    cases h' with
    | restrictedBuiltin hb => exact absurd hb hn
    | restrictedSimple _ hfind' h =>
      obtain rfl := Option.some.inj (hfind.symm.trans hfind')
      exact ih h
    | restrictedOther _ hnone =>
      rw [hfind] at hnone
      cases hnone
  | restrictedOther hn hnone _ ih =>
    cases h' with
    | restrictedBuiltin hb => exact absurd hb hn
    | restrictedSimple _ hfind =>
      rw [hfind] at hnone
      cases hnone
    | restrictedOther _ _ h => exact ih h
  | restrictedInner _ ih => cases h' with | restrictedInner h => exact ih h
  | simpleContent _ ih => cases h' with | simpleContent h => exact ih h
  | named _ ih => cases h' with | named h => exact ih h
  | inPlace _ ih => cases h' with | inPlace h => exact ih h
  | simple _ ih => cases h' with | simple h => exact ih h
  | text => cases h'; rfl
  | restrictedNothing => cases h'; rfl
  | simpleText => cases h'; rfl
  | itself => cases h'; rfl
  | any => cases h'; rfl

end Components

/-! ## Rows of a content model -/

/-- A row of a content model: a base of which the fields are inherited, or a particle. -/
inductive Row where
  | inherited (base : QName)
  | particle (occurs : Occurrence) (isForced : Bool) (name : String) (mention : Mention)

namespace Row

/-- The type that a row mentions. -/
def mention : Row → Mention
  | inherited base => .target (.type base)
  | particle _ _ _ mention => mention

end Row

/-- The row of the base of a derivation, none where the base does not name a type. -/
def rowsOfBase : Option Reference → List Row
  | some (.to name) => [.inherited name]
  | _ => []

mutual

/-- The rows of a part of a content model. Where `isForced` holds its particles are optional. -/
def Content.rows (isForced : Bool) : Content → List Row
  | .group occurs items => rowsOfAll (isForced || occurs.isOptional) items
  | .choice _ items => rowsOfAll true items
  | .derived derivations => rowsOfDerivations isForced derivations
  | .elementRef occurs (.to name) =>
    [.particle occurs isForced name.localName (.target (.element name))]
  | .elementRef _ (.unbound _) => []
  | .element occurs (some name) type => [.particle occurs isForced name (.element type)]
  | .element _ none _ => []

/-- The rows of the parts of a content model, in order. -/
def rowsOfAll (isForced : Bool) : List Content → List Row
  | [] => []
  | part :: rest => part.rows isForced ++ rowsOfAll isForced rest

/-- The rows of derivations: of each its base, and then what it adds. -/
def rowsOfDerivations (isForced : Bool) : List (Option Reference × List Content) → List Row
  | [] => []
  | (base, content) :: rest =>
    rowsOfBase base ++ rowsOfAll isForced content ++ rowsOfDerivations isForced rest

end

namespace Components

variable {c : Components}

/-- A structured type refers to another where a row of its content model mentions it. -/
def Refers (c : Components) (x y : TypeKey) : Prop :=
  ∃ content, c.Declares x (.mk none content) ∧
    ∃ row ∈ rowsOfAll false content, c.StandsFor row.mention (.structured y)

/-- A structured type leads to another by way of types among some given ones. -/
def Leads (c : Components) (among : List TypeKey) : TypeKey → TypeKey → Prop :=
  Relation.ReflTransGen fun x y => c.Refers x y ∧ y ∈ among

theorem Leads.mono {among among' : List TypeKey} {x y : TypeKey} (h : c.Leads among x y)
    (hsub : among ⊆ among') : c.Leads among' x y :=
  Relation.ReflTransGen.mono (fun _ _ hxy => ⟨hxy.1, hsub hxy.2⟩) _ _ h

theorem Leads.mem {among : List TypeKey} {x y : TypeKey} (h : c.Leads among x y)
    (hx : x ∈ among) : y ∈ among := by
  cases h with
  | refl => exact hx
  | tail _ hxy => exact hxy.2

/-- The rows of a structured type mention nothing but what the type refers to. -/
theorem refers_of_mem {x y : TypeKey} {content : List Content}
    (hx : c.Declares x (.mk none content)) {row : Row} (hrow : row ∈ rowsOfAll false content)
    (hy : c.StandsFor row.mention (.structured y)) : c.Refers x y :=
  ⟨content, hx, row, hrow, hy⟩

end Components

end SoapClient.Schema
