import Mathlib.Logic.Relation
import SoapClient.Proofs.Schema.FieldSources
import SoapClient.Proofs.Schema.Gathering

/-!
# Nodes of a document

What is read from an element was read from nodes inside of it. The particles that give a type fields
are elements of schemas there (`standsIn_sourcesOfAll`), and every declaration of a structured type
that the components of a document hold was read from an element of the document
(`exists_node_of_declares`): the content of this element says what fields the type has.
-/

namespace SoapClient.Schema

open Xml (QName Element)

/-- A node is an element or stands inside of it. -/
def IsInside (e node : Element) : Prop :=
  Relation.ReflTransGen (fun parent child => child ∈ parent.children) e node

theorem IsInside.of_child {e child node : Element} (hchild : child ∈ e.children)
    (h : IsInside child node) : IsInside e node :=
  .head hchild h

/-! ## Nodes of particles -/

/-- A particle stands in an element, and it is an element of a schema. -/
def FieldSource.StandsIn (e : Element) : FieldSource → Prop
  | .derivation _ => True
  | .particle _ node => IsInside e node ∧ node.is namespaceName "element"

/-- What stands in a child of an element stands in the element. -/
theorem FieldSource.StandsIn.of_child {source : FieldSource} {e : Element}
    (h : ∃ child ∈ e.children, source.StandsIn child) : source.StandsIn e := by
  obtain ⟨child, hchild, hstands⟩ := h
  cases source with
  | derivation e => exact trivial
  | particle groups e => exact hstands.imp_left (.of_child hchild)

mutual

/-- The sources of fields in some elements stand in these. -/
theorem standsIn_sourcesOfAll (groups es : List Element) :
    ∀ source ∈ sourcesOfAll groups es, ∃ e ∈ es, source.StandsIn e := by
  match es with
  | [] =>
    rw [sourcesOfAll]
    exact List.forall_mem_nil _
  | e :: rest =>
    rw [sourcesOfAll, List.forall_mem_append]
    simp only [List.exists_mem_cons_iff]
    refine ⟨fun source hsource => .inl ?_, fun source hsource => .inr ?_⟩
    · exact standsIn_sourcesOf groups e source hsource
    · exact standsIn_sourcesOfAll groups rest source hsource

theorem standsIn_sourcesOf (groups : List Element) (e : Element) :
    ∀ source ∈ sourcesOf groups e, source.StandsIn e := by
  match e with
  | ⟨ns, localName, attributes, scope, children, text⟩ =>
    have hread := isReadAs [] groups ⟨ns, localName, attributes, scope, children, text⟩
    generalize readContent [] _ = part, sourcesOf groups _ = sources at hread ⊢
    cases hread with
    | nothing => exact List.forall_mem_nil _
    | group =>
      exact fun source hsource => .of_child (standsIn_sourcesOfAll _ children source hsource)
    | choice =>
      exact fun source hsource => .of_child (standsIn_sourcesOfAll _ children source hsource)
    | derived =>
      exact fun source hsource =>
        .of_child (standsIn_sourcesOfDerivations groups children source hsource)
    | elementRef helement _ => exact List.forall_mem_singleton.mpr ⟨.refl, helement⟩
    | element helement _ => exact List.forall_mem_singleton.mpr ⟨.refl, helement⟩

theorem standsIn_sourcesOfDerivations (groups es : List Element) :
    ∀ source ∈ sourcesOfDerivations groups es, ∃ e ∈ es, source.StandsIn e := by
  match es with
  | [] =>
    rw [sourcesOfDerivations]
    exact List.forall_mem_nil _
  | e :: rest =>
    rw [sourcesOfDerivations, List.forall_mem_append, List.forall_mem_cons]
    simp only [List.exists_mem_cons_iff]
    refine ⟨⟨.inl trivial, fun source hsource => .inl ?_⟩, fun source hsource => .inr ?_⟩
    · exact standsIn_sourcesInside groups e source hsource
    · exact standsIn_sourcesOfDerivations groups rest source hsource

theorem standsIn_sourcesInside (groups : List Element) (e : Element) :
    ∀ source ∈ sourcesInside groups e, source.StandsIn e := by
  match e with
  | ⟨_, _, _, _, children, _⟩ =>
    rw [sourcesInside]
    exact fun source hsource => .of_child (standsIn_sourcesOfAll groups children source hsource)

end

/-! ## Nodes of structured types -/

/-- A declaration with a path was read from the element of a structured type, which is an element or
stands inside of it. -/
def IsReadIn (e : Element) (p : List Nat × ComplexDecl) : Prop :=
  ∃ node, IsInside e node ∧ node.is namespaceName "complexType" ∧ p.2 = readComplex p.1 node

/-- Declarations that were read so in some elements. -/
def AreReadIn (es : List Element) (places : List (List Nat × ComplexDecl)) : Prop :=
  ∀ p ∈ places, ∃ e ∈ es, IsReadIn e p

namespace AreReadIn

variable {e : Element} {es rest : List Element} {ps qs : List (List Nat × ComplexDecl)}

theorem nil : AreReadIn es [] := List.forall_mem_nil _

theorem of_rest (h : AreReadIn rest ps) : AreReadIn (e :: rest) ps := by
  intro p hp
  obtain ⟨e', he', hread⟩ := h p hp
  exact ⟨e', List.mem_cons_of_mem _ he', hread⟩

theorem cons (h' : AreReadIn rest qs) (h : ∀ p ∈ ps, IsReadIn e p) :
    AreReadIn (e :: rest) (ps ++ qs) :=
  List.forall_mem_append.mpr ⟨fun p hp => ⟨e, List.mem_cons_self, h p hp⟩, h'.of_rest⟩

/-- What is read in the children of an element is read in the element. -/
theorem inside (h : AreReadIn e.children ps) : ∀ p ∈ ps, IsReadIn e p := by
  intro p hp
  obtain ⟨child, hchild, node, hinside, hnode⟩ := h p hp
  exact ⟨node, .of_child hchild hinside, hnode⟩

end AreReadIn

/-- What is declared in place in the type of an element. -/
theorem areReadIn_elementTypeOf (path : List Nat) (e : Element) {inPlace : Option ComplexDecl}
    {es : List Element}
    (h : ∀ decl, inPlace = some decl → AreReadIn es ((path, decl) :: decl.places)) :
    AreReadIn es (elementTypeOf path e inPlace).places := by
  unfold elementTypeOf
  split
  · exact .nil
  · next decl _ => exact h decl rfl
  · exact .nil
  · exact .nil

mutual

/-- What is declared in place in a structured type was read inside of its element. -/
theorem areReadIn_readComplex (path : List Nat) (e : Element) :
    AreReadIn e.children (readComplex path e).places := by
  match e with
  | ⟨_, _, _, _, children, _⟩ =>
    rw [readComplex, ComplexDecl.places]
    exact areReadIn_readContents path 0 children

theorem areReadIn_readContents (path : List Nat) (i : Nat) (es : List Element) :
    AreReadIn es (placesOfAll (readContents path i es)) := by
  match es with
  | [] => exact .nil
  | e :: rest =>
    rw [readContents]
    cases hread : readContent (i :: path) e with
    | none => exact (areReadIn_readContents path i rest).of_rest
    | some part =>
      exact (areReadIn_readContents path (i + 1) rest).cons
        (areReadIn_readContent (i :: path) e hread).inside

theorem areReadIn_readContent (path : List Nat) (e : Element) {part : Content}
    (h : readContent path e = some part) : AreReadIn e.children part.places := by
  match e with
  | ⟨ns, localName, attributes, scope, children, text⟩ =>
    have hread := isReadAs path [] ⟨ns, localName, attributes, scope, children, text⟩
    rw [h] at hread
    generalize sourcesOf [] _ = sources at hread
    cases hread with
    | group _ => exact areReadIn_readContents path 0 children
    | choice _ => exact areReadIn_readContents path 0 children
    | derived => exact areReadIn_readDerivations path 0 children
    | elementRef _ _ => exact .nil
    | element _ _ =>
      exact areReadIn_elementTypeOf path _ fun decl hdecl =>
        areReadIn_readFirstComplex path children hdecl

theorem areReadIn_readDerivations (path : List Nat) (i : Nat) (es : List Element) :
    AreReadIn es (placesOfDerivations (readDerivations path i es)) := by
  match es with
  | [] => exact .nil
  | e :: rest =>
    rw [readDerivations, placesOfDerivations]
    exact (areReadIn_readDerivations path (i + 1) rest).cons
      (areReadIn_readDerivation (i :: path) e).inside

theorem areReadIn_readDerivation (path : List Nat) (e : Element) :
    AreReadIn e.children (placesOfAll (readDerivation path e)) := by
  match e with
  | ⟨_, _, _, _, children, _⟩ =>
    rw [readDerivation]
    exact areReadIn_readContents path 0 children

theorem areReadIn_readFirstComplex (path : List Nat) (es : List Element) {decl : ComplexDecl}
    (h : readFirstComplex path es = some decl) : AreReadIn es ((path, decl) :: decl.places) := by
  match es with
  | [] => cases h
  | e :: rest =>
    rw [readFirstComplex] at h
    split at h
    · next hcomplex =>
      obtain rfl := Option.some.inj h
      have hself : IsReadIn e (path, readComplex path e) := ⟨e, .refl, hcomplex, rfl⟩
      have hinside := (areReadIn_readComplex path e).inside
      have hnil : AreReadIn rest [] := .nil
      have hall := hnil.cons (List.forall_mem_cons.mpr ⟨hself, hinside⟩)
      rwa [List.append_nil] at hall
    · exact (areReadIn_readFirstComplex path rest h).of_rest

end

/-! ## Schemas -/

/-- What is declared in place in a declaration at the top of a schema was read inside of its
element. A structured type there was read from the element itself. -/
theorem areReadIn_readTopLevel (path : List Nat) (e : Element) {d : TopLevel}
    (h : readTopLevel path e = some d) :
    (∀ name decl, d = .complexType name decl → IsReadIn e (path, decl)) ∧
      AreReadIn e.children d.places := by
  rw [readTopLevel] at h
  split at h
  · cases h
  next hns =>
  rw [Decidable.not_not] at hns
  split at h
  · obtain rfl := Option.some.inj h
    exact ⟨fun _ _ heq => (by cases heq), .nil⟩
  · obtain rfl := Option.some.inj h
    exact ⟨fun _ _ heq => (by cases heq), .nil⟩
  · obtain rfl := Option.some.inj h
    exact ⟨fun _ _ heq => (by cases heq), .nil⟩
  · obtain rfl := Option.some.inj h
    exact ⟨fun _ _ heq => (by cases heq), areReadIn_elementTypeOf path e fun decl hdecl =>
      areReadIn_readFirstComplex path e.children hdecl⟩
  · next hlocal =>
    obtain rfl := Option.some.inj h
    have hcomplex : e.is namespaceName "complexType" := by simp [Element.is, hns, hlocal]
    refine ⟨fun name decl heq => ?_, areReadIn_readComplex path e⟩
    injection heq with _ heq
    exact ⟨e, .refl, hcomplex, heq.symm⟩
  · obtain rfl := Option.some.inj h
    exact ⟨fun _ _ heq => (by cases heq), .nil⟩
  · cases h

/-- Declarations at the top of a schema were read from the elements there. -/
theorem exists_mem_of_mem_readTopLevels {path : List Nat} {i : Nat} {es : List Element}
    {d : TopLevel} (h : d ∈ readTopLevels path i es) :
    ∃ j, ∃ e ∈ es, readTopLevel (j :: path) e = some d := by
  induction es generalizing i with
  | nil => cases h
  | cons e rest ih =>
    rw [readTopLevels] at h
    have hrest : ∀ {k}, d ∈ readTopLevels path k rest →
        ∃ j, ∃ e' ∈ e :: rest, readTopLevel (j :: path) e' = some d := by
      intro k hmem
      obtain ⟨j, e', he', hread⟩ := ih hmem
      exact ⟨j, e', List.mem_cons_of_mem _ he', hread⟩
    cases hread : readTopLevel (i :: path) e with
    | none =>
      rw [hread] at h
      exact hrest h
    | some first =>
      rw [hread] at h
      rcases List.mem_cons.mp h with rfl | h
      · exact ⟨i, e, List.mem_cons_self, hread⟩
      · exact hrest h

/-- Declarations in the schemas of a document were read from elements of the document. -/
theorem exists_readTopLevel_eq {root : Element} {schema : SchemaDecl}
    (hschema : schema ∈ Wsdl.readSchemas root) {d : TopLevel} (hd : d ∈ schema.declarations) :
    ∃ path e, IsInside root e ∧ readTopLevel path e = some d := by
  rw [Wsdl.readSchemas, List.mem_mapIdx] at hschema
  obtain ⟨i, hi, rfl⟩ := hschema
  obtain ⟨types, htypes, hchild⟩ := List.mem_flatMap.mp (List.getElem_mem hi)
  obtain ⟨j, e, he, hread⟩ := exists_mem_of_mem_readTopLevels hd
  have hinside := IsInside.of_child he .refl
  exact ⟨_, e, .of_child (List.mem_filter.mp htypes).1
    (.of_child (List.mem_filter.mp hchild).1 hinside), hread⟩

/-- Every declaration of a structured type in the components of a document was read from an element
of the document. -/
theorem exists_node_of_declares {root : Element} {c : Components}
    (h : Components.ofSchemas (Wsdl.readSchemas root) = .ok c) {key : TypeKey} {decl : ComplexDecl}
    (hdecl : c.Declares key decl) :
    ∃ path node, IsInside root node ∧ node.is namespaceName "complexType" ∧
      decl = readComplex path node := by
  -- a named type stands at the top of a schema, and any other one inside of something there
  cases key with
  | named name =>
    have hfind := hdecl.2
    rw [Components.find?_complexTypes h] at hfind
    have hmem := List.mem_reverse.mp (Components.mem_of_find? hfind)
    obtain ⟨schema, hschema, hmem⟩ := List.mem_flatMap.mp hmem
    obtain ⟨d, hd, hmem⟩ := List.mem_filterMap.mp hmem
    obtain ⟨path, e, he, hread⟩ := exists_readTopLevel_eq hschema hd
    match d with
    | .complexType (some _) _ =>
      obtain ⟨-, rfl⟩ := Prod.mk.inj (Option.some.inj hmem)
      obtain ⟨node, hnode, hcomplex, heq⟩ := (areReadIn_readTopLevel path e hread).1 _ _ rfl
      exact ⟨path, node, he.trans hnode, hcomplex, heq⟩
  | inPlace path =>
    have hmem := Components.places_subset_of_ofSchemas h hdecl
    obtain ⟨schema, hschema, hmem⟩ := List.mem_flatMap.mp hmem
    obtain ⟨d, hd, hmem⟩ := List.mem_flatMap.mp hmem
    obtain ⟨top, e, he, hread⟩ := exists_readTopLevel_eq hschema hd
    obtain ⟨node, hnode, hcomplex, heq⟩ :=
      (areReadIn_readTopLevel top e hread).2.inside _ hmem
    exact ⟨path, node, he.trans hnode, hcomplex, heq⟩

end SoapClient.Schema
