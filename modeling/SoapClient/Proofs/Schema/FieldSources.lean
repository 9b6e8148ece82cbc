import SoapClient.Proofs.Schema.Collecting
import SoapClient.Proofs.Spreads
import SoapClient.Schema.Reader

/-!
# Where fields come from

The element of a structured type gives the type its fields: every particle in it one, and every
derivation in it those of its base (`FieldSource`). Particles stand in groups to any depth, and the
groups around a particle can make its field optional. Main statements: the rows that are read from
an element are those of its sources in the order of the document (`spreads_readContents`), and where
contents are collected, the sources in them have the names they need (`isComplete_readContents`).
-/

namespace SoapClient.Schema

open Xml (Element QName)

/-! ## Particles and derivations -/

/-- What gives a structured type fields. -/
inductive FieldSource where
  /-- A derivation, which gives the fields of its base. -/
  | derivation (e : Element)
  /-- An element that is declared or referred to, with the groups around it, the innermost first. -/
  | particle (groups : List Element) (e : Element)

mutual

/-- The sources of fields in an element that stands inside of some groups. -/
def sourcesOf (groups : List Element) : Element → List FieldSource
  | e@⟨ns, localName, _, _, children, _⟩ =>
    if ns ≠ some namespaceName then []
    else if localName = "sequence" ∨ localName = "all" ∨ localName = "choice" then
      sourcesOfAll (e :: groups) children
    else if localName = "complexContent" then sourcesOfDerivations groups children
    else if localName = "element" then [.particle groups e]
    else []

/-- The sources of fields in some elements, in the order of the document. -/
def sourcesOfAll (groups : List Element) : List Element → List FieldSource
  | [] => []
  | e :: rest => sourcesOf groups e ++ sourcesOfAll groups rest

/-- The sources of fields in derivations: each itself, and then what stands in it. -/
def sourcesOfDerivations (groups : List Element) : List Element → List FieldSource
  | [] => []
  | e :: rest => .derivation e :: sourcesInside groups e ++ sourcesOfDerivations groups rest

/-- The sources of fields inside of an element. -/
def sourcesInside (groups : List Element) : Element → List FieldSource
  | ⟨_, _, _, _, children, _⟩ => sourcesOfAll groups children

end

/-- How an element that stands inside of some groups is read, and what sources of fields are in it.
-/
inductive IsReadAs (path : List Nat) (groups : List Element) (e : Element) :
    Option Content → List FieldSource → Prop
  | nothing : IsReadAs path groups e none []
  | group : e.localName ≠ "choice" →
    IsReadAs path groups e (some (.group (occurrenceOf e) (readContents path 0 e.children)))
      (sourcesOfAll (e :: groups) e.children)
  | choice : e.localName = "choice" →
    IsReadAs path groups e (some (.choice (occurrenceOf e) (readContents path 0 e.children)))
      (sourcesOfAll (e :: groups) e.children)
  | derived : IsReadAs path groups e (some (.derived (readDerivations path 0 e.children)))
      (sourcesOfDerivations groups e.children)
  | elementRef {target : Reference} : e.is namespaceName "element" →
    reference? e "ref" = some target →
    IsReadAs path groups e (some (.elementRef (occurrenceOf e) target)) [.particle groups e]
  | element : e.is namespaceName "element" → reference? e "ref" = none →
    IsReadAs path groups e
      (some (.element (occurrenceOf e) (e.attribute? "name") (readElementType path e)))
      [.particle groups e]

theorem isReadAs (path : List Nat) (groups : List Element) (e : Element) :
    IsReadAs path groups e (readContent path e) (sourcesOf groups e) := by
  obtain ⟨ns, localName, attributes, scope, children, text⟩ := e
  rw [readContent, sourcesOf]
  -- both go through the kinds of elements in the same order
  by_cases hns : ns ≠ some namespaceName
  · rw [if_pos hns, if_pos hns]
    exact .nothing
  rw [if_neg hns, if_neg hns]
  by_cases hrow : localName = "sequence" ∨ localName = "all"
  · have hchoice : localName ≠ "choice" := by
      rintro rfl
      simp at hrow
    rw [if_pos hrow, if_pos (by simpa [hchoice] using hrow)]
    exact .group hchoice
  rw [if_neg hrow]
  by_cases hchoice : localName = "choice"
  · rw [if_pos hchoice, if_pos (.inr (.inr hchoice))]
    exact .choice hchoice
  have hgroup : ¬ (localName = "sequence" ∨ localName = "all" ∨ localName = "choice") := by
    simpa [hchoice] using hrow
  rw [if_neg hchoice, if_neg hgroup]
  by_cases hcomplex : localName = "complexContent"
  · rw [if_pos hcomplex, if_pos hcomplex]
    exact .derived
  rw [if_neg hcomplex, if_neg hcomplex]
  by_cases helement : localName = "element"
  · rw [Decidable.not_not] at hns
    rw [if_pos helement, if_pos helement]
    split
    · next href => exact .elementRef (by simp [Element.is, hns, helement]) href
    · next href => exact .element (by simp [Element.is, hns, helement]) href
  · rw [if_neg helement, if_neg helement]
    exact .nothing

/-- The name of a particle: that of the element it refers to, or its own one. -/
def particleName? (e : Element) : Option String :=
  match reference? e "ref" with
  | some (.to target) => some target.localName
  | some (.unbound _) => none
  | none => e.attribute? "name"

/-- Whether a group makes all that stands in it optional. -/
def makesOptional (group : Element) : Bool :=
  group.localName = "choice" || (occurrenceOf group).isOptional

/-- The rows of a source of fields. Where `isForced` holds all particles are optional. -/
inductive GivesRows (isForced : Bool) : FieldSource → List Row → Prop
  | derivation (e : Element) :
    GivesRows isForced (.derivation e) (rowsOfBase (reference? e "base"))
  | elementRef {groups : List Element} {e : Element} {target : Reference} :
    reference? e "ref" = some target →
      GivesRows isForced (.particle groups e)
        ((Content.elementRef (occurrenceOf e) target).rows
          (isForced || groups.any makesOptional))
  | element {groups : List Element} {e : Element} {type : ElementType} :
    reference? e "ref" = none →
      GivesRows isForced (.particle groups e)
        ((Content.element (occurrenceOf e) (e.attribute? "name") type).rows
          (isForced || groups.any makesOptional))

/-- A particle with a name has one row. -/
theorem GivesRows.exists_eq {isForced : Bool} {groups : List Element} {e : Element}
    {rows : List Row} (h : GivesRows isForced (.particle groups e) rows) {name : String}
    (hname : particleName? e = some name) :
    ∃ mention, rows =
      [.particle (occurrenceOf e) (isForced || groups.any makesOptional) name mention] := by
  rw [particleName?] at hname
  cases h with
  | @elementRef _ _ target href =>
    rw [href] at hname
    cases target with
    | «to» target =>
      obtain rfl := Option.some.inj hname
      exact ⟨_, rfl⟩
    | unbound text => cases hname
  | element href =>
    rw [href] at hname
    have hattribute : e.attribute? "name" = some name := hname
    rw [hattribute]
    exact ⟨_, rfl⟩

/-! ## Rows of an element -/

/-- A choice makes what stands in it optional. -/
theorem isForced_choice {group : Element} (h : group.localName = "choice") (isForced : Bool)
    (groups : List Element) : (isForced || (group :: groups).any makesOptional) = true := by
  simp [makesOptional, h]

/-- Another group does so where it is optional itself. -/
theorem isForced_group {group : Element} (h : group.localName ≠ "choice") (isForced : Bool)
    (groups : List Element) :
    (isForced || (group :: groups).any makesOptional) =
      ((isForced || groups.any makesOptional) || (occurrenceOf group).isOptional) := by
  simp [makesOptional, h, Bool.or_comm, Bool.or_assoc]

variable {c : Components} {follow : Follow}

mutual

/-- The rows that are read from elements are those of the sources of fields in them. -/
theorem spreads_readContents (isForced : Bool) (path : List Nat) (i : Nat) (groups : List Element)
    (es : List Element) :
    Spreads (GivesRows isForced) (sourcesOfAll groups es)
      (rowsOfAll (isForced || groups.any makesOptional) (readContents path i es)) := by
  match es with
  | [] =>
    rw [readContents, sourcesOfAll, rowsOfAll]
    exact .nil
  | e :: rest =>
    have hfirst := spreads_readContent isForced (i :: path) groups e
    rw [readContents, sourcesOfAll]
    cases hread : readContent (i :: path) e with
    | none =>
      rw [hread] at hfirst
      exact hfirst.append (spreads_readContents isForced path i groups rest)
    | some part =>
      rw [hread, Option.toList_some, rowsOfAll, rowsOfAll, List.append_nil] at hfirst
      exact hfirst.append (spreads_readContents isForced path (i + 1) groups rest)
termination_by structural es

theorem spreads_readContent (isForced : Bool) (path : List Nat) (groups : List Element)
    (e : Element) :
    Spreads (GivesRows isForced) (sourcesOf groups e)
      (rowsOfAll (isForced || groups.any makesOptional) (readContent path e).toList) := by
  match e with
  | ⟨ns, localName, attributes, scope, children, text⟩ =>
    have hread := isReadAs path groups ⟨ns, localName, attributes, scope, children, text⟩
    generalize readContent path _ = part, sourcesOf groups _ = sources at hread ⊢
    cases hread with
    | nothing => exact .nil
    -- what a group hands down to its parts is what it says as one more group around them
    | group hlocal =>
      have hinside := spreads_readContents isForced path 0
        (⟨ns, localName, attributes, scope, children, text⟩ :: groups) children
      rw [isForced_group hlocal] at hinside
      simpa [rowsOfAll, Content.rows] using hinside
    | choice hlocal =>
      have hinside := spreads_readContents isForced path 0
        (⟨ns, localName, attributes, scope, children, text⟩ :: groups) children
      rw [isForced_choice hlocal] at hinside
      simpa [rowsOfAll, Content.rows] using hinside
    | derived =>
      have hinside := spreads_readDerivations isForced path 0 groups children
      simpa [rowsOfAll, Content.rows] using hinside
    | elementRef _ href =>
      rw [Option.toList_some, rowsOfAll, rowsOfAll, List.append_nil]
      exact .singleton (.elementRef href)
    | element _ href =>
      rw [Option.toList_some, rowsOfAll, rowsOfAll, List.append_nil]
      exact .singleton (.element href)
termination_by structural e

theorem spreads_readDerivations (isForced : Bool) (path : List Nat) (i : Nat)
    (groups : List Element) (es : List Element) :
    Spreads (GivesRows isForced) (sourcesOfDerivations groups es)
      (rowsOfDerivations (isForced || groups.any makesOptional) (readDerivations path i es)) := by
  match es with
  | [] =>
    rw [readDerivations, sourcesOfDerivations, rowsOfDerivations]
    exact .nil
  | e :: rest =>
    rw [readDerivations, sourcesOfDerivations, rowsOfDerivations]
    have hfirst := spreads_readDerivation isForced (i :: path) groups e
    exact (Spreads.cons (.derivation e) hfirst).append
      (spreads_readDerivations isForced path (i + 1) groups rest)
termination_by structural es

theorem spreads_readDerivation (isForced : Bool) (path : List Nat) (groups : List Element)
    (e : Element) :
    Spreads (GivesRows isForced) (sourcesInside groups e)
      (rowsOfAll (isForced || groups.any makesOptional) (readDerivation path e)) := by
  match e with
  | ⟨_, _, _, _, children, _⟩ =>
    rw [readDerivation, sourcesInside]
    exact spreads_readContents isForced path 0 groups children
termination_by structural e

end

/-- The content of a structured type is read from the children of its element. -/
theorem content_eq_of_readComplex {path : List Nat} {node : Element} {content : List Content}
    {base : Option (Option Reference)} (h : readComplex path node = .mk base content) :
    content = readContents path 0 node.children := by
  cases node
  rw [readComplex] at h
  injection h with _ h
  exact h.symm

/-- A structured type refers to the bases of the derivations in its element. -/
theorem Components.refers_of_derivation {x y : TypeKey} {path : List Nat} {node e : Element}
    {content : List Content} {base : QName} (hdecl : c.Declares x (.mk none content))
    (hread : readComplex path node = .mk none content)
    (he : .derivation e ∈ sourcesOfAll [] node.children)
    (hbase : reference? e "base" = some (.to base))
    (hy : c.StandsFor (.target (.type base)) (.structured y)) : c.Refers x y := by
  obtain rfl := content_eq_of_readComplex hread
  have hspreads : Spreads (GivesRows false) (sourcesOfAll [] node.children)
      (rowsOfAll false (readContents path 0 node.children)) :=
    spreads_readContents false path 0 [] node.children
  obtain ⟨rows, hrows, hsub⟩ := hspreads.exists_of_mem he
  cases hrows
  rw [hbase] at hsub
  exact Components.refers_of_mem hdecl (hsub List.mem_cons_self) hy

/-! ## Names of particles -/

/-- A source of fields has the name that it needs: a particle one for its field, and the base of a
derivation one that is bound. -/
def FieldSource.IsComplete : FieldSource → Prop
  | .derivation e => ∀ text, reference? e "base" ≠ some (.unbound text)
  | .particle _ e => (particleName? e).isSome

/-- A particle that is collected has a name. -/
theorem isSome_particleName?_of_elementRef {isForced : Bool} {e : Element} {target : Reference}
    (href : reference? e "ref" = some target)
    (h : Succeeds (collectContent c follow isForced (.elementRef (occurrenceOf e) target))) :
    (particleName? e).isSome := by
  rw [collectContent] at h
  obtain ⟨name, hname, -⟩ := h.lift_bind
  rw [particleName?, href]
  cases target with
  | «to» target => rfl
  | unbound text => cases hname

theorem isSome_particleName?_of_element {isForced : Bool} {e : Element} {type : ElementType}
    (href : reference? e "ref" = none)
    (h : Succeeds (collectContent c follow isForced
      (.element (occurrenceOf e) (e.attribute? "name") type))) :
    (particleName? e).isSome := by
  rw [collectContent] at h
  obtain ⟨name, hname, -⟩ := h.lift_bind
  have hattribute : e.attribute? "name" = some name := eq_some_of_required hname
  have heq : particleName? e = e.attribute? "name" := by rw [particleName?, href]
  rw [heq, hattribute]
  rfl

mutual

/-- Where contents are collected, the sources of fields have the names they need. -/
theorem isComplete_readContents (isForced : Bool) (path : List Nat) {i : Nat}
    (groups : List Element) (es : List Element)
    (h : Succeeds (collectContents c follow isForced (readContents path i es))) :
    ∀ source ∈ sourcesOfAll groups es, source.IsComplete := by
  match es with
  | [] =>
    rw [sourcesOfAll]
    exact List.forall_mem_nil _
  | e :: rest =>
    rw [readContents] at h
    rw [sourcesOfAll, List.forall_mem_append]
    cases hread : readContent (i :: path) e with
    | none =>
      rw [hread] at h
      refine ⟨isComplete_readContent isForced (i :: path) groups e fun part hpart => ?_,
        isComplete_readContents _ path groups rest h⟩
      cases hread.symm.trans hpart
    | some part =>
      rw [hread, collectContents] at h
      obtain ⟨hpart, _, hrest⟩ := h.bind
      refine ⟨isComplete_readContent isForced (i :: path) groups e fun other hother => ?_,
        isComplete_readContents _ path groups rest hrest.bind.1⟩
      obtain rfl := Option.some.inj (hread.symm.trans hother)
      exact hpart
termination_by structural es

theorem isComplete_readContent (isForced : Bool) (path : List Nat)
    (groups : List Element) (e : Element)
    (h : ∀ part, readContent path e = some part →
      Succeeds (collectContent c follow isForced part)) :
    ∀ source ∈ sourcesOf groups e, source.IsComplete := by
  match e with
  | ⟨ns, localName, attributes, scope, children, text⟩ =>
    have hread := isReadAs path groups ⟨ns, localName, attributes, scope, children, text⟩
    generalize readContent path _ = part, sourcesOf groups _ = sources at hread h ⊢
    cases hread with
    | nothing => exact List.forall_mem_nil _
    | group hlocal =>
      have hcollect := h _ rfl
      rw [collectContent] at hcollect
      exact isComplete_readContents _ path _ children hcollect
    | choice hlocal =>
      have hcollect := h _ rfl
      rw [collectContent] at hcollect
      exact isComplete_readContents _ path _ children hcollect
    | derived =>
      have hcollect := h _ rfl
      rw [collectContent] at hcollect
      exact isComplete_readDerivations _ path groups children hcollect
    | elementRef _ href =>
      exact List.forall_mem_singleton.mpr (isSome_particleName?_of_elementRef href (h _ rfl))
    | element _ href =>
      exact List.forall_mem_singleton.mpr (isSome_particleName?_of_element href (h _ rfl))
termination_by structural e

theorem isComplete_readDerivations (isForced : Bool) (path : List Nat) {i : Nat}
    (groups : List Element) (es : List Element)
    (h : Succeeds (collectDerivations c follow isForced (readDerivations path i es))) :
    ∀ source ∈ sourcesOfDerivations groups es, source.IsComplete := by
  match es with
  | [] =>
    rw [sourcesOfDerivations]
    exact List.forall_mem_nil _
  | e :: rest =>
    rw [readDerivations, collectDerivations] at h
    obtain ⟨hbase, _, h⟩ := h.bind
    obtain ⟨hinside, _, h⟩ := h.bind
    rw [sourcesOfDerivations, List.forall_mem_append, List.forall_mem_cons]
    refine ⟨⟨fun text hunbound => ?_, isComplete_readDerivation _ (i :: path) groups e hinside⟩,
      isComplete_readDerivations _ path groups rest h.bind.1⟩
    rw [hunbound] at hbase
    obtain ⟨_, hfollow, -⟩ := hbase.lift_bind
    cases hfollow
termination_by structural es

theorem isComplete_readDerivation (isForced : Bool) (path : List Nat)
    (groups : List Element) (e : Element)
    (h : Succeeds (collectContents c follow isForced (readDerivation path e))) :
    ∀ source ∈ sourcesInside groups e, source.IsComplete := by
  match e with
  | ⟨_, _, _, _, children, _⟩ =>
    rw [readDerivation] at h
    rw [sourcesInside]
    exact isComplete_readContents _ path groups children h
termination_by structural e

end

end SoapClient.Schema
