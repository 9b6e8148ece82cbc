import SoapClient.Proofs.Schema.Agreement
import SoapClient.Proofs.Xml.Resemblance
import SoapClient.Wsdl.Reader

/-!
# Reading elements that say the same

Two tags say the same where their names do and their attributes do, a name in an attribute counting
as the name it stands for. An element is foreign where descriptions give it no meaning. Main
statement: what is read from elements that resemble one another in this way, but for foreign ones,
agrees (`agree_readSchema`).
-/

namespace SoapClient.Schema

open Xml (Element Comparison Resembles ResembleInside QName)

/-! ## What is said -/

/-- The attributes whose values are names. -/
def referring : List String := ["type", "base", "ref", "element", "message", "binding"]

/-- Two tags say the same: the elements have the same name, attributes without a qualifier have the
same values, and a name in one of them may be written in any way that stands for the same. -/
structure SaysSame (e e' : Element) : Prop where
  namespaceName : e.namespaceName = e'.namespaceName
  localName : e.localName = e'.localName
  value : ∀ name, ':' ∉ name.toList → name ∉ referring → e.attribute? name = e'.attribute? name
  target : ∀ name ∈ referring,
    (e.attribute? name).map e.resolve? = (e'.attribute? name).map e'.resolve?

/-- The namespaces of the elements that make up a description. -/
def understood : List String :=
  [Wsdl.namespaceName, namespaceName, Wsdl.bindingNamespace .soap11, Wsdl.bindingNamespace .soap12]

/-- An element of another namespace, or of none. -/
def IsForeign (e : Element) : Prop := ∀ ns ∈ understood, e.namespaceName ≠ some ns

/-- The names of the elements that a content model is made of. -/
def contentNames : List String := ["sequence", "all", "choice", "complexContent", "element"]

/-- An element without parts of a content model directly inside. -/
def HoldsNoContent (e : Element) : Prop :=
  ∀ child ∈ e.children, ∀ name ∈ contentNames, child.is namespaceName name = false

/-- An element may hold a foreign one, unless it takes all of its children for derivations, whatever
their names, and this one would count. -/
structure Admits (parent e : Element) : Prop where
  foreign : IsForeign e
  /-- In complex content a base counts, and so does what a derivation holds. -/
  complex : parent.is namespaceName "complexContent" → e.attribute? "base" = none ∧ HoldsNoContent e
  /-- In simple content only a base counts. -/
  simple : parent.is namespaceName "simpleContent" → e.attribute? "base" = none

/-- Elements of descriptions that say the same, but for foreign elements. -/
def extended : Comparison := ⟨SaysSame, Admits⟩

variable {e e' parent : Element} {es es' : List Element}

theorem SaysSame.is_eq (h : SaysSame e e') (ns localName : String) :
    e.is ns localName = e'.is ns localName := by
  rw [Element.is, Element.is, h.namespaceName, h.localName]

/-- What an attribute refers to does not depend on how it is written. -/
theorem SaysSame.reference? (h : SaysSame e e') {name : String} (hname : name ∈ referring) :
    Option.Rel Reference.Agree (reference? e name) (reference? e' name) := by
  have hresolve := h.target name hname
  unfold Schema.reference?
  cases htext : e.attribute? name with
  | none =>
    cases htext' : e'.attribute? name with
    | none => exact .none
    | some text' => simp [htext, htext'] at hresolve
  | some text =>
    cases htext' : e'.attribute? name with
    | none => simp [htext, htext'] at hresolve
    | some text' =>
      rw [htext, htext', Option.map_some, Option.map_some, Option.some_inj] at hresolve
      rw [Option.map_some, Option.map_some, hresolve]
      cases e'.resolve? text' with
      | none => exact .some (.unbound text text')
      | some target => exact .some (.to target)

theorem SaysSame.occurrenceOf_eq (h : SaysSame e e') : occurrenceOf e = occurrenceOf e' := by
  have hmin := h.value "minOccurs" (by decide) (by decide)
  have hnillable := h.value "nillable" (by decide) (by decide)
  have hmax := h.value "maxOccurs" (by decide) (by decide)
  unfold occurrenceOf
  rw [hmin, hnillable, hmax]

theorem IsForeign.is_eq_false (h : IsForeign e) {ns : String} (hns : ns ∈ understood)
    (localName : String) : e.is ns localName = false := by
  unfold Element.is
  exact decide_eq_false fun hboth => h ns hns hboth.2

/-- Elements with a name that has a meaning are told from the others. -/
theorem tells_is {ns : String} (hns : ns ∈ understood) (localName : String) :
    extended.Tells (·.is ns localName) :=
  ⟨fun _ _ h => h.is_eq ns localName, fun _ _ h => h.foreign.is_eq_false hns localName⟩

theorem namespaceName_mem_understood : namespaceName ∈ understood := by decide

/-- A child that is found by its name has this name. -/
theorem is_of_child? {ns localName : String} {child : Element}
    (h : e.child? ns localName = some child) : child.is ns localName := by
  rw [Element.child?] at h
  simpa using List.find?_some h

/-- A child with a name that has a meaning resembles one with that name. -/
theorem rel_child? (h : Resembles extended e e') {ns : String} (hns : ns ∈ understood)
    (localName : String) :
    Option.Rel (Resembles extended) (e.child? ns localName) (e'.child? ns localName) :=
  h.inside.find? (tells_is hns localName)

/-- The children with a name that has a meaning resemble one another one by one. -/
theorem forall₂_childrenNamed (h : Resembles extended e e') {ns : String} (hns : ns ∈ understood)
    (localName : String) :
    List.Forall₂ (Resembles extended) (e.childrenNamed ns localName)
      (e'.childrenNamed ns localName) :=
  h.inside.filter (tells_is hns localName)

/-! ## Simple types -/

theorem readSimple_eq (e : Element) : readSimple e = readRestriction e.children := by
  cases e
  rw [readSimple]

theorem readInner_eq (e : Element) : readInner e = readFirstSimple e.children := by
  cases e
  rw [readInner]

mutual

theorem agree_readSimple {e e' : Element} (h : Resembles extended e e') :
    (readSimple e).Agree (readSimple e') := by
  match h with
  | .intro _ hinside =>
    rw [readSimple_eq, readSimple_eq]
    exact agree_readRestriction hinside

theorem agree_readRestriction {parent : Element} {es es' : List Element}
    (h : ResembleInside extended parent es es') :
    (readRestriction es).Agree (readRestriction es') := by
  match h with
  | .nil => exact .text
  | .extra hextra hrest =>
    rw [readRestriction.eq_2, hextra.foreign.is_eq_false namespaceName_mem_understood]
    exact agree_readRestriction hrest
  | @ResembleInside.cons _ _ e e' _ _ (.intro htag hinside) hrest =>
    have hbase := SaysSame.reference? htag (by decide : "base" ∈ referring)
    have hinner : Option.Rel SimpleDecl.Agree (readInner e) (readInner e') := by
      rw [readInner_eq, readInner_eq]
      exact rel_readFirstSimple hinside
    rw [readRestriction, readRestriction, ← SaysSame.is_eq htag]
    split
    · exact .of_inner hbase hinner
    · exact agree_readRestriction hrest

theorem rel_readFirstSimple {parent : Element} {es es' : List Element}
    (h : ResembleInside extended parent es es') :
    Option.Rel SimpleDecl.Agree (readFirstSimple es) (readFirstSimple es') := by
  match h with
  | .nil => exact .none
  | .extra hextra hrest =>
    rw [readFirstSimple.eq_2, hextra.foreign.is_eq_false namespaceName_mem_understood]
    exact rel_readFirstSimple hrest
  | .cons hfirst hrest =>
    rw [readFirstSimple, readFirstSimple, ← SaysSame.is_eq hfirst.tag]
    split
    · exact .some (agree_readSimple hfirst)
    · exact rel_readFirstSimple hrest

end

/-! ## Structured types -/

/-- Whatever the paths. -/
abbrev AnyPaths : List Nat → List Nat → Prop := fun _ _ => True

theorem readComplex_eq (path : List Nat) (e : Element) :
    readComplex path e = .mk (readSimpleContent e) (readContents path 0 e.children) := by
  cases e
  rw [readComplex]

theorem readDerivation_eq (path : List Nat) (e : Element) :
    readDerivation path e = readContents path 0 e.children := by
  cases e
  rw [readDerivation]

theorem readContent_eq (path : List Nat) (e : Element) :
    readContent path e =
      if e.namespaceName ≠ some namespaceName then none
      else if e.localName = "sequence" ∨ e.localName = "all" then
        some (.group (occurrenceOf e) (readContents path 0 e.children))
      else if e.localName = "choice" then
        some (.choice (occurrenceOf e) (readContents path 0 e.children))
      else if e.localName = "complexContent" then
        some (.derived (readDerivations path 0 e.children))
      else if e.localName = "element" then
        match reference? e "ref" with
        | some target => some (.elementRef (occurrenceOf e) target)
        | none =>
          some (.element (occurrenceOf e) (e.attribute? "name")
            (elementTypeOf path e (readFirstComplex path e.children)))
      else none := by
  cases e
  unfold readContent
  rfl

/-- An element of another name is no part of a content model. -/
theorem readContent_of_not_is {path : List Nat} {e : Element}
    (h : ∀ name ∈ contentNames, e.is namespaceName name = false) : readContent path e = none := by
  rw [readContent_eq]
  split
  · rfl
  next hns =>
  have hname : e.localName ∉ contentNames := by
    intro hmem
    have his := h _ hmem
    rw [Element.is, decide_eq_false_iff_not] at his
    exact his ⟨rfl, not_not.mp hns⟩
  simp only [contentNames, List.mem_cons, List.not_mem_nil, or_false, not_or] at hname
  obtain ⟨hsequence, hall, hchoice, hderived, helement⟩ := hname
  rw [if_neg (not_or.mpr ⟨hsequence, hall⟩), if_neg hchoice, if_neg hderived, if_neg helement]

/-- Where no element is a part of a content model there is none. -/
theorem readContents_of_forall_not_is {path : List Nat} {i : Nat} {es : List Element}
    (h : ∀ e ∈ es, ∀ name ∈ contentNames, e.is namespaceName name = false) :
    readContents path i es = [] := by
  induction es with
  | nil => rfl
  | cons e rest ih =>
    rw [List.forall_mem_cons] at h
    rw [readContents, readContent_of_not_is h.1]
    exact ih h.2

theorem IsForeign.readContent_eq_none (h : IsForeign e) (path : List Nat) :
    readContent path e = none :=
  readContent_of_not_is fun name _ => h.is_eq_false namespaceName_mem_understood name

/-- Without a base an element refers to none. -/
theorem base?_eq_none (h : e.attribute? "base" = none) : Schema.reference? e "base" = none := by
  rw [Schema.reference?, h]
  rfl

/-- What complex content may hold besides is a derivation that says nothing. -/
theorem Admits.derivation_eq (h : Admits parent e)
    (hparent : parent.is namespaceName "complexContent") (path : List Nat) :
    (Schema.reference? e "base", readDerivation path e) = (none, []) := by
  obtain ⟨hbase, hcontent⟩ := h.complex hparent
  rw [base?_eq_none hbase, readDerivation_eq, readContents_of_forall_not_is hcontent]

/-- The first base among the children of simple content. -/
theorem rel_firstBase (hparent : parent.is namespaceName "simpleContent") {es es' : List Element}
    (h : ResembleInside extended parent es es') :
    Option.Rel Reference.Agree (es.findSome? (Schema.reference? · "base"))
      (es'.findSome? (Schema.reference? · "base")) := by
  match h with
  | .nil => exact .none
  | .extra hextra hrest =>
    rw [List.findSome?_cons, base?_eq_none (hextra.simple hparent)]
    exact rel_firstBase hparent hrest
  | @ResembleInside.cons _ _ e e' _ _ hfirst hrest =>
    have hbase := SaysSame.reference? hfirst.tag (by decide : "base" ∈ referring)
    rw [List.findSome?_cons, List.findSome?_cons]
    generalize Schema.reference? e "base" = base at hbase
    generalize Schema.reference? e' "base" = base' at hbase
    cases hbase with
    | some hbase => exact .some hbase
    | none => exact rel_firstBase hparent hrest

theorem rel_readSimpleContent (h : Resembles extended e e') :
    Option.Rel (Option.Rel Reference.Agree) (readSimpleContent e) (readSimpleContent e') := by
  have hchild := rel_child? h namespaceName_mem_understood "simpleContent"
  have hname : ∀ content, e.child? namespaceName "simpleContent" = some content →
      content.is namespaceName "simpleContent" := fun _ => is_of_child?
  unfold readSimpleContent
  generalize e.child? namespaceName "simpleContent" = content at hchild hname
  generalize e'.child? namespaceName "simpleContent" = content' at hchild
  cases hchild with
  | none => exact .none
  | some hcontent => exact .some (rel_firstBase (hname _ rfl) hcontent.inside)

/-- The type of an element, from what it names and what it holds. -/
theorem agree_elementTypeOf (htag : SaysSame e e')
    (hinside : ResembleInside extended parent e.children e'.children) (path path' : List Nat)
    {inPlace inPlace' : Option ComplexDecl}
    (hinPlace : Option.Rel (ComplexDecl.Agree AnyPaths) inPlace inPlace') :
    (elementTypeOf path e inPlace).Agree AnyPaths (elementTypeOf path' e' inPlace') := by
  have htype := htag.reference? (by decide : "type" ∈ referring)
  have hsimple := rel_readFirstSimple hinside
  unfold elementTypeOf
  generalize Schema.reference? e "type" = type at htype
  generalize Schema.reference? e' "type" = type' at htype
  generalize readFirstSimple e.children = simple at hsimple
  generalize readFirstSimple e'.children = simple' at hsimple
  cases htype with
  | some htype => exact .named htype
  | none =>
    cases hinPlace with
    | some hdecl => exact .complex trivial hdecl
    | none =>
      cases hsimple with
      | some hdecl => exact .simple hdecl
      | none => exact .any

mutual

theorem agree_readComplex (path path' : List Nat) {e e' : Element} (h : Resembles extended e e') :
    (readComplex path e).Agree AnyPaths (readComplex path' e') := by
  match h with
  | .intro htag hinside =>
    rw [readComplex_eq, readComplex_eq]
    exact .mk (rel_readSimpleContent (.intro htag hinside))
      (agree_readContents path path' 0 0 hinside)

theorem agree_readContents (path path' : List Nat) (i i' : Nat) {parent : Element}
    {es es' : List Element} (h : ResembleInside extended parent es es') :
    ContentsAgree AnyPaths (readContents path i es) (readContents path' i' es') := by
  match h with
  | .nil => exact .nil
  | .extra hextra hrest =>
    rw [readContents.eq_2, hextra.foreign.readContent_eq_none]
    exact agree_readContents path path' i i' hrest
  | @ResembleInside.cons _ _ e e' _ _ hfirst hrest =>
    have hpart := rel_readContent (i :: path) (i' :: path') hfirst
    rw [readContents, readContents]
    generalize readContent (i :: path) e = part at hpart
    generalize readContent (i' :: path') e' = part' at hpart
    cases hpart with
    | none => exact agree_readContents path path' i i' hrest
    | some hpart => exact .cons hpart (agree_readContents path path' (i + 1) (i' + 1) hrest)

theorem rel_readContent (path path' : List Nat) {e e' : Element} (h : Resembles extended e e') :
    Option.Rel (Content.Agree AnyPaths) (readContent path e) (readContent path' e') := by
  match h with
  | .intro htag hinside =>
    have hoccurs := SaysSame.occurrenceOf_eq htag
    rw [readContent_eq path e, readContent_eq path' e', ← SaysSame.namespaceName htag,
      ← SaysSame.localName htag, ← hoccurs]
    split
    · exact .none
    next hns =>
    split
    · exact .some (.group _ (agree_readContents path path' 0 0 hinside))
    split
    · exact .some (.choice _ (agree_readContents path path' 0 0 hinside))
    split
    · next hname =>
      have his : e.is namespaceName "complexContent" := by
        simp [Element.is, hname, not_not.mp hns]
      exact .some (.derived (agree_readDerivations path path' 0 0 his hinside))
    split
    · have href := SaysSame.reference? htag (by decide : "ref" ∈ referring)
      have hname := SaysSame.value htag "name" (by decide) (by decide)
      have htype := agree_elementTypeOf htag hinside path path'
        (rel_readFirstComplex path path' hinside)
      generalize Schema.reference? e "ref" = target at href
      generalize Schema.reference? e' "ref" = target' at href
      rw [← hname]
      cases href with
      | some htarget => exact .some (.elementRef _ htarget)
      | none => exact .some (.element _ _ htype)
    · exact .none

theorem agree_readDerivations (path path' : List Nat) (i i' : Nat) {parent : Element}
    (hparent : parent.is namespaceName "complexContent") {es es' : List Element}
    (h : ResembleInside extended parent es es') :
    DerivationsAgree AnyPaths (readDerivations path i es) (readDerivations path' i' es') := by
  match h with
  | .nil => exact .nil
  | .extra hextra hrest =>
    rw [readDerivations.eq_2, Admits.derivation_eq hextra hparent]
    exact .silent (agree_readDerivations path path' i (i' + 1) hparent hrest)
  | .cons (.intro htag hinside) hrest =>
    have hbase := SaysSame.reference? htag (by decide : "base" ∈ referring)
    rw [readDerivations, readDerivations, readDerivation_eq, readDerivation_eq]
    exact .cons hbase (agree_readContents (i :: path) (i' :: path') 0 0 hinside)
      (agree_readDerivations path path' (i + 1) (i' + 1) hparent hrest)

theorem rel_readFirstComplex (path path' : List Nat) {parent : Element} {es es' : List Element}
    (h : ResembleInside extended parent es es') :
    Option.Rel (ComplexDecl.Agree AnyPaths) (readFirstComplex path es)
      (readFirstComplex path' es') := by
  match h with
  | .nil => exact .none
  | .extra hextra hrest =>
    rw [readFirstComplex.eq_2, hextra.foreign.is_eq_false namespaceName_mem_understood]
    exact rel_readFirstComplex path path' hrest
  | .cons hfirst hrest =>
    rw [readFirstComplex, readFirstComplex, ← SaysSame.is_eq hfirst.tag]
    split
    · exact .some (agree_readComplex path path' hfirst)
    · exact rel_readFirstComplex path path' hrest

end

/-! ## Schemas -/

theorem rel_readTopLevel (path path' : List Nat) (h : Resembles extended e e') :
    Option.Rel (TopLevel.Agree AnyPaths) (readTopLevel path e) (readTopLevel path' e') := by
  have htag : SaysSame e e' := h.tag
  have hname := htag.value "name" (by decide) (by decide)
  have hlocation := htag.value "schemaLocation" (by decide) (by decide)
  unfold readTopLevel
  rw [← htag.namespaceName, ← htag.localName, ← hname, ← hlocation]
  split
  · exact .none
  split
  · exact .some (.imported _)
  · exact .some (.included _ _)
  · exact .some (.included _ _)
  · exact .some (.element _ (agree_elementTypeOf htag h.inside path path'
      (rel_readFirstComplex path path' h.inside)))
  · exact .some (.complexType _ (agree_readComplex path path' h))
  · exact .some (.simpleType _ (agree_readSimple h))
  · exact .none

theorem forall₂_readTopLevels (path path' : List Nat) (i i' : Nat) {es es' : List Element}
    (h : ResembleInside extended parent es es') :
    List.Forall₂ (TopLevel.Agree AnyPaths) (readTopLevels path i es)
      (readTopLevels path' i' es') := by
  -- each step of the comparison takes an element of the second list
  induction es' generalizing es i i' with
  | nil => cases h; exact .nil
  | cons e' rest' ih =>
    cases h with
    | extra hextra hrest =>
      have hnone : readTopLevel (i' :: path') e' = none := by
        rw [readTopLevel, if_pos (hextra.foreign _ namespaceName_mem_understood)]
      rw [readTopLevels.eq_2, hnone]
      exact ih i i' hrest
    | @cons _ e _ _ _ hfirst hrest =>
      have hpart := rel_readTopLevel (i :: path) (i' :: path') hfirst
      rw [readTopLevels, readTopLevels]
      generalize readTopLevel (i :: path) e = d at hpart
      generalize readTopLevel (i' :: path') e' = d' at hpart
      cases hpart with
      | none => exact ih i i' hrest
      | some hd => exact .cons hd (ih (i + 1) (i' + 1) hrest)

/-- What is read from schemas that say the same agrees. -/
theorem agree_readSchema (path path' : List Nat) (h : Resembles extended e e') :
    (readSchema path e).Agree AnyPaths (readSchema path' e') := by
  have htag : SaysSame e e' := h.tag
  refine ⟨htag.value "targetNamespace" (by decide) (by decide), ?_,
    forall₂_readTopLevels path path' 0 0 h.inside⟩
  unfold readSchema
  rw [htag.value "elementFormDefault" (by decide) (by decide)]

end SoapClient.Schema
