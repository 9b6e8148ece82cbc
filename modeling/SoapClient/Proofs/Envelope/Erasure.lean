import SoapClient.Envelope.Encode
import SoapClient.Proofs.Json.Everywhere
import SoapClient.Proofs.Xml.Grouping
import SoapClient.Proofs.Xml.Tree

/-!
# What is left of a value in an envelope

In an envelope a value is a row of elements of one name, and these are read as untyped values. Main
statement: the elements that are written for members are read as the *occurrences* of the members
(`exists_buildAll_ofMembers`), whatever the members are.
-/

namespace SoapClient.Envelope

open Outcome
open Xml (Element Markup Scope splitName? isNCName groupByName ofGroup childValues namesOf
  valuesUnder)

/-! ## Occurrences -/

/-- The value of an element with occurrences inside: those of one name share a member. -/
def ofOccurrences : List (String × Json) → Json
  | [] => .str ""
  | o :: os => .obj ((groupByName (o :: os)).map fun (name, vs) => (name, ofGroup vs))

/-- Named values as one value: without any an empty text, else an object in which a name comes once,
where it came first, with its only value or with an array of its values. -/
def gathered : List (String × Json) → Json
  | [] => .str ""
  | o :: os =>
    .obj ((namesOf (o :: os)).map fun name => (name, ofGroup (valuesUnder name (o :: os))))

/-- The reader gathers what stands under one name. -/
theorem ofOccurrences_eq_gathered (named : List (String × Json)) :
    ofOccurrences named = gathered named := by
  cases named with
  | nil => rfl
  | cons o os => rw [ofOccurrences, Xml.groupByName_eq, List.map_map, gathered]; rfl

mutual

/-- What the elements of a value are read as: null stays what it is, truth values and numbers
become their texts, and the items of an array occur one after the other. -/
def occurrences : Json → List Json
  | .null => [.null]
  | .bool flag => [.str (Json.boolText flag)]
  | .whole n => [.str (Json.wholeText n)]
  | .real x => [.str (Json.realText x)]
  | .str s => [.str s]
  | .arr items => itemOccurrences items
  | .obj members => [ofOccurrences (memberOccurrences members)]

/-- The occurrences of items, one item after the other. -/
def itemOccurrences : List Json → List Json
  | [] => []
  | v :: rest => occurrences v ++ itemOccurrences rest

/-- The occurrences of members under their names. -/
def memberOccurrences : List (String × Json) → List (String × Json)
  | [] => []
  | (name, v) :: rest => (occurrences v).map (name, ·) ++ memberOccurrences rest

end

theorem memberOccurrences_eq (members : List (String × Json)) :
    memberOccurrences members =
      members.flatMap fun (name, v) => (occurrences v).map (name, ·) := by
  induction members with
  | nil => rfl
  | cons member rest ih =>
    obtain ⟨name, v⟩ := member
    rw [memberOccurrences, ih, List.flatMap_cons]

/-! ## Written names -/

theorem splitName?_of_isNCName {name : String} (h : isNCName name) : splitName? name = none :=
  Xml.splitName?_eq_none_iff.mpr (Xml.colon_notMem_of_isNCName h)

/-- A qualified name is cut behind its qualifier. -/
theorem splitName?_qualified {q : String} (hq : ':' ∉ q.toList) (name : String) :
    splitName? (q ++ ":" ++ name) = some (q, name) :=
  Xml.splitName?_eq_some_iff.mpr ⟨hq, rfl⟩

/-- The written name of an element of an envelope can be read back. -/
theorem isWrittenName_qualify {name : String} (h : isNCName name) (isQualified : Bool) :
    Xml.IsWrittenName (qualify isQualified name).toList := by
  have hplain := Xml.isWrittenName_of_isNCName h
  cases isQualified with
  | false => exact hplain
  | true =>
    have hq : Xml.IsWrittenName operationQualifier.toList := by decide
    have hlist : (qualify true name).toList = operationQualifier.toList ++ ':' :: name.toList := by
      simp [qualify]
    rw [hlist]
    exact hplain.qualified _ hq.2

/-- A tag without attributes that can be read back. -/
theorem isWrittenTag_qualify {name : String} (h : isNCName name) (isQualified : Bool) :
    Xml.IsWrittenTag (qualify isQualified name) [] :=
  ⟨isWrittenName_qualify h isQualified, Xml.AreWrittenAttributes.nil⟩

/-! ## What is written can be read back -/

theorem isWritten_textElement {name : String} (h : isNCName name) (isQualified : Bool)
    (text : String) : Markup.AreWritten (textElement (qualify isQualified name) text) :=
  ⟨⟨isWrittenTag_qualify h isQualified, .inl ⟨text, rfl⟩⟩, trivial⟩

theorem areWritten_append {ms ms' : List Markup} (h : Markup.AreWritten ms)
    (h' : Markup.AreWritten ms') : Markup.AreWritten (ms ++ ms') := by
  rw [Markup.areWritten_iff] at h h' ⊢
  intro m hm
  rcases List.mem_append.mp hm with hm | hm
  · exact h m hm
  · exact h' m hm

/-- The attribute that marks an element as nil. -/
theorem isWrittenTag_nil {name : String} (h : isNCName name) (isQualified : Bool) :
    Xml.IsWrittenTag (qualify isQualified name) [("xsi:nil", "true")] :=
  ⟨isWrittenName_qualify h isQualified, by simp; decide, by simp⟩

mutual

/-- The elements of a value can be read back. -/
theorem areWritten_ofValue (q q' : Bool) {name : String} (hname : isNCName name) (v : Json)
    (hv : v.Everywhere Json.HasNCNames) : Markup.AreWritten (ofValue q (qualify q' name) v) := by
  match v with
  | .null => exact ⟨isWrittenTag_nil hname q', trivial⟩
  | .bool _ => exact isWritten_textElement hname q' _
  | .whole _ => exact isWritten_textElement hname q' _
  | .real _ => exact isWritten_textElement hname q' _
  | .str _ => exact isWritten_textElement hname q' _
  | .arr items =>
    rw [ofValue]
    exact areWritten_ofItems q q' hname items hv.2
  | .obj members =>
    rw [ofValue]
    exact ⟨⟨isWrittenTag_qualify hname q', .inr (areWritten_ofMembers q members hv.1 hv.2)⟩,
      trivial⟩

/-- The elements of items can be read back. -/
theorem areWritten_ofItems (q q' : Bool) {name : String} (hname : isNCName name)
    (items : List Json) (h : Json.EverywhereInItems Json.HasNCNames items) :
    Markup.AreWritten (ofItems q (qualify q' name) items) := by
  match items with
  | [] => exact trivial
  | v :: rest =>
    exact areWritten_append (areWritten_ofValue q q' hname v h.1)
      (areWritten_ofItems q q' hname rest h.2)

/-- The elements of members can be read back. -/
theorem areWritten_ofMembers (q : Bool) (members : List (String × Json))
    (hnames : ∀ member ∈ members, isNCName member.1)
    (h : Json.EverywhereInMembers Json.HasNCNames members) :
    Markup.AreWritten (ofMembers q members) := by
  match members with
  | [] => exact trivial
  | (name, v) :: rest =>
    have hname : isNCName name := hnames (name, v) List.mem_cons_self
    have hrest : ∀ member ∈ rest, isNCName member.1 :=
      fun member hm => hnames member (List.mem_cons_of_mem _ hm)
    exact areWritten_append (areWritten_ofValue q q hname v h.1)
      (areWritten_ofMembers q rest hrest h.2)

end

/-! ## Elements inside of a request -/

/-- A scope inside of a request: the default namespace is not bound, the qualifier of the instance
namespace is, and so is that of the operation's namespace where there is one. -/
structure IsRequestScope (scope : Scope) (ns : Option String) : Prop where
  unqualified : scope.find? "" = none
  ofInstance : scope.find? "xsi" = some Xml.instanceNamespace
  ofOperation : ∀ n, ns = some n → scope.find? operationQualifier = some n

/-- The namespace of an element whose name is written qualified or not. -/
def namespaceOf (isQualified : Bool) (ns : Option String) : Option String :=
  if isQualified then ns else none

/-- An element of a request: it has a name that is written qualified or not (`q'`), and the elements
inside of it have names that are all written qualified or all not (`q`). -/
structure IsNamed (ns : Option String) (q q' : Bool) (name : String) (e : Element) : Prop where
  localName : e.localName = name
  namespaceName : e.namespaceName = namespaceOf q' ns
  inside : ∀ inner : Element, inner.Inside e → inner.namespaceName = namespaceOf q ns

/-- An element without children has none inside. -/
theorem not_inside_of_children_eq_nil {e inner : Element} (h : e.children = []) :
    ¬ inner.Inside e := by
  rintro (hchild | ⟨-, hchild⟩) <;> rw [h] at hchild <;> cases hchild

/-- Elements of which all names are written alike have such elements inside of them only. -/
theorem namespaceName_of_inside {ns : Option String} {q : Bool} {e inner : Element}
    (h : ∀ child ∈ e.children, ∃ name, IsNamed ns q q name child) (hinner : inner.Inside e) :
    inner.namespaceName = namespaceOf q ns := by
  cases hinner with
  | child hchild =>
    obtain ⟨name, hnamed⟩ := h inner hchild
    exact hnamed.namespaceName
  | deeper hinside hchild =>
    obtain ⟨name, hnamed⟩ := h _ hchild
    exact hnamed.inside inner hinside

section

variable {scope : Scope} {ns : Option String}

/-- Attributes that declare no namespace leave the scope as it is. -/
theorem enter_of_undeclared {attributes : List (String × String)}
    (h : ∀ a ∈ attributes, Scope.declared? a.1 = none) : scope.enter attributes = scope := by
  induction attributes with
  | nil => rfl
  | cons a rest ih =>
    have hrest : ∀ b ∈ rest, Scope.declared? b.1 = none :=
      fun b hb => h b (List.mem_cons_of_mem a hb)
    obtain ⟨name, value⟩ := a
    have hfirst : Scope.declared? name = none := h (name, value) List.mem_cons_self
    have hstep : scope.enter ((name, value) :: rest) = scope.enter rest := by
      simp only [Scope.enter, List.foldl_cons, hfirst]
    rw [hstep, ih hrest]

/-- Attributes that declare no namespace are all kept. -/
theorem filter_of_undeclared {attributes : List (String × String)}
    (h : ∀ a ∈ attributes, Scope.declared? a.1 = none) :
    (attributes.filter fun (a, _) => (Scope.declared? a).isNone) = attributes := by
  rw [List.filter_eq_self]
  intro a ha
  simp [h a ha]

/-- Attributes that declare namespaces are none of an element. -/
theorem filter_of_declared {attributes : List (String × String)}
    (h : ∀ a ∈ attributes, (Scope.declared? a.1).isSome) :
    (attributes.filter fun (a, _) => (Scope.declared? a).isNone) = [] := by
  rw [List.filter_eq_nil_iff]
  intro a ha hnone
  have hsome := h a ha
  rw [Option.isNone_iff_eq_none.mp hnone] at hsome
  cases hsome

/-- A tag inside of a request opens an element with the written name. -/
theorem ofTag_qualify (hscope : IsRequestScope scope ns) {isQualified : Bool}
    (hq : isQualified = true → ns.isSome = true) {name : String} (hname : isNCName name)
    {attributes : List (String × String)}
    (hattributes : ∀ a ∈ attributes, Scope.declared? a.1 = none) :
    Element.ofTag scope (qualify isQualified name) attributes =
      .ok ⟨namespaceOf isQualified ns, name, attributes, scope, [], ""⟩ := by
  have hothers := filter_of_undeclared hattributes
  cases isQualified with
  | false =>
    have hsplit : (splitName? (qualify false name)).getD ("", qualify false name) = ("", name) := by
      rw [show qualify false name = name from rfl, splitName?_of_isNCName hname]
      rfl
    simp [Element.ofTag, hsplit, enter_of_undeclared hattributes, hscope.unqualified, hothers,
      namespaceOf]
  | true =>
    obtain ⟨n, rfl⟩ := Option.isSome_iff_exists.mp (hq rfl)
    have hsplit : (splitName? (qualify true name)).getD ("", qualify true name) =
        (operationQualifier, name) := by
      rw [show qualify true name = operationQualifier ++ ":" ++ name from rfl,
        splitName?_qualified (by decide)]
      rfl
    simp [Element.ofTag, hsplit, enter_of_undeclared hattributes, hscope.ofOperation n rfl,
      hothers, namespaceOf]

/-- An element without attributes is not nil. -/
theorem isNil_bare (n : Option String) (name : String) (children : List Element) (text : String) :
    (Element.mk n name [] scope children text).isNil = false := rfl

/-- An element that is marked as nil inside of a request is nil. -/
theorem isNil_marked (hscope : IsRequestScope scope ns) (n : Option String) (name : String) :
    (Element.mk n name [("xsi:nil", "true")] scope [] "").isNil = true := by
  have hsplit : splitName? "xsi:nil" = some ("xsi", "nil") := by decide
  simp [Element.isNil, Element.attributeIn?, hsplit, hscope.ofInstance]

theorem childValues_eq_map (es : List Element) :
    childValues es = es.map fun e => (e.localName, e.value) := by
  induction es with
  | nil => rfl
  | cons e es ih => rw [childValues, ih, List.map_cons]

theorem childValues_append (es es' : List Element) :
    childValues (es ++ es') = childValues es ++ childValues es' := by
  rw [childValues_eq_map, List.map_append, ← childValues_eq_map, ← childValues_eq_map]

/-- Elements of one name have their values under it. -/
theorem childValues_of_isNamed {q q' : Bool} {name : String} {es : List Element}
    (h : ∀ e ∈ es, IsNamed ns q q' name e) :
    childValues es = (es.map Element.value).map (name, ·) := by
  rw [childValues_eq_map, List.map_map]
  apply List.map_congr_left
  intro e he
  rw [(h e he).localName]
  rfl

/-- An element with children that is not nil is read as their values. -/
theorem value_of_children (n : Option String) (name : String) (es : List Element) :
    (Element.mk n name [] scope es "").value = ofOccurrences (childValues es) := by
  cases es with
  | nil =>
    rw [Element.value, isNil_bare]
    rfl
  | cons e es =>
    rw [Element.value, isNil_bare]
    rfl

/-- A text element stands for its text. -/
theorem exists_buildAll_textElement (hscope : IsRequestScope scope ns) {q q' : Bool}
    (hq' : q' = true → ns.isSome = true) {name : String} (hname : isNCName name) (text : String) :
    ∃ es, Markup.buildAll scope (textElement (qualify q' name) text) = .ok es ∧
      (∀ e ∈ es, IsNamed ns q q' name e) ∧ es.map Element.value = [.str text] := by
  have htag := ofTag_qualify hscope hq' hname (List.forall_mem_nil _)
  refine ⟨_, Markup.buildAll_singleton (Markup.build_text htag), ?_, ?_⟩
  · rw [List.forall_mem_singleton]
    exact ⟨rfl, rfl, fun _ hinner => absurd hinner (not_inside_of_children_eq_nil rfl)⟩
  · rw [List.map_singleton, Element.value, isNil_bare]
    rfl

mutual

/-- The elements of a value are read as its occurrences. -/
theorem exists_buildAll_ofValue (hscope : IsRequestScope scope ns) {q q' : Bool}
    (hq : q = true → ns.isSome = true) (hq' : q' = true → ns.isSome = true) {name : String}
    (hname : isNCName name) (v : Json) (hv : v.Everywhere Json.HasNCNames) :
    ∃ es, Markup.buildAll scope (ofValue q (qualify q' name) v) = .ok es ∧
      (∀ e ∈ es, IsNamed ns q q' name e) ∧
      es.map Element.value = occurrences v := by
  match v with
  | .null =>
    -- the mark is no declaration, so it stays with the element
    have hnil : ∀ a ∈ [("xsi:nil", "true")], Scope.declared? a.1 = none := by simp; decide
    have htag := ofTag_qualify hscope hq' hname hnil
    refine ⟨_, Markup.buildAll_singleton htag, ?_, ?_⟩
    · rw [List.forall_mem_singleton]
      exact ⟨rfl, rfl, fun _ hinner => absurd hinner (not_inside_of_children_eq_nil rfl)⟩
    · rw [List.map_singleton, Element.value, isNil_marked hscope]
      rfl
  | .bool _ => exact exists_buildAll_textElement hscope hq' hname _
  | .whole _ => exact exists_buildAll_textElement hscope hq' hname _
  | .real _ => exact exists_buildAll_textElement hscope hq' hname _
  | .str _ => exact exists_buildAll_textElement hscope hq' hname _
  | .arr items =>
    -- the items take the name of the array, which has no element of its own
    rw [ofValue, occurrences]
    exact exists_buildAll_ofItems hscope hq hq' hname items hv.2
  | .obj members =>
    have htag := ofTag_qualify hscope hq' hname (List.forall_mem_nil _)
    obtain ⟨es, hes, hnamed, hvalues⟩ := exists_buildAll_ofMembers hscope hq members hv.1 hv.2
    refine ⟨_, Markup.buildAll_singleton (Markup.build_element htag hes), ?_, ?_⟩
    · rw [List.forall_mem_singleton]
      exact ⟨rfl, rfl, fun _ hinner => namespaceName_of_inside hnamed hinner⟩
    · rw [List.map_singleton, value_of_children, hvalues, occurrences]

/-- The elements of items are read as the occurrences of the items. -/
theorem exists_buildAll_ofItems (hscope : IsRequestScope scope ns) {q q' : Bool}
    (hq : q = true → ns.isSome = true) (hq' : q' = true → ns.isSome = true) {name : String}
    (hname : isNCName name) (items : List Json)
    (h : Json.EverywhereInItems Json.HasNCNames items) :
    ∃ es, Markup.buildAll scope (ofItems q (qualify q' name) items) = .ok es ∧
      (∀ e ∈ es, IsNamed ns q q' name e) ∧
      es.map Element.value = itemOccurrences items := by
  match items with
  | [] => exact ⟨[], rfl, by simp, rfl⟩
  | v :: rest =>
    obtain ⟨es, hes, hnames, hvalues⟩ := exists_buildAll_ofValue hscope hq hq' hname v h.1
    obtain ⟨es', hes', hnames', hvalues'⟩ :=
      exists_buildAll_ofItems hscope hq hq' hname rest h.2
    refine ⟨es ++ es', Markup.buildAll_append hes hes', ?_, ?_⟩
    · intro e he
      exact (List.mem_append.mp he).elim (hnames e) (hnames' e)
    · rw [List.map_append, hvalues, hvalues', itemOccurrences]

/-- The elements of members are read as the occurrences of the members under their names. -/
theorem exists_buildAll_ofMembers (hscope : IsRequestScope scope ns) {q : Bool}
    (hq : q = true → ns.isSome = true) (members : List (String × Json))
    (hmembers : ∀ member ∈ members, isNCName member.1)
    (h : Json.EverywhereInMembers Json.HasNCNames members) :
    ∃ es, Markup.buildAll scope (ofMembers q members) = .ok es ∧
      (∀ e ∈ es, ∃ name, IsNamed ns q q name e) ∧
      childValues es = memberOccurrences members := by
  match members with
  | [] => exact ⟨[], rfl, by simp, rfl⟩
  | (name, v) :: rest =>
    have hname : isNCName name := hmembers (name, v) List.mem_cons_self
    have hrest : ∀ member ∈ rest, isNCName member.1 :=
      fun member hm => hmembers member (List.mem_cons_of_mem _ hm)
    obtain ⟨es, hes, hnames, hvalues⟩ := exists_buildAll_ofValue hscope hq hq hname v h.1
    obtain ⟨es', hes', hnames', hvalues'⟩ := exists_buildAll_ofMembers hscope hq rest hrest h.2
    refine ⟨es ++ es', Markup.buildAll_append hes hes', ?_, ?_⟩
    · intro e he
      exact (List.mem_append.mp he).elim (fun h => ⟨name, hnames e h⟩) (hnames' e)
    · rw [childValues_append, childValues_of_isNamed hnames, hvalues, hvalues', memberOccurrences]

end

end

end SoapClient.Envelope
