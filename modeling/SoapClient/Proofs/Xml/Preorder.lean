import SoapClient.Proofs.Xml.Nesting

/-!
# The tree in document order

The elements of a tree, each before those inside of it, are compared with the tags of the document
as they are written. Main statement: a scan has a root exactly where its events are those of one
element and every qualifier is bound, and the elements of the root are then the start and empty
tags in their order, each at its depth, with its attributes and with the character data that stands
directly inside of it (`ofScan_isDocument`).
-/

namespace SoapClient.Xml

open Node

/-! ## What a tree consists of -/

mutual

/-- The elements of a tree, each before those inside of it, with the number of elements around it
and without its children. -/
def Element.walk (depth : Nat) : Element → List (Nat × Element)
  | ⟨namespaceName, localName, attributes, scope, children, text⟩ =>
    (depth, ⟨namespaceName, localName, attributes, scope, [], text⟩) ::
      Element.walkAll (depth + 1) children

/-- The elements of trees one after the other. -/
def Element.walkAll (depth : Nat) : List Element → List (Nat × Element)
  | [] => []
  | e :: rest => e.walk depth ++ Element.walkAll depth rest

end

theorem Element.walk_eq (depth : Nat) (e : Element) :
    e.walk depth = (depth, { e with children := [] }) :: walkAll (depth + 1) e.children := by
  cases e
  rw [walk]

theorem Element.walkAll_append (depth : Nat) (es es' : List Element) :
    walkAll depth (es ++ es') = walkAll depth es ++ walkAll depth es' := by
  induction es with
  | nil => rfl
  | cons e rest ih => rw [List.cons_append, walkAll, walkAll, ih, List.append_assoc]

theorem Element.walkAll_singleton (depth : Nat) (e : Element) :
    walkAll depth [e] = e.walk depth := by
  rw [walkAll, walkAll, List.append_nil]

/-! ## What a document consists of -/

/-- The character data directly inside of an element, read off the events behind its tag. What
stands in the elements that opened since then, so many as `depth`, does not belong to it. -/
def textBehind : Nat → List Event → String
  | _, [] => ""
  | depth, .startTag _ _ :: rest => textBehind (depth + 1) rest
  | depth, .emptyTag _ _ :: rest => textBehind depth rest
  | depth, .endTag _ :: rest => if depth = 0 then "" else textBehind (depth - 1) rest
  | depth, .text content :: rest => (if depth = 0 then content else "") ++ textBehind depth rest
  | depth, .cdata content :: rest => (if depth = 0 then content else "") ++ textBehind depth rest
  | depth, .skipped :: rest => textBehind depth rest

/-- Whether another tag is opened before an element is closed, read off the events behind its
tag. -/
def hasTagBehind : List Event → Bool
  | [] => false
  | .startTag _ _ :: _ => true
  | .emptyTag _ _ :: _ => true
  | .endTag _ :: _ => false
  | .text _ :: rest => hasTagBehind rest
  | .cdata _ :: rest => hasTagBehind rest
  | .skipped :: rest => hasTagBehind rest

/-- A start or empty tag in a document. -/
structure Place where
  /-- The scopes of the elements around the tag, the innermost first. -/
  around : List Scope
  name : String
  attributes : List (String × String)
  /-- The events behind a start tag, none for an empty tag. -/
  behind : List Event

/-- The scope inside of the innermost element. -/
def innermost (around : List Scope) : Scope := around.headD Scope.outermost

/-- The start and empty tags among events, in the order in which they are written. -/
def tagsOf : List Scope → List Event → List Place
  | _, [] => []
  | around, .startTag name attributes :: rest =>
    ⟨around, name, attributes, rest⟩ ::
      tagsOf ((innermost around).enter attributes :: around) rest
  | around, .emptyTag name attributes :: rest =>
    ⟨around, name, attributes, []⟩ :: tagsOf around rest
  | around, .endTag _ :: rest => tagsOf around.tail rest
  | around, .text _ :: rest => tagsOf around rest
  | around, .cdata _ :: rest => tagsOf around rest
  | around, .skipped :: rest => tagsOf around rest

namespace Place

/-- The qualifier of the tag is bound. -/
def IsBound (p : Place) : Prop := IsBoundTag (innermost p.around) p.name p.attributes

/-- The character data directly inside of the element. Where other elements are inside of it too,
text of blanks alone is dropped. -/
def text (p : Place) : String :=
  if hasTagBehind p.behind ∧ Text.isBlankText (textBehind 0 p.behind) then ""
  else textBehind 0 p.behind

/-- The number of elements around the tag, and the element that it opens, without children. -/
def visit (p : Place) : Nat × Element :=
  (p.around.length,
    { Element.tagged (innermost p.around) p.name p.attributes with text := p.text })

end Place

/-! ## The events of nodes -/

mutual

/-- What stands inside of other elements is not directly inside of an element. -/
theorem textBehind_succ_node (node : Node) (depth : Nat) (rest : List Event) :
    textBehind (depth + 1) (node.events ++ rest) = textBehind (depth + 1) rest := by
  match node with
  | .element name attributes content =>
    -- the tag goes one level down, and its end tag comes back up
    simp only [events, List.cons_append, List.append_assoc, textBehind]
    rw [textBehind_succ_nodes content (depth + 1), List.nil_append, textBehind]
    simp
  | .empty name attributes => rfl
  | .text content => simp [events, textBehind]
  | .cdata content => simp [events, textBehind]
  | .skipped => rfl

theorem textBehind_succ_nodes (content : List Node) (depth : Nat) (rest : List Event) :
    textBehind (depth + 1) (eventsOf content ++ rest) = textBehind (depth + 1) rest := by
  match content with
  | [] => rfl
  | node :: content =>
    rw [eventsOf, List.append_assoc, textBehind_succ_node node, textBehind_succ_nodes content]

end

/-- A node adds its own character data to that of the element around it. -/
theorem textBehind_node (node : Node) (rest : List Event) :
    textBehind 0 (node.events ++ rest) = node.ownText ++ textBehind 0 rest := by
  cases node with
  | element name attributes content =>
    simp only [events, List.cons_append, List.append_assoc, textBehind, textBehind_succ_nodes]
    simp [ownText]
  | empty name attributes => simp [events, textBehind, ownText]
  | text content => simp [events, textBehind, ownText]
  | cdata content => simp [events, textBehind, ownText]
  | skipped => simp [events, textBehind, ownText]

/-- The character data of an element is that directly among its content. -/
theorem textBehind_content (content : List Node) (name : String) (rest : List Event) :
    textBehind 0 (eventsOf content ++ .endTag name :: rest) = textOf content := by
  induction content with
  | nil => rfl
  | cons node content ih => rw [eventsOf, List.append_assoc, textBehind_node, ih, textOf]

/-- A tag comes before the end of an element exactly where there is an element in its content. -/
theorem hasTagBehind_content (content : List Node) (name : String) (rest : List Event)
    (outer : Scope) :
    hasTagBehind (eventsOf content ++ .endTag name :: rest) = true ↔
      (elementsOf outer content).reverse ≠ [] := by
  induction content with
  | nil => simp [eventsOf, hasTagBehind, elementsOf]
  | cons node content ih =>
    cases node with
    | element name attributes inner => simp [eventsOf, events, hasTagBehind, elementsOf, elements]
    | empty name attributes => simp [eventsOf, events, hasTagBehind, elementsOf, elements]
    | text content => simpa [eventsOf, events, hasTagBehind, elementsOf, elements] using ih
    | cdata content => simpa [eventsOf, events, hasTagBehind, elementsOf, elements] using ih
    | skipped => simpa [eventsOf, events, hasTagBehind, elementsOf, elements] using ih

/-- An element has the text that its place tells. -/
theorem visit_element (around : List Scope) (name : String) (attributes : List (String × String))
    (content : List Node) (rest : List Event) :
    Place.visit ⟨around, name, attributes, eventsOf content ++ .endTag name :: rest⟩ =
      (around.length, { (OpenElement.mk name (Element.tagged (innermost around) name attributes)
        (elementsOf ((innermost around).enter attributes) content).reverse
        (textOf content)).close with children := [] }) := by
  have htag := hasTagBehind_content content name rest ((innermost around).enter attributes)
  simp only [Place.visit, Place.text, textBehind_content, htag]
  rfl

/-! ## The tags of nodes -/

mutual

/-- The tags of a node, and those behind it, are bound where the node is and they are. -/
theorem forall_isBound_node (node : Node) (around : List Scope) (rest : List Event) :
    (∀ p ∈ tagsOf around (node.events ++ rest), p.IsBound) ↔
      node.IsBound (innermost around) ∧ ∀ p ∈ tagsOf around rest, p.IsBound := by
  match node with
  | .element name attributes content =>
    simp only [events, List.cons_append, List.append_assoc, tagsOf, List.forall_mem_cons]
    rw [forall_isBound_nodes content, List.nil_append, tagsOf, List.tail_cons, ← and_assoc]
    rfl
  | .empty name attributes =>
    simp only [events, List.cons_append, List.nil_append, tagsOf, List.forall_mem_cons]
    rfl
  | .text content => exact (and_iff_right trivial).symm
  | .cdata content => exact (and_iff_right trivial).symm
  | .skipped => exact (and_iff_right trivial).symm

theorem forall_isBound_nodes (content : List Node) (around : List Scope) (rest : List Event) :
    (∀ p ∈ tagsOf around (eventsOf content ++ rest), p.IsBound) ↔
      AreBound (innermost around) content ∧ ∀ p ∈ tagsOf around rest, p.IsBound := by
  match content with
  | [] => exact (and_iff_right trivial).symm
  | node :: content =>
    rw [eventsOf, List.append_assoc, forall_isBound_node node, forall_isBound_nodes content,
      ← and_assoc]
    rfl

end

mutual

/-- The tags of a node are the elements that it consists of. -/
theorem map_visit_node (node : Node) (around : List Scope) (rest : List Event) :
    (tagsOf around (node.events ++ rest)).map Place.visit =
      Element.walkAll around.length (node.elements (innermost around)) ++
        (tagsOf around rest).map Place.visit := by
  match node with
  | .element name attributes content =>
    -- the content is visited one level down; its end tag takes the scope away again
    simp only [events, List.cons_append, List.append_assoc, tagsOf, List.map_cons, List.nil_append]
    rw [map_visit_nodes content, visit_element, elements, Element.walkAll_singleton,
      Element.walk_eq, tagsOf, List.tail_cons]
    simp [OpenElement.close, innermost]
  | .empty name attributes =>
    simp only [events, List.cons_append, List.nil_append, tagsOf, List.map_cons, elements,
      Element.walkAll_singleton, Element.walk_eq]
    rfl
  | .text content => rfl
  | .cdata content => rfl
  | .skipped => rfl

theorem map_visit_nodes (content : List Node) (around : List Scope) (rest : List Event) :
    (tagsOf around (eventsOf content ++ rest)).map Place.visit =
      Element.walkAll around.length (elementsOf (innermost around) content) ++
        (tagsOf around rest).map Place.visit := by
  match content with
  | [] => rfl
  | node :: content =>
    rw [eventsOf, List.append_assoc, map_visit_node node, map_visit_nodes content, elementsOf,
      Element.walkAll_append, List.append_assoc]

end

/-- There are no tags outside of the root. -/
theorem tagsOf_append_of_areOutside {before : List Event}
    (h : ∀ event ∈ before, event.IsOutside) (around : List Scope) (rest : List Event) :
    tagsOf around (before ++ rest) = tagsOf around rest := by
  induction before with
  | nil => rfl
  | cons event before ih =>
    rw [List.forall_mem_cons] at h
    cases event with
    | startTag name attributes => exact h.1.elim
    | emptyTag name attributes => exact h.1.elim
    | endTag name => exact h.1.elim
    | text content => exact ih h.2
    | cdata content => exact ih h.2
    | skipped => exact ih h.2

theorem tagsOf_of_areOutside {after : List Event} (h : ∀ event ∈ after, event.IsOutside)
    (around : List Scope) : tagsOf around after = [] := by
  have hafter := tagsOf_append_of_areOutside h around []
  rwa [List.append_nil, tagsOf] at hafter

/-- The qualifiers of a document are bound where those of its root are. -/
theorem forall_isBound_document {before after : List Event} {root : Node}
    (hbefore : ∀ event ∈ before, event.IsOutside) (hafter : ∀ event ∈ after, event.IsOutside) :
    (∀ p ∈ tagsOf [] (before ++ root.events ++ after), p.IsBound) ↔
      root.IsBound Scope.outermost := by
  rw [List.append_assoc, tagsOf_append_of_areOutside hbefore, forall_isBound_node,
    tagsOf_of_areOutside hafter]
  exact and_iff_left (List.forall_mem_nil Place.IsBound)

/-- The tags of a document are the elements of its root. -/
theorem map_visit_document {before after : List Event} {root : Node} {e : Element}
    (hbefore : ∀ event ∈ before, event.IsOutside) (hafter : ∀ event ∈ after, event.IsOutside)
    (he : root.elements Scope.outermost = [e]) :
    (tagsOf [] (before ++ root.events ++ after)).map Place.visit = e.walk 0 := by
  rw [List.append_assoc, tagsOf_append_of_areOutside hbefore, map_visit_node,
    tagsOf_of_areOutside hafter, List.map_nil, List.append_nil]
  exact he ▸ Element.walkAll_singleton 0 e

/-- A node that is an element has one. -/
theorem Node.exists_elements_eq {node : Node} (h : node.IsElement) (outer : Scope) :
    ∃ e, node.elements outer = [e] := by
  cases node with
  | element name attributes content => exact ⟨_, rfl⟩
  | empty name attributes => exact ⟨_, rfl⟩
  | text content => exact h.elim
  | cdata content => exact h.elim
  | skipped => exact h.elim

/-- Only a node that is an element has one. -/
theorem Node.isElement_of_elements_eq {node : Node} {outer : Scope} {e : Element}
    (h : node.elements outer = [e]) : node.IsElement := by
  cases node with
  | element name attributes content => trivial
  | empty name attributes => trivial
  | text content => cases h
  | cdata content => cases h
  | skipped => cases h

/-- A scan has a root exactly where it reached its end, its events are those of one element with
nothing around it but blank character data and what is skipped, and the qualifiers of all tags are
bound. The elements of the root are then the start and empty tags in the order in which they are
written, each with the number of elements around it, its attributes without the declarations of
namespaces, and the character data that is directly inside of it. -/
theorem ofScan_isDocument (s : Scan) :
    ((∃ root, Element.ofScan s = .ok root) ↔
      s.isComplete = true ∧ IsDocument Event.IsOutside s.events ∧
        ∀ p ∈ tagsOf [] s.events, p.IsBound) ∧
    ∀ root, Element.ofScan s = .ok root → root.walk 0 = (tagsOf [] s.events).map Place.visit := by
  obtain ⟨events, isComplete⟩ := s
  simp only [Element.ofScan_eq_ok_iff, Element.ofEvents_eq_ok_iff]
  refine ⟨⟨?_, ?_⟩, ?_⟩
  · rintro ⟨e, hcomplete, before, root, after, hbefore, hafter, hbound, he, rfl⟩
    have hdocument : IsDocument Event.IsOutside (before ++ root.events ++ after) :=
      ⟨before, root, after, hbefore, hafter, isElement_of_elements_eq he, rfl⟩
    exact ⟨hcomplete, hdocument, (forall_isBound_document hbefore hafter).mpr hbound⟩
  · rintro ⟨hcomplete, ⟨before, root, after, hbefore, hafter, helement, rfl⟩, hplaces⟩
    have hbound := (forall_isBound_document hbefore hafter).mp hplaces
    obtain ⟨e, he⟩ := exists_elements_eq helement Scope.outermost
    exact ⟨e, hcomplete, before, root, after, hbefore, hafter, hbound, he, rfl⟩
  · rintro e ⟨-, before, root, after, hbefore, hafter, -, he, rfl⟩
    exact (map_visit_document hbefore hafter he).symm

/-- An item with its price and a note. -/
def priceScan : Scan where
  events := [.skipped, .text " ",
    .startTag "p:item" [("xmlns:p", "urn:p"), ("unit", "EUR")], .text " ",
    .startTag "p:price" [("p:net", "1")], .text "12", .cdata " ", .endTag "p:price",
    .emptyTag "note" [], .text " ", .endTag "p:item", .skipped]
  isComplete := true

/-- What is declared inside of the item. -/
def priceScope : Scope := [("p", "urn:p"), ("xml", "http://www.w3.org/XML/1998/namespace")]

/-- The text of the price is kept with its blank, the blanks around the elements are dropped. -/
theorem ofScan_isDocument_price :
    ∃ root, Element.ofScan priceScan = .ok root ∧ root.walk 0 =
      [(0, ⟨some "urn:p", "item", [("unit", "EUR")], priceScope, [], ""⟩),
       (1, ⟨some "urn:p", "price", [("p:net", "1")], priceScope, [], "12 "⟩),
       (1, ⟨none, "note", [], priceScope, [], ""⟩)] := by
  refine ⟨_, rfl, ?_⟩
  rw [(ofScan_isDocument priceScan).2 _ rfl]
  rfl

/-- A blank `CDATA` section in front of the root is accepted, though it is no white space in running
text. -/
theorem ofScan_cdata_outside :
    (∃ root, Element.ofScan ⟨[.cdata " ", .emptyTag "a" []], true⟩ = .ok root) ∧
      ¬ IsDocument Event.IsMisc [.cdata " ", .emptyTag "a" []] := by
  refine ⟨⟨_, rfl⟩, ?_⟩
  rintro ⟨before, root, after, hbefore, -, helement, hevents⟩
  cases before with
  | nil =>
    cases root with
    | element name attributes content => cases hevents
    | empty name attributes => cases hevents
    | text content => exact helement
    | cdata content => exact helement
    | skipped => exact helement
  | cons event before =>
    obtain ⟨rfl, -⟩ := List.cons.inj hevents
    exact hbefore _ List.mem_cons_self

end SoapClient.Xml
