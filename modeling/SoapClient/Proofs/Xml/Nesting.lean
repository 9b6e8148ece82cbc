import SoapClient.Proofs.Xml.Tree

/-!
# Events that make a tree

The events of a document are read one after the other, with the open elements on a stack. Main
statement: there is a root element in the end exactly where the events are those of one balanced
element, with nothing outside of it but blank character data and what is skipped, and where all
qualifiers are bound; the root is then the tree of this element (`ofEvents_eq_ok_iff`).
-/

namespace SoapClient.Xml

open Outcome

/-! ## Nodes -/

/-- A piece of a document: an element with the nodes inside it, or what stands beside elements. -/
inductive Node where
  | element (name : String) (attributes : List (String × String)) (content : List Node)
  /-- An element that is written as a single tag. -/
  | empty (name : String) (attributes : List (String × String))
  | text (content : String)
  | cdata (content : String)
  | skipped

namespace Node

/-- Whether a node is an element. -/
def IsElement : Node → Prop
  | element _ _ _ => True
  | empty _ _ => True
  | _ => False

/-- The character data that a node adds to the element around it. -/
def ownText : Node → String
  | text content => content
  | cdata content => content
  | _ => ""

/-- The character data directly among some nodes, in order. -/
def textOf : List Node → String
  | [] => ""
  | node :: rest => node.ownText ++ textOf rest

mutual

/-- The events of a node. -/
def events : Node → List Event
  | element name attributes content =>
    .startTag name attributes :: (eventsOf content ++ [.endTag name])
  | empty name attributes => [.emptyTag name attributes]
  | text content => [.text content]
  | cdata content => [.cdata content]
  | skipped => [.skipped]

/-- The events of nodes one after the other. -/
def eventsOf : List Node → List Event
  | [] => []
  | node :: rest => node.events ++ eventsOf rest

end

mutual

/-- All qualifiers in a node are bound. -/
def IsBound (outer : Scope) : Node → Prop
  | element name attributes content =>
    IsBoundTag outer name attributes ∧ AreBound (outer.enter attributes) content
  | empty name attributes => IsBoundTag outer name attributes
  | _ => True

/-- All qualifiers in some nodes are bound. -/
def AreBound (outer : Scope) : List Node → Prop
  | [] => True
  | node :: rest => node.IsBound outer ∧ AreBound outer rest

end

mutual

/-- The element that a node is, none for other nodes. -/
def elements (outer : Scope) : Node → List Element
  | element name attributes content =>
    [(OpenElement.mk name (Element.tagged outer name attributes)
      (elementsOf (outer.enter attributes) content).reverse (textOf content)).close]
  | empty name attributes => [Element.tagged outer name attributes]
  | _ => []

/-- The elements directly among some nodes, in order. -/
def elementsOf (outer : Scope) : List Node → List Element
  | [] => []
  | node :: rest => node.elements outer ++ elementsOf outer rest

end

theorem eventsOf_append (content content' : List Node) :
    eventsOf (content ++ content') = eventsOf content ++ eventsOf content' := by
  induction content with
  | nil => rfl
  | cons node rest ih => rw [List.cons_append, eventsOf, eventsOf, ih, List.append_assoc]

theorem elementsOf_append (outer : Scope) (content content' : List Node) :
    elementsOf outer (content ++ content') =
      elementsOf outer content ++ elementsOf outer content' := by
  induction content with
  | nil => rfl
  | cons node rest ih => rw [List.cons_append, elementsOf, elementsOf, ih, List.append_assoc]

theorem textOf_append (content content' : List Node) :
    textOf (content ++ content') = textOf content ++ textOf content' := by
  induction content with
  | nil => simp [textOf]
  | cons node rest ih => rw [List.cons_append, textOf, textOf, ih, String.append_assoc]

theorem areBound_append {outer : Scope} {content content' : List Node} :
    AreBound outer (content ++ content') ↔
      AreBound outer content ∧ AreBound outer content' := by
  induction content with
  | nil => simp [AreBound]
  | cons node rest ih => rw [List.cons_append, AreBound, AreBound, ih, and_assoc]

end Node

open Node PartialDocument

/-! ## Nodes are read as what they stand for -/

/-- An element whose tag was just read. -/
def OpenElement.tagged (outer : Scope) (name : String) (attributes : List (String × String)) :
    OpenElement :=
  ⟨name, Element.tagged outer name attributes, [], ""⟩

/-- An open element after some nodes more are read in it. -/
def OpenElement.add (o : OpenElement) (content : List Node) : OpenElement :=
  ⟨o.written, o.tag, (elementsOf o.tag.scope content).reverse ++ o.children,
    o.text ++ textOf content⟩

theorem OpenElement.add_nil (o : OpenElement) : o.add [] = o := by
  simp [OpenElement.add, elementsOf, textOf]

theorem OpenElement.add_append (o : OpenElement) (content content' : List Node) :
    o.add (content ++ content') = (o.add content).add content' := by
  simp [OpenElement.add, elementsOf_append, textOf_append, String.append_assoc]

/-- A node that is an element becomes the latest child. -/
theorem OpenElement.add_element {o : OpenElement} {node : Node} {e : Element}
    (he : node.elements o.tag.scope = [e]) (hown : node.ownText = "") :
    o.add [node] = { o with children := e :: o.children } := by
  simp [OpenElement.add, elementsOf, he, textOf, hown]

/-- An element is what its tag opens, closed behind the content. -/
theorem Node.elements_element (outer : Scope) (name : String) (attributes : List (String × String))
    (content : List Node) : (Node.element name attributes content).elements outer =
      [((OpenElement.tagged outer name attributes).add content).close] := by
  simp [elements, OpenElement.add, OpenElement.tagged, Element.tagged]

/-- The tag of an element without content puts it into its place. -/
theorem PartialDocument.step_emptyTag {d : PartialDocument} {name : String}
    {attributes : List (String × String)} {tag : Element}
    (h : Element.ofTag d.scope name attributes = .ok tag) :
    d.step (.emptyTag name attributes) = d.attach tag := by
  rw [step, h, ok_bind]

/-- An element is put into its place once its content is read. -/
theorem foldlM_events_element {name : String} {attributes : List (String × String)}
    {content : List Node} {d : PartialDocument} (hopen : d.IsOpen)
    (htag : IsBoundTag d.scope name attributes)
    (hcontent : (eventsOf content).foldlM PartialDocument.step
        ⟨OpenElement.tagged d.scope name attributes :: d.stack, d.root⟩ =
      .ok ⟨(OpenElement.tagged d.scope name attributes).add content :: d.stack, d.root⟩) :
    (Node.element name attributes content).events.foldlM PartialDocument.step d =
      d.attach ((OpenElement.tagged d.scope name attributes).add content).close := by
  -- the tag opens the element, its content is read inside of it, and the end tag closes it
  have hof := Element.ofTag_eq_ok_iff.mpr ⟨htag, rfl⟩
  rw [OpenElement.tagged] at hcontent ⊢
  rw [events, List.foldlM_cons, step_startTag hopen hof, ok_bind, List.foldlM_append, hcontent,
    ok_bind]
  simp only [List.foldlM_cons, List.foldlM_nil, bind_pure, OpenElement.add, step_endTag]

mutual

/-- Reading a node inside of an open element adds it to that. -/
theorem foldlM_events_node (node : Node) (o : OpenElement) (outer : List OpenElement)
    (root : Option Element) (h : node.IsBound o.tag.scope) :
    node.events.foldlM PartialDocument.step ⟨o :: outer, root⟩ =
      .ok ⟨o.add [node] :: outer, root⟩ := by
  have hopen : IsOpen ⟨o :: outer, root⟩ := fun h => absurd h (List.cons_ne_nil o outer)
  match node with
  | .element name attributes content =>
    obtain ⟨htag, hcontent⟩ := h
    have hread := foldlM_events_nodes content (.tagged o.tag.scope name attributes) (o :: outer)
      root hcontent
    have helement := Node.elements_element o.tag.scope name attributes content
    rw [foldlM_events_element hopen htag hread, attach_cons, OpenElement.add_element helement rfl]
    rfl
  | .empty name attributes =>
    have hof : Element.ofTag (PartialDocument.scope ⟨o :: outer, root⟩) name attributes =
        .ok (Element.tagged o.tag.scope name attributes) := Element.ofTag_eq_ok_iff.mpr ⟨h, rfl⟩
    simp only [events, List.foldlM_cons, List.foldlM_nil, bind_pure]
    rw [step_emptyTag hof, attach_cons, OpenElement.add_element rfl rfl]
  | .text content =>
    simp [events, step, addText, OpenElement.add, elementsOf, elements, textOf, ownText]
  | .cdata content =>
    simp [events, step, addText, OpenElement.add, elementsOf, elements, textOf, ownText]
  | .skipped => simp [events, step, OpenElement.add, elementsOf, elements, textOf, ownText]

/-- Reading nodes inside of an open element adds them to that. -/
theorem foldlM_events_nodes (content : List Node) (o : OpenElement) (outer : List OpenElement)
    (root : Option Element) (h : AreBound o.tag.scope content) :
    (eventsOf content).foldlM PartialDocument.step ⟨o :: outer, root⟩ =
      .ok ⟨o.add content :: outer, root⟩ := by
  match content with
  | [] => simp [eventsOf, OpenElement.add, elementsOf, textOf]; rfl
  | node :: rest =>
    rw [eventsOf, List.foldlM_append, foldlM_events_node node o outer root h.1, ok_bind,
      foldlM_events_nodes rest (o.add [node]) outer root h.2, ← OpenElement.add_append,
      List.singleton_append]

end

/-- Reading an element where no other one is open makes it the root. -/
theorem foldlM_events_root {root : Node} {e : Element} (hbound : root.IsBound Scope.outermost)
    (he : root.elements Scope.outermost = [e]) :
    root.events.foldlM PartialDocument.step PartialDocument.start = .ok ⟨[], some e⟩ := by
  have hopen : PartialDocument.start.IsOpen := fun _ => rfl
  cases root with
  | element name attributes content =>
    have hread := foldlM_events_nodes content (.tagged Scope.outermost name attributes) [] none
      hbound.2
    rw [Node.elements_element] at he
    obtain rfl := List.singleton_inj.mp he
    exact foldlM_events_element hopen hbound.1 hread
  | empty name attributes =>
    have hof : Element.ofTag PartialDocument.start.scope name attributes = .ok e :=
      Element.ofTag_eq_ok_iff.mpr ⟨hbound, (List.singleton_inj.mp he).symm⟩
    simp only [events, List.foldlM_cons, List.foldlM_nil, bind_pure]
    exact step_emptyTag hof
  | text content => cases he
  | cdata content => cases he
  | skipped => cases he

/-! ## What stands around the root -/

/-- White space in running text, or what is skipped. -/
def Event.IsMisc : Event → Prop
  | .text content => Text.isBlankText content
  | .skipped => True
  | _ => False

/-- What is accepted outside of the root: a `CDATA` section counts as running text there. -/
def Event.IsOutside : Event → Prop
  | .cdata content => Text.isBlankText content
  | event => event.IsMisc

/-- The events of one element, with such events around it as are told. -/
def IsDocument (Around : Event → Prop) (events : List Event) : Prop :=
  ∃ (before : List Event) (root : Node) (after : List Event),
    (∀ event ∈ before, Around event) ∧ (∀ event ∈ after, Around event) ∧ root.IsElement ∧
      events = before ++ root.events ++ after

/-- Nothing comes of what stands outside of the root. -/
theorem PartialDocument.step_of_isOutside {event : Event} (h : event.IsOutside)
    (root : Option Element) : step ⟨[], root⟩ event = .ok ⟨[], root⟩ := by
  cases event with
  | startTag name attributes => exact h.elim
  | emptyTag name attributes => exact h.elim
  | endTag name => exact h.elim
  | text content => exact if_pos h
  | cdata content => exact if_pos h
  | skipped => rfl

theorem foldlM_of_areOutside {around : List Event} (h : ∀ event ∈ around, event.IsOutside)
    (root : Option Element) :
    around.foldlM PartialDocument.step ⟨[], root⟩ = .ok ⟨[], root⟩ := by
  induction around with
  | nil => rfl
  | cons event rest ih =>
    rw [List.forall_mem_cons] at h
    rw [List.foldlM_cons, step_of_isOutside h.1, ok_bind, ih h.2]

/-- Character data where no element is open has to stand outside of the root. -/
theorem PartialDocument.addText_eq_ok {root : Option Element} {content : String}
    {d : PartialDocument} (h : addText ⟨[], root⟩ content = .ok d) :
    Text.isBlankText content ∧ d = ⟨[], root⟩ := by
  simp only [addText] at h
  split at h
  · exact ⟨‹_›, (Except.ok.inj h).symm⟩
  · cases h

/-- An end tag is read where it closes the innermost open element. -/
theorem PartialDocument.step_endTag_eq_ok {o : OpenElement} {outer : List OpenElement}
    {root : Option Element} {name : String} {d : PartialDocument}
    (h : step ⟨o :: outer, root⟩ (.endTag name) = .ok d) :
    o.written = name ∧ attach ⟨outer, root⟩ o.close = .ok d := by
  simp only [step] at h
  split at h
  · exact ⟨‹_›, h⟩
  · cases h

/-- Behind the root nothing is read but what may stand outside of it. -/
theorem PartialDocument.step_closed_eq_ok {root : Element} {event : Event} {d : PartialDocument}
    (h : step ⟨[], some root⟩ event = .ok d) : event.IsOutside ∧ d = ⟨[], some root⟩ := by
  cases event with
  | startTag name attributes =>
    obtain ⟨tag, -, h⟩ := bind_eq_ok_iff.mp h
    cases h
  | emptyTag name attributes =>
    obtain ⟨tag, -, h⟩ := bind_eq_ok_iff.mp h
    cases h
  | endTag name => cases h
  | text content => exact addText_eq_ok h
  | cdata content => exact addText_eq_ok h
  | skipped => exact ⟨trivial, (Except.ok.inj h).symm⟩

/-! ## What was read is what it stands for -/

/-- The events that lead to some open elements: the tag of each one comes behind those of the
elements around it, and its content so far behind the tag. -/
inductive Opened : List OpenElement → List Event → Prop
  | none {before : List Event} (hbefore : ∀ event ∈ before, event.IsOutside) : Opened [] before
  | cons {outer : List OpenElement} {before : List Event} {name : String}
      {attributes : List (String × String)} {content : List Node} (houter : Opened outer before)
      (htag : IsBoundTag (scope ⟨outer, .none⟩) name attributes)
      (hcontent : AreBound ((scope ⟨outer, .none⟩).enter attributes) content) :
      Opened ((OpenElement.tagged (scope ⟨outer, .none⟩) name attributes).add content :: outer)
        (before ++ .startTag name attributes :: eventsOf content)

/-- One more node in the innermost open element. -/
theorem Opened.add {o : OpenElement} {outer : List OpenElement} {events : List Event}
    (h : Opened (o :: outer) events) {node : Node} (hnode : node.IsBound o.tag.scope) :
    Opened (o.add [node] :: outer) (events ++ node.events) := by
  cases h with
  | @cons _ before name attributes content houter htag hcontent =>
    -- the events of the node follow those of the content that the element has so far
    have hboth : AreBound ((scope ⟨outer, .none⟩).enter attributes) (content ++ [node]) :=
      areBound_append.mpr ⟨hcontent, hnode, trivial⟩
    have hmore := Opened.cons houter htag hboth
    rw [eventsOf_append, eventsOf, eventsOf, List.append_nil] at hmore
    rwa [← OpenElement.add_append, List.append_assoc, List.cons_append]

/-- The events that lead to a document that is read so far. -/
inductive IsRead : List Event → PartialDocument → Prop
  | opened {stack : List OpenElement} {events : List Event} (h : Opened stack events) :
      IsRead events ⟨stack, none⟩
  | closed {before after : List Event} {root : Node} {e : Element}
      (hbefore : ∀ event ∈ before, event.IsOutside) (hafter : ∀ event ∈ after, event.IsOutside)
      (hbound : root.IsBound Scope.outermost) (he : root.elements Scope.outermost = [e]) :
      IsRead (before ++ root.events ++ after) ⟨[], some e⟩

/-- A closed element becomes the root where no other one is open, else a child. -/
theorem IsRead.attach {stack : List OpenElement} {events : List Event} (h : Opened stack events)
    {node : Node} {e : Element} {d : PartialDocument}
    (hbound : node.IsBound (scope ⟨stack, none⟩))
    (he : node.elements (scope ⟨stack, none⟩) = [e]) (hown : node.ownText = "")
    (hattach : PartialDocument.attach ⟨stack, none⟩ e = .ok d) :
    IsRead (events ++ node.events) d := by
  cases stack with
  | nil =>
    obtain rfl := Except.ok.inj hattach
    cases h with
    | none hbefore =>
      have hread := IsRead.closed hbefore (List.forall_mem_nil Event.IsOutside) hbound he
      rwa [List.append_nil] at hread
  | cons o outer =>
    obtain rfl := Except.ok.inj hattach
    have hadd : o.add [node] = { o with children := e :: o.children } :=
      OpenElement.add_element he hown
    exact hadd ▸ .opened (h.add hbound)

/-- What is no tag is a node of the innermost open element. Where there is none it has to be such
as may stand outside of the root. -/
theorem IsRead.beside {stack : List OpenElement} {events : List Event} (h : Opened stack events)
    {node : Node} {event : Event} {d : PartialDocument} (hevents : node.events = [event])
    (hbound : ∀ scope, node.IsBound scope) (houtside : stack = [] → event.IsOutside)
    (hstep : PartialDocument.step ⟨stack, none⟩ event = .ok d) : IsRead (events ++ [event]) d := by
  cases stack with
  | nil =>
    rw [step_of_isOutside (houtside rfl)] at hstep
    obtain rfl := Except.ok.inj hstep
    cases h with
    | none hbefore =>
      have hmore := List.forall_mem_append.mpr
        ⟨hbefore, List.forall_mem_singleton.mpr (houtside rfl)⟩
      exact .opened (.none hmore)
  | cons o outer =>
    have hread := foldlM_events_node node o outer none (hbound o.tag.scope)
    simp only [hevents, List.foldlM_cons, List.foldlM_nil, bind_pure] at hread
    rw [hread] at hstep
    obtain rfl := Except.ok.inj hstep
    exact hevents ▸ .opened (h.add (hbound o.tag.scope))

/-- One more event. -/
theorem IsRead.step {events : List Event} {d d' : PartialDocument} (h : IsRead events d)
    {event : Event} (hstep : d.step event = .ok d') : IsRead (events ++ [event]) d' := by
  cases h with
  | closed hbefore hafter hbound he =>
    -- the root is there already, so only what may stand outside of it can follow
    obtain ⟨houtside, rfl⟩ := step_closed_eq_ok hstep
    rw [List.append_assoc]
    refine .closed hbefore (List.forall_mem_append.mpr ⟨hafter, ?_⟩) hbound he
    exact List.forall_mem_singleton.mpr houtside
  | @opened stack _ h =>
    cases event with
    | startTag name attributes =>
      obtain ⟨tag, hof, hopen⟩ := bind_eq_ok_iff.mp hstep
      obtain ⟨htag, rfl⟩ := Element.ofTag_eq_ok_iff.mp hof
      have hnew := @Opened.cons _ _ _ _ [] h htag trivial
      simp only [Option.isSome_none, Bool.false_eq_true, and_false, ↓reduceIte] at hopen
      obtain rfl := Except.ok.inj hopen
      rw [OpenElement.add_nil] at hnew
      exact .opened hnew
    | emptyTag name attributes =>
      obtain ⟨tag, hof, hattach⟩ := bind_eq_ok_iff.mp hstep
      obtain ⟨htag, rfl⟩ := Element.ofTag_eq_ok_iff.mp hof
      exact @IsRead.attach _ _ h (.empty name attributes) _ _ htag rfl rfl hattach
    | endTag name =>
      cases h with
      | none hbefore => cases hstep
      | @cons outer before written attributes content houter htag hcontent =>
        -- the tag, the content and this end tag are the events of one node around which the
        -- outer elements are still open
        obtain ⟨rfl, hattach⟩ := step_endTag_eq_ok hstep
        have hbound : (Node.element written attributes content).IsBound
            (scope ⟨outer, Option.none⟩) := ⟨htag, hcontent⟩
        have hclosed := IsRead.attach houter hbound (Node.elements_element ..) rfl hattach
        rw [List.append_assoc, List.cons_append]
        exact hclosed
    | text content =>
      refine @IsRead.beside _ _ h (.text content) _ _ rfl (fun _ => trivial) ?_ hstep
      rintro rfl
      exact (addText_eq_ok hstep).1
    | cdata content =>
      refine @IsRead.beside _ _ h (.cdata content) _ _ rfl (fun _ => trivial) ?_ hstep
      rintro rfl
      exact (addText_eq_ok hstep).1
    | skipped =>
      exact @IsRead.beside _ _ h .skipped _ _ rfl (fun _ => trivial) (fun _ => trivial) hstep

/-- What a whole run of events leads to. -/
theorem IsRead.foldlM {before events : List Event} {d d' : PartialDocument} (h : IsRead before d)
    (hevents : events.foldlM PartialDocument.step d = .ok d') : IsRead (before ++ events) d' := by
  induction events generalizing before d with
  | nil =>
    obtain rfl := Except.ok.inj hevents
    rwa [List.append_nil]
  | cons event rest ih =>
    obtain ⟨d₁, hstep, hrest⟩ := bind_eq_ok_iff.mp hevents
    rw [← List.singleton_append, ← List.append_assoc]
    exact ih (h.step hstep) hrest

/-- There is a root in the end exactly where the events are those of one element whose qualifiers
are bound, and it is that element. -/
theorem Element.ofEvents_eq_ok_iff {events : List Event} {e : Element} :
    Element.ofEvents events = .ok e ↔
      ∃ (before : List Event) (root : Node) (after : List Event),
        (∀ event ∈ before, event.IsOutside) ∧ (∀ event ∈ after, event.IsOutside) ∧
        root.IsBound Scope.outermost ∧ root.elements Scope.outermost = [e] ∧
        events = before ++ root.events ++ after := by
  rw [Element.ofEvents, bind_eq_ok_iff]
  constructor
  · -- of what the events can lead to, only a closed root is a result
    rintro ⟨d, hread, hfinish⟩
    have hstart : IsRead [] PartialDocument.start := .opened (.none (List.forall_mem_nil _))
    cases hstart.foldlM hread with
    | opened h => cases h <;> cases hfinish
    | @closed before after root e' hbefore hafter hbound he =>
      obtain rfl : e' = e := Except.ok.inj hfinish
      exact ⟨before, root, after, hbefore, hafter, hbound, he, rfl⟩
  · rintro ⟨before, root, after, hbefore, hafter, hbound, he, rfl⟩
    refine ⟨⟨[], some e⟩, ?_, rfl⟩
    rw [List.append_assoc, List.foldlM_append, PartialDocument.start,
      foldlM_of_areOutside hbefore, ok_bind, List.foldlM_append]
    rw [← PartialDocument.start, foldlM_events_root hbound he, ok_bind, foldlM_of_areOutside hafter]

/-- A scan has a root where it reached its end and its events have one. -/
theorem Element.ofScan_eq_ok_iff {s : Scan} {e : Element} :
    Element.ofScan s = .ok e ↔ s.isComplete = true ∧ Element.ofEvents s.events = .ok e := by
  rw [Element.ofScan, Element.ofEvents]
  cases s.isComplete with
  | true => simp
  | false => simp [bind_eq_ok_iff]

end SoapClient.Xml
