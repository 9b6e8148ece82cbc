import SoapClient.Proofs.Xml.Pieces
import SoapClient.Proofs.Xml.Preorder
import SoapClient.Xml.Value

/-!
# The text of an element without elements in it

Main statement: the text of such an element is the character data of the pieces in it, one after
the other, and nothing else of a document depends on how this is cut into pieces
(`ofBytes_of_isFilled`).
-/

namespace SoapClient.Xml

open Outcome Node Piece

/-! ## Elements by their place in the document -/

mutual

/-- An element and those inside of it, each before those inside of it. -/
def Element.subtrees : Element → List Element
  | ⟨namespaceName, localName, attributes, scope, children, text⟩ =>
    ⟨namespaceName, localName, attributes, scope, children, text⟩ :: Element.subtreesAll children

/-- The elements of trees one after the other. -/
def Element.subtreesAll : List Element → List Element
  | [] => []
  | e :: rest => e.subtrees ++ Element.subtreesAll rest

end

theorem Element.subtrees_eq (e : Element) : e.subtrees = e :: subtreesAll e.children := by
  cases e
  rw [subtrees]

mutual

theorem Element.length_walk (e : Element) (depth : Nat) :
    (e.walk depth).length = e.subtrees.length := by
  match e with
  | ⟨_, _, _, _, children, _⟩ =>
    rw [walk, subtrees, List.length_cons, List.length_cons, length_walkAll children]

theorem Element.length_walkAll (es : List Element) (depth : Nat) :
    (walkAll depth es).length = (subtreesAll es).length := by
  match es with
  | [] => rfl
  | e :: rest =>
    rw [walkAll, subtreesAll, List.length_append, List.length_append, length_walk e,
      length_walkAll rest]

end

mutual

/-- Each visit of a walk is that of an element with all that is inside of it. -/
theorem Element.exists_subtree (e : Element) (depth n : Nat) {visit : Nat × Element}
    (h : (e.walk depth)[n]? = some visit) :
    ∃ inner, e.subtrees[n]? = some inner ∧
      ∃ before after, before.length = n ∧ e.walk depth = before ++ inner.walk visit.1 ++ after := by
  match n with
  | 0 =>
    rw [walk_eq] at h
    obtain rfl := Option.some.inj h
    refine ⟨e, by rw [subtrees_eq]; rfl, [], [], rfl, ?_⟩
    rw [List.nil_append, List.append_nil]
  | n + 1 =>
    match e with
    | ⟨ns, localName, attributes, scope, children, text⟩ =>
      rw [walk, List.getElem?_cons_succ] at h
      obtain ⟨inner, hinner, before, after, hlength, hwalk⟩ :=
        exists_subtreeAll children (depth + 1) n h
      refine ⟨inner, hinner, (depth, ⟨ns, localName, attributes, scope, [], text⟩) :: before, after,
        congrArg (· + 1) hlength, ?_⟩
      rw [walk, hwalk]
      rfl

theorem Element.exists_subtreeAll (es : List Element) (depth n : Nat) {visit : Nat × Element}
    (h : (walkAll depth es)[n]? = some visit) :
    ∃ inner, (subtreesAll es)[n]? = some inner ∧
      ∃ before after, before.length = n ∧
        walkAll depth es = before ++ inner.walk visit.1 ++ after := by
  match es with
  | [] => cases h
  | e :: rest =>
    rw [walkAll] at h ⊢
    rw [subtreesAll]
    by_cases hn : n < (e.walk depth).length
    · rw [List.getElem?_append_left hn] at h
      obtain ⟨inner, hinner, before, after, hlength, hwalk⟩ := exists_subtree e depth n h
      refine ⟨inner, ?_, before, after ++ walkAll depth rest, hlength, ?_⟩
      · rw [length_walk] at hn
        rw [List.getElem?_append_left hn, hinner]
      · rw [hwalk]
        simp only [List.append_assoc]
    · rw [List.getElem?_append_right (Nat.le_of_not_lt hn)] at h
      obtain ⟨inner, hinner, before, after, hlength, hwalk⟩ := exists_subtreeAll rest depth _ h
      refine ⟨inner, ?_, e.walk depth ++ before, after, ?_, ?_⟩
      · rw [length_walk] at hn hinner
        rw [List.getElem?_append_right (Nat.le_of_not_lt hn), hinner]
      · rw [List.length_append, hlength]
        omega
      · rw [hwalk]
        simp only [List.append_assoc]

end

/-- An element that no deeper one follows has none inside of it. -/
theorem Element.getElem?_subtrees {root tag : Element} {depth n : Nat}
    (h : (root.walk 0)[n]? = some (depth, tag))
    (hnext : ∀ visit, (root.walk 0)[n + 1]? = some visit → visit.1 ≤ depth) :
    root.subtrees[n]? = some tag ∧ tag.children = [] := by
  obtain ⟨inner, hinner, before, after, rfl, hwalk⟩ := exists_subtree root 0 n h
  have hsplit : root.walk 0 = before ++ (depth, { inner with children := [] }) ::
      (walkAll (depth + 1) inner.children ++ after) := by
    rw [hwalk, walk_eq, List.append_assoc, List.cons_append]
  rw [hsplit, List.getElem?_append_right (Nat.le_refl _), Nat.sub_self,
    List.getElem?_cons_zero] at h
  rw [hsplit, List.getElem?_append_right (Nat.le_succ _), Nat.succ_sub (Nat.le_refl _),
    Nat.sub_self, List.getElem?_cons_succ] at hnext
  obtain ⟨-, rfl⟩ := Prod.mk.inj (Option.some.inj h)
  have hchildren : inner.children = [] := by
    cases hchildren : inner.children with
    | nil => rfl
    | cons child rest =>
      -- the first child would come next, one level down
      rw [hchildren, walkAll, walk_eq] at hnext
      exact absurd (hnext _ rfl) (Nat.not_succ_le_self depth)
  refine ⟨?_, rfl⟩
  rw [hinner]
  cases inner
  rw [← hchildren]

/-! ## Tags by their place in the document -/

/-- The scopes of the elements that are open behind an event. -/
def scopesBehind (around : List Scope) : Event → List Scope
  | .startTag _ attributes => (innermost around).enter attributes :: around
  | .endTag _ => around.tail
  | _ => around

/-- Behind some events the tags go on where these have led. -/
theorem drop_tagsOf (around : List Scope) (before rest : List Event) :
    (tagsOf around (before ++ rest)).drop (tagsOf around before).length =
      tagsOf (before.foldl scopesBehind around) rest := by
  induction before generalizing around with
  | nil => rfl
  | cons event before ih =>
    cases event with
    | startTag name attributes => exact ih _
    | emptyTag name attributes => exact ih around
    | endTag name => exact ih around.tail
    | text content => exact ih around
    | cdata content => exact ih around
    | skipped => exact ih around

/-- The next tag is not deeper than where its events begin. -/
theorem length_around_le {around : List Scope} {events : List Event} {p : Place}
    (h : (tagsOf around events)[0]? = some p) : p.around.length ≤ around.length := by
  induction events generalizing around with
  | nil => cases h
  | cons event rest ih =>
    cases event with
    | startTag name attributes =>
      obtain rfl := Option.some.inj h
      exact Nat.le_refl _
    | emptyTag name attributes =>
      obtain rfl := Option.some.inj h
      exact Nat.le_refl _
    | endTag name =>
      exact Nat.le_trans (ih h) (by simp)
    | text content => exact ih h
    | cdata content => exact ih h
    | skipped => exact ih h

/-! ## Nodes that are no elements -/

section Beside

variable {nodes : List Node} (hnodes : ∀ node ∈ nodes, ¬ node.IsElement)
include hnodes

theorem elementsOf_eq_nil (outer : Scope) : elementsOf outer nodes = [] := by
  induction nodes with
  | nil => rfl
  | cons node rest ih =>
    obtain ⟨hnode, hrest⟩ := List.forall_mem_cons.mp hnodes
    rw [elementsOf, ih hrest, List.append_nil]
    cases node with
    | element name attributes content => exact absurd trivial hnode
    | empty name attributes => exact absurd trivial hnode
    | text content => rfl
    | cdata content => rfl
    | skipped => rfl

theorem areBound_of_not_isElement (outer : Scope) : AreBound outer nodes := by
  induction nodes with
  | nil => trivial
  | cons node rest ih =>
    obtain ⟨hnode, hrest⟩ := List.forall_mem_cons.mp hnodes
    refine ⟨?_, ih hrest⟩
    cases node with
    | element name attributes content => exact absurd trivial hnode
    | empty name attributes => exact absurd trivial hnode
    | text content => trivial
    | cdata content => trivial
    | skipped => trivial

/-- There are no tags among them. -/
theorem tagsOf_eventsOf_append (around : List Scope) (rest : List Event) :
    tagsOf around (eventsOf nodes ++ rest) = tagsOf around rest := by
  induction nodes with
  | nil => rfl
  | cons node later ih =>
    obtain ⟨hnode, hlater⟩ := List.forall_mem_cons.mp hnodes
    rw [eventsOf, List.append_assoc]
    cases node with
    | element name attributes content => exact absurd trivial hnode
    | empty name attributes => exact absurd trivial hnode
    | text content => exact ih hlater
    | cdata content => exact ih hlater
    | skipped => exact ih hlater

/-- They add their text to the element around them, and nothing else. -/
theorem foldlM_eventsOf (o : OpenElement) (outer : List OpenElement) (root : Option Element) :
    (eventsOf nodes).foldlM PartialDocument.step ⟨o :: outer, root⟩ =
      .ok ⟨{ o with text := o.text ++ textOf nodes } :: outer, root⟩ := by
  rw [foldlM_events_nodes nodes o outer root (areBound_of_not_isElement hnodes o.tag.scope),
    OpenElement.add, elementsOf_eq_nil hnodes]
  rfl

end Beside

/-! ## What stands in the elements does not decide what fits -/

namespace PartialDocument

/-- A document that is read so far, without what stands in its elements. -/
def bare (d : PartialDocument) : PartialDocument where
  stack := d.stack.map fun o => ⟨o.written, o.tag, [], ""⟩
  root := d.root.map fun _ => Element.tagged [] "" []

/-- Where a closed element is put does not depend on what stands in the others, or in itself. -/
theorem attach_bare (d : PartialDocument) (e e' : Element) :
    (d.attach e).map bare = (d.bare.attach e').map bare := by
  obtain ⟨stack, root⟩ := d
  cases stack with
  | nil => cases root <;> rfl
  | cons o outer => cases root <;> simp [attach, bare, Except.map]

theorem addText_bare (d : PartialDocument) (content : String) :
    (d.addText content).map bare = (d.bare.addText content).map bare := by
  obtain ⟨stack, root⟩ := d
  cases stack with
  | nil =>
    by_cases hblank : Text.isBlankText content = true
    · cases root <;> simp [addText, bare, hblank, Except.map]
    · simp [addText, bare, hblank, Except.map]
  | cons o outer => cases root <;> simp [addText, bare, Except.map]

theorem scope_bare (d : PartialDocument) : d.bare.scope = d.scope := by
  obtain ⟨stack, root⟩ := d
  cases stack <;> rfl

/-- Whether an event fits does not depend on what stands in the elements. -/
theorem step_bare (d : PartialDocument) (event : Event) :
    (d.step event).map bare = (d.bare.step event).map bare := by
  cases event with
  | startTag name attributes =>
    rw [step, step, scope_bare]
    cases Element.ofTag d.scope name attributes with
    | error cause => rfl
    | ok tag =>
      obtain ⟨stack, root⟩ := d
      cases stack <;> cases root <;> simp [bare, Except.map]
  | emptyTag name attributes =>
    rw [step, step, scope_bare]
    cases Element.ofTag d.scope name attributes with
    | error cause => rfl
    | ok tag => exact attach_bare d tag tag
  | endTag name =>
    obtain ⟨stack, root⟩ := d
    cases stack with
    | nil => rfl
    | cons o outer =>
      by_cases hwritten : o.written = name
      · simp only [step, bare, List.map_cons, if_pos hwritten]
        exact attach_bare ⟨outer, root⟩ _ _
      · simp only [step, bare, List.map_cons, if_neg hwritten]
  | text content => exact addText_bare d content
  | cdata content => exact addText_bare d content
  | skipped =>
    obtain ⟨stack, root⟩ := d
    cases root <;> simp [step, bare, Except.map]

/-- The same for a whole run of events. -/
theorem foldlM_bare {d d' : PartialDocument} (h : d.bare = d'.bare) (events : List Event) :
    (events.foldlM step d).map bare = (events.foldlM step d').map bare := by
  induction events generalizing d d' with
  | nil => exact congrArg Except.ok h
  | cons event rest ih =>
    have hstep : (d.step event).map bare = (d'.step event).map bare := by
      rw [step_bare, h, ← step_bare]
    exact map_bind_congr hstep fun _ _ => ih

/-- Whether a document is at its end does not depend on what stands in its elements. -/
theorem finish_bare (d : PartialDocument) :
    d.finish.map (fun _ => ()) = d.bare.finish.map (fun _ => ()) := by
  obtain ⟨stack, root⟩ := d
  cases stack with
  | nil => cases root <;> rfl
  | cons o outer => rfl

/-- What becomes of a document does not depend on what stands in its elements. -/
theorem map_finish_of_map_bare {x x' : Except DocumentError PartialDocument}
    (h : x.map bare = x'.map bare) (isComplete : Bool) :
    (x >>= fun d => if isComplete then d.finish else .error .markup).map (fun _ => ()) =
      (x' >>= fun d => if isComplete then d.finish else .error .markup).map fun _ => () := by
  refine map_bind_congr h fun d d' hbare => ?_
  cases isComplete with
  | false => rfl
  | true => exact (finish_bare d).trans (hbare ▸ (finish_bare d').symm)

end PartialDocument

/-! ## Documents with a gap -/

theorem Scan.eq_mk {s : Scan} {events : List Event} {isComplete : Bool} (h : s.events = events)
    (h' : s.isComplete = isComplete) : s = ⟨events, isComplete⟩ := by
  rw [← h, ← h']

/-- A document without what stands inside of one element. In front of the gap is a start tag, and
behind it is an end tag. -/
structure Gap where
  front : List Char
  back : List Char
  /-- The events in front of the start tag. -/
  before : List Event
  name : String
  attributes : List (String × String)
  closing : String
  /-- The events behind the end tag. -/
  after : List Event
  isComplete : Bool
  scan_front : scan (dropMark (dropMark front)) = ⟨before ++ [.startTag name attributes], true⟩
  scan_back : scan back = ⟨.endTag closing :: after, isComplete⟩

namespace Gap

variable (g : Gap)

/-- The document with pieces in the gap. -/
def fill (pieces : List Piece) : String := String.ofList (g.front ++ renderAll pieces ++ g.back)

/-- Bytes are those of the document with pieces in the gap. -/
structure IsFilled (pieces : List Piece) (bytes : List UInt8) : Prop where
  written : ∀ piece ∈ pieces, piece.IsWritten
  text : Text.Utf8.decode? bytes = some (g.fill pieces)

/-- How many start and empty tags come before the element with the gap. -/
def index : Nat := (tagsOf [] g.before).length

/-- The scope around the element with the gap. -/
def scope : Scope := innermost (g.before.foldl scopesBehind [])

/-- The element with the gap, with some text in it. -/
def leaf (content : String) : Element :=
  { Element.tagged g.scope g.name g.attributes with text := content }

/-- The events of the document with nodes in the gap. -/
def eventsWith (nodes : List Node) : List Event :=
  g.before ++ .startTag g.name g.attributes :: (eventsOf nodes ++ .endTag g.closing :: g.after)

/-- Behind a start tag its element is open. -/
theorem exists_of_step_startTag {d opened : PartialDocument} {name : String}
    {attributes : List (String × String)} (h : d.step (.startTag name attributes) = .ok opened) :
    ∃ o outer root, opened = ⟨o :: outer, root⟩ := by
  obtain ⟨tag, -, hopened⟩ := bind_eq_ok_iff.mp h
  split at hopened
  · cases hopened
  · exact ⟨_, _, _, (Except.ok.inj hopened).symm⟩

/-- The nodes in the gap add their text to the element around them. -/
theorem foldlM_eventsWith {nodes : List Node} (hnodes : ∀ node ∈ nodes, ¬ node.IsElement) :
    (g.eventsWith nodes).foldlM PartialDocument.step .start = (do
      let d ← g.before.foldlM PartialDocument.step .start
      let d ← d.step (.startTag g.name g.attributes)
      let d ← d.addText (textOf nodes)
      (.endTag g.closing :: g.after).foldlM PartialDocument.step d) := by
  rw [eventsWith, List.foldlM_append]
  congr 1
  funext d
  rw [List.foldlM_cons]
  cases hd : d.step (.startTag g.name g.attributes) with
  | error cause => rfl
  | ok opened =>
    obtain ⟨o, outer, root, rfl⟩ := exists_of_step_startTag hd
    rw [ok_bind, ok_bind, List.foldlM_append, foldlM_eventsOf hnodes]
    rfl

variable {g} {pieces pieces' : List Piece} {bytes bytes' : List UInt8}

theorem dropMark_append {cs : List Char} (h : dropMark cs ≠ []) (rest : List Char) :
    dropMark (cs ++ rest) = dropMark cs ++ rest := by
  cases cs with
  | nil => exact absurd rfl h
  | cons c cs =>
    by_cases hmark : c = '\uFEFF'
    · subst hmark
      rfl
    · rw [List.cons_append, dropMark, dropMark]
      · rfl
      · exact fun _ heq => hmark (List.cons.inj heq).1
      · exact fun _ heq => hmark (List.cons.inj heq).1

/-- What is behind the gap begins with a bracket. -/
theorem exists_back_eq (g : Gap) : ∃ rest, g.back = '<' :: rest := by
  have hscan := g.scan_back
  cases hback : g.back with
  | nil =>
    rw [hback, scan] at hscan
    cases hscan
  | cons c rest =>
    by_cases hc : c = '<'
    · exact ⟨rest, by rw [hc]⟩
    · -- anything else would be scanned as a text
      rw [hback] at hscan
      cases hread : readEvent? (c :: rest) with
      | none =>
        rw [scan_of_readEvent?_eq_none hread] at hscan
        cases hscan
      | some found =>
        obtain ⟨e, tail⟩ := found
        rw [scan_of_readEvent? hread] at hscan
        obtain ⟨rfl, -⟩ := List.cons.inj (Scan.mk.inj hscan).1
        rw [readEvent?] at hread
        · obtain ⟨content, -, heq⟩ := Option.map_eq_some_iff.mp hread
          cases heq
        · exact hc

/-- The pieces in the gap are read as nodes that hold their character data. -/
theorem IsFilled.exists_nodes (h : g.IsFilled pieces bytes) :
    ∃ nodes : List Node, (∀ node ∈ nodes, ¬ node.IsElement) ∧ textOf nodes = contentOf pieces ∧
      Element.ofBytes bytes = Element.ofScan ⟨g.eventsWith nodes, g.isComplete⟩ := by
  obtain ⟨rest, hback⟩ := g.exists_back_eq
  obtain ⟨nodes, hnodes, htext, hscan⟩ :=
    exists_nodes_scan pieces h.written (List.forall_mem_nil _) rest
  rw [← hback, g.scan_back] at hscan
  -- there are no more than marks in front of the first event
  have hfront : dropMark (dropMark g.front) ≠ [] := by
    intro hnil
    have hevents := g.scan_front
    rw [hnil, scan] at hevents
    exact List.append_ne_nil_of_right_ne_nil g.before (List.cons_ne_nil _ _)
      (Scan.mk.inj hevents).1.symm
  have hmark : dropMark g.front ≠ [] := fun hnil => hfront (by rw [hnil]; rfl)
  have hdrop : dropMark (dropMark (g.fill pieces).toList) =
      dropMark (dropMark g.front) ++ (renderAll pieces ++ g.back) := by
    rw [fill, String.toList_ofList, List.append_assoc, dropMark_append hmark,
      dropMark_append hfront]
  have hlast : ∀ content,
      (g.before ++ [Event.startTag g.name g.attributes]).getLast? ≠ some (.text content) := by
    intro content
    simp
  refine ⟨nodes, hnodes, ?_, ?_⟩
  · rw [htext]
    exact String.empty_append
  · rw [Element.ofBytes, h.text]
    dsimp only
    have hinside : scan (renderAll pieces ++ g.back) =
        Scan.prepend (eventsOf nodes) ⟨.endTag g.closing :: g.after, g.isComplete⟩ := hscan
    rw [Element.ofText, hdrop, scan_append g.scan_front hlast, hinside, Scan.prepend_prepend,
      Scan.prepend, eventsWith, List.append_assoc, List.append_assoc, List.singleton_append]

/-- The element with the gap is at its place in the tree, with the text of the nodes in it. -/
theorem getElem?_subtrees_eventsWith {nodes : List Node} {root : Element}
    (hnodes : ∀ node ∈ nodes, ¬ node.IsElement)
    (h : Element.ofScan ⟨g.eventsWith nodes, g.isComplete⟩ = .ok root) :
    root.subtrees[g.index]? = some (g.leaf (textOf nodes)) := by
  obtain ⟨-, hroot⟩ := Element.ofScan_eq_ok_iff.mp h
  obtain ⟨before, node, after, hbefore, hafter, -, he, hevents⟩ :=
    Element.ofEvents_eq_ok_iff.mp hroot
  have hwalk := map_visit_document hbefore hafter he
  rw [← hevents] at hwalk
  -- the tags from the gap on: that of the element, and then those behind its end tag
  have hdrop := drop_tagsOf [] g.before
    (.startTag g.name g.attributes :: (eventsOf nodes ++ .endTag g.closing :: g.after))
  rw [tagsOf, tagsOf_eventsOf_append hnodes, tagsOf, List.tail_cons, ← eventsWith, ← index] at hdrop
  have hget : ∀ n, (root.walk 0)[g.index + n]? =
      (((tagsOf [] (g.eventsWith nodes)).drop g.index)[n]?).map Place.visit := by
    intro n
    rw [← hwalk, List.getElem?_map, List.getElem?_drop]
  have htag : hasTagBehind (eventsOf nodes ++ .endTag g.closing :: g.after) ≠ true := by
    rw [ne_eq, hasTagBehind_content nodes g.closing g.after Scope.outermost,
      elementsOf_eq_nil hnodes]
    exact not_not_intro rfl
  have hself := hget 0
  rw [hdrop, List.getElem?_cons_zero, Option.map_some, Nat.add_zero, Place.visit, Place.text,
    if_neg fun h => htag h.1, textBehind_content] at hself
  refine (Element.getElem?_subtrees hself fun visit hvisit => ?_).1
  rw [hget 1, hdrop, List.getElem?_cons_succ] at hvisit
  obtain ⟨p, hp, rfl⟩ := Option.map_eq_some_iff.mp hvisit
  exact length_around_le hp

/-- Nodes of the same text in the gap give the same tree. -/
theorem ofScan_eventsWith_congr {nodes nodes' : List Node}
    (hnodes : ∀ node ∈ nodes, ¬ node.IsElement) (hnodes' : ∀ node ∈ nodes', ¬ node.IsElement)
    (htext : textOf nodes = textOf nodes') :
    Element.ofScan ⟨g.eventsWith nodes, g.isComplete⟩ =
      Element.ofScan ⟨g.eventsWith nodes', g.isComplete⟩ := by
  rw [Element.ofScan, Element.ofScan, foldlM_eventsWith g hnodes, foldlM_eventsWith g hnodes',
    htext]

/-- Whether a document is refused, and why, does not depend on the nodes in the gap. -/
theorem map_ofScan_eventsWith (g : Gap) {nodes nodes' : List Node}
    (hnodes : ∀ node ∈ nodes, ¬ node.IsElement) (hnodes' : ∀ node ∈ nodes', ¬ node.IsElement) :
    (Element.ofScan ⟨g.eventsWith nodes, g.isComplete⟩).map (fun _ => ()) =
      (Element.ofScan ⟨g.eventsWith nodes', g.isComplete⟩).map fun _ => () := by
  rw [Element.ofScan, Element.ofScan, foldlM_eventsWith g hnodes, foldlM_eventsWith g hnodes']
  apply PartialDocument.map_finish_of_map_bare
  cases g.before.foldlM PartialDocument.step .start with
  | error cause => rfl
  | ok d =>
    cases hd : d.step (.startTag g.name g.attributes) with
    | error cause => rw [ok_bind, ok_bind, hd]; rfl
    | ok opened =>
      -- the texts differ, but they stand in an element
      obtain ⟨o, outer, root, rfl⟩ := exists_of_step_startTag hd
      rw [ok_bind, ok_bind, hd, ok_bind, ok_bind]
      have htext : ∀ content, PartialDocument.addText ⟨o :: outer, root⟩ content =
          .ok ⟨{ o with text := o.text ++ content } :: outer, root⟩ := fun _ => rfl
      rw [htext, htext, ok_bind, ok_bind]
      apply PartialDocument.foldlM_bare
      rfl

end Gap

open Gap

/-- How text is written does not matter. However the content of an element is cut into running text,
sections, comments and instructions, the element has the character data of the pieces as its text,
one after the other, and this is its value unless the element is marked as nil. Two ways of writing
the same content give the same tree, and whatever the content is, it is no reason to refuse a
document. -/
theorem ofBytes_of_isFilled (g : Gap) {pieces : List Piece} {bytes : List UInt8}
    (h : g.IsFilled pieces bytes) :
    (∀ root, Element.ofBytes bytes = .ok root →
      root.subtrees[g.index]? = some (g.leaf (contentOf pieces)) ∧
      (g.leaf (contentOf pieces)).value =
        if (g.leaf (contentOf pieces)).isNil then .null else .str (contentOf pieces)) ∧
    ∀ pieces' bytes', g.IsFilled pieces' bytes' →
      (∀ cause, Element.ofBytes bytes' = .error cause ↔ Element.ofBytes bytes = .error cause) ∧
      (contentOf pieces' = contentOf pieces →
        Element.ofBytes bytes' = Element.ofBytes bytes) := by
  obtain ⟨nodes, hnodes, htext, heq⟩ := h.exists_nodes
  rw [heq, ← htext]
  refine ⟨fun root hroot => ⟨getElem?_subtrees_eventsWith hnodes hroot, ?_⟩, ?_⟩
  · rfl
  · intro pieces' bytes' h'
    obtain ⟨nodes', hnodes', htext', heq'⟩ := h'.exists_nodes
    rw [heq', ← htext']
    exact ⟨fun cause => eq_error_iff_of_map_eq (g.map_ofScan_eventsWith hnodes' hnodes),
      ofScan_eventsWith_congr hnodes' hnodes⟩

/-- A row with a cell that has a gap. -/
def cellGap : Gap where
  front := "<r> <v>".toList
  back := "</v> </r>".toList
  before := [.startTag "r" [], .text " "]
  name := "v"
  attributes := []
  closing := "v"
  after := [.text " ", .endTag "r"]
  isComplete := true
  scan_front := Scan.eq_mk (by decide +kernel) (by decide +kernel)
  scan_back := Scan.eq_mk (by decide +kernel) (by decide +kernel)

/-- A text in running text, with a comment in it, and a section. -/
def cellPieces : List Piece :=
  [.text [('1', false), (' ', false)], .comment " < ", .text [('<', true)],
    .cdata " &]]", .instruction ""]

/-- The same text in one run. -/
def cellRun : List Piece :=
  [.text [('1', false), (' ', false), ('<', true), (' ', false), ('&', true), (']', true),
    (']', false)]]

/-- Both are read as the same tree, with the text in the cell. -/
theorem ofBytes_of_isFilled_cell :
    cellGap.fill cellPieces = "<r> <v>1 <!-- < -->&lt;<![CDATA[ &]]]]><??></v> </r>" ∧
      cellGap.fill cellRun = "<r> <v>1 &lt; &amp;]]</v> </r>" ∧
      ∃ root, Element.ofBytes (cellGap.fill cellPieces).toUTF8.toList = .ok root ∧
        root.subtrees[1]? = some (cellGap.leaf "1 < &]]") ∧
        Element.ofBytes (cellGap.fill cellRun).toUTF8.toList = .ok root := by
  have hpieces : cellGap.IsFilled cellPieces (cellGap.fill cellPieces).toUTF8.toList := by
    have hsection : ¬ [']', ']', '>'] <:+: [' ', '&', ']', ']'] := by decide
    refine ⟨?_, by decide +kernel⟩
    simp [cellPieces, Piece.IsWritten, hsection]
  have hrun : cellGap.IsFilled cellRun (cellGap.fill cellRun).toUTF8.toList := by
    refine ⟨?_, by decide +kernel⟩
    simp [cellRun, Piece.IsWritten]
  obtain ⟨htree, hsame⟩ := ofBytes_of_isFilled cellGap hpieces
  have hread :
      (Element.ofBytes (cellGap.fill cellPieces).toUTF8.toList).toOption.isSome = true := by
    decide +kernel
  cases hroot : Element.ofBytes (cellGap.fill cellPieces).toUTF8.toList with
  | error cause =>
    rw [hroot] at hread
    cases hread
  | ok root =>
    refine ⟨by decide +kernel, by decide +kernel, root, rfl, (htree root hroot).1, ?_⟩
    rw [(hsame cellRun _ hrun).2 (by decide +kernel), hroot]

end SoapClient.Xml
