import SoapClient.Proofs.Outcome
import SoapClient.Proofs.Xml.Scan
import SoapClient.Xml.Document

/-!
# The tree of what was written

Main statement: a document that was written is read as the element that its markup stands for, or
fails where there is none (`ofText_document`). The markup is read by the same rules for tags and
names, but as a tree and not event by event.
-/

namespace SoapClient.Xml

open Outcome

/-- An element that stands inside of another one, at any depth. -/
inductive Element.Inside : Element → Element → Prop
  | child {e outer : Element} : e ∈ outer.children → Inside e outer
  | deeper {e inner outer : Element} : Inside e inner → inner ∈ outer.children → Inside e outer

/-! ## Tags -/

/-- The qualifier of a written name, the empty one for a name without. -/
def qualifierOf (name : String) : String := ((splitName? name).getD ("", name)).1

/-- A written name without its qualifier. -/
def localNameOf (name : String) : String := ((splitName? name).getD ("", name)).2

/-- The attributes that declare no namespace, in the order in which they are written. -/
def plainAttributes (attributes : List (String × String)) : List (String × String) :=
  attributes.filter fun a => (Scope.declared? a.1).isNone

/-- The qualifier of a tag is bound where the tag stands; a name need not have one. -/
def IsBoundTag (outer : Scope) (name : String) (attributes : List (String × String)) : Prop :=
  qualifierOf name = "" ∨ ((outer.enter attributes).find? (qualifierOf name)).isSome

/-- The element that a tag opens. -/
def Element.tagged (outer : Scope) (name : String) (attributes : List (String × String)) :
    Element where
  namespaceName := (outer.enter attributes).find? (qualifierOf name)
  localName := localNameOf name
  attributes := plainAttributes attributes
  scope := outer.enter attributes
  children := []
  text := ""

/-- A tag opens its element where its qualifier is bound, and only there. -/
theorem Element.ofTag_eq_ok_iff {outer : Scope} {name : String}
    {attributes : List (String × String)} {tag : Element} :
    Element.ofTag outer name attributes = .ok tag ↔
      IsBoundTag outer name attributes ∧ tag = Element.tagged outer name attributes := by
  have hsplit : (splitName? name).getD ("", name) = (qualifierOf name, localNameOf name) := rfl
  unfold Element.ofTag
  rw [hsplit, IsBoundTag, Element.tagged]
  cases hfind : (outer.enter attributes).find? (qualifierOf name) with
  | some ns =>
    simp only [hfind, Except.ok.injEq, Option.isSome_some, or_true, true_and]
    exact eq_comm
  | none =>
    simp only [hfind]
    by_cases hqualifier : qualifierOf name = ""
    · simp only [hqualifier, ↓reduceIte, Except.ok.injEq, true_or, true_and]
      exact eq_comm
    · simp [hqualifier]

/-- A tag opens an element without children and without text. -/
theorem Element.ofTag_bare {outer : Scope} {name : String} {attributes : List (String × String)}
    {tag : Element} (h : Element.ofTag outer name attributes = .ok tag) :
    tag.children = [] ∧ tag.text = "" := by
  obtain ⟨-, rfl⟩ := Element.ofTag_eq_ok_iff.mp h
  exact ⟨rfl, rfl⟩

/-! ## Markup as a tree -/

namespace Markup

mutual

/-- The element that markup stands for inside a scope. -/
def build (outer : Scope) : Markup → Except DocumentError Element
  | element name attributes children => do
    let tag ← Element.ofTag outer name attributes
    match children with
    | [text content] => .ok { tag with text := content }
    | children => do
      let es ← buildAll tag.scope children
      .ok { tag with children := es }
  | empty name attributes => Element.ofTag outer name attributes
  | text _ => .error .textOutsideRoot

/-- The elements that pieces of markup stand for, in order. -/
def buildAll (outer : Scope) : List Markup → Except DocumentError (List Element)
  | [] => .ok []
  | m :: rest => do
    let e ← m.build outer
    let es ← buildAll outer rest
    .ok (e :: es)

end

/-- An element with a text inside. -/
theorem build_text {outer : Scope} {name content : String} {attributes : List (String × String)}
    {tag : Element} (h : Element.ofTag outer name attributes = .ok tag) :
    (element name attributes [text content]).build outer = .ok { tag with text := content } := by
  rw [build, h]
  rfl

/-- An element with elements inside. -/
theorem build_element {outer : Scope} {name : String} {attributes : List (String × String)}
    {children : List Markup} {tag : Element} {es : List Element}
    (h : Element.ofTag outer name attributes = .ok tag)
    (hchildren : buildAll tag.scope children = .ok es) :
    (element name attributes children).build outer = .ok { tag with children := es } := by
  rw [build, h, ok_bind]
  split
  · simp [buildAll, build] at hchildren
  · rw [hchildren, ok_bind]

/-- An element with elements inside fails where one of these does. -/
theorem build_of_areWritten {outer : Scope} {name : String} {attributes : List (String × String)}
    {children : List Markup} (hchildren : AreWritten children) :
    (element name attributes children).build outer = (do
      let tag ← Element.ofTag outer name attributes
      let es ← buildAll tag.scope children
      .ok { tag with children := es }) := by
  rw [build]
  congr
  funext tag
  split
  · exact hchildren.1.elim
  · rfl

/-- Elements for a row of markup are one for its first piece and some for the others. -/
theorem buildAll_cons_eq_ok {outer : Scope} {m : Markup} {ms : List Markup} {es : List Element}
    (h : buildAll outer (m :: ms) = .ok es) :
    ∃ e rest, m.build outer = .ok e ∧ buildAll outer ms = .ok rest ∧ es = e :: rest := by
  rw [buildAll, bind_eq_ok_iff] at h
  obtain ⟨e, he, h⟩ := h
  rw [bind_eq_ok_iff] at h
  obtain ⟨rest, hrest, h⟩ := h
  exact ⟨e, rest, he, hrest, (Except.ok.inj h).symm⟩

/-- The elements of two rows of markup are those of the one and then those of the other. -/
theorem buildAll_append {outer : Scope} {ms ms' : List Markup} {es es' : List Element}
    (h : buildAll outer ms = .ok es) (h' : buildAll outer ms' = .ok es') :
    buildAll outer (ms ++ ms') = .ok (es ++ es') := by
  induction ms generalizing es with
  | nil =>
    obtain rfl : [] = es := Except.ok.inj h
    exact h'
  | cons m ms ih =>
    obtain ⟨e, rest, he, hrest, rfl⟩ := buildAll_cons_eq_ok h
    rw [List.cons_append, buildAll, he, ok_bind, ih hrest, ok_bind, List.cons_append]

theorem buildAll_singleton {outer : Scope} {m : Markup} {e : Element} (h : m.build outer = .ok e) :
    buildAll outer [m] = .ok [e] := by
  rw [buildAll, h, ok_bind, buildAll, ok_bind]

end Markup

/-! ## Reading the events of markup -/

namespace PartialDocument

/-- Whether another element may come: inside of an open one, or as the root. -/
def IsOpen (d : PartialDocument) : Prop := d.stack = [] → d.root = none

/-- A start tag opens its element. -/
theorem step_startTag {d : PartialDocument} {name : String} {attributes : List (String × String)}
    {tag : Element} (hopen : d.IsOpen) (h : Element.ofTag d.scope name attributes = .ok tag) :
    d.step (.startTag name attributes) = .ok ⟨⟨name, tag, [], ""⟩ :: d.stack, d.root⟩ := by
  have hroot : ¬ (d.stack.isEmpty = true ∧ d.root.isSome = true) := by
    rintro ⟨hstack, hsome⟩
    rw [List.isEmpty_iff] at hstack
    rw [hopen hstack] at hsome
    cases hsome
  rw [step, h, ok_bind, if_neg hroot]

/-- The end tag of the innermost open element puts it into its place. -/
theorem step_endTag (name : String) (tag : Element) (es : List Element) (text : String)
    (outer : List OpenElement) (root : Option Element) :
    step ⟨⟨name, tag, es, text⟩ :: outer, root⟩ (.endTag name) =
      attach ⟨outer, root⟩ (OpenElement.mk name tag es text).close := by
  simp [step]

/-- An element inside of an open one becomes its latest child. -/
theorem attach_cons (o : OpenElement) (outer : List OpenElement) (root : Option Element)
    (e : Element) :
    attach ⟨o :: outer, root⟩ e = .ok ⟨{ o with children := e :: o.children } :: outer, root⟩ := rfl

end PartialDocument

open PartialDocument

/-- An element without text of its own keeps its children as they are. -/
theorem OpenElement.close_eq (name : String) (tag : Element) (es : List Element) :
    (OpenElement.mk name tag es.reverse "").close = { tag with children := es, text := "" } := by
  simp [OpenElement.close]

mutual

/-- Reading the events of markup builds its element and puts this into its place. -/
theorem foldlM_events (m : Markup) (hm : m.IsWritten) {d : PartialDocument} (hopen : d.IsOpen) :
    m.events.foldlM PartialDocument.step d = m.build d.scope >>= d.attach := by
  match m with
  | .element name attributes children =>
    obtain ⟨htag, hchildren⟩ := hm
    cases hof : Element.ofTag d.scope name attributes with
    | error cause => rw [Markup.events, List.foldlM_cons, step, Markup.build, hof]; rfl
    | ok tag =>
      obtain ⟨hnone, hempty⟩ := Element.ofTag_bare hof
      rw [Markup.events, List.foldlM_cons, step_startTag hopen hof, ok_bind]
      rcases hchildren with ⟨content, rfl⟩ | hchildren
      · rw [Markup.build_text hof, ok_bind]
        by_cases hcontent : content = ""
        · -- an empty text is no event, and the element has no text without one
          subst hcontent
          simp only [Markup.eventsAll, Markup.events, ↓reduceIte, List.append_nil, List.nil_append,
            List.foldlM_cons, List.foldlM_nil, bind_pure, step_endTag]
          rw [OpenElement.close]
          simp [hnone]
        · simp only [Markup.eventsAll, Markup.events, hcontent, ↓reduceIte, List.append_nil,
            List.cons_append, List.nil_append, List.foldlM_cons, List.foldlM_nil, step, addText,
            String.empty_append, ok_bind, bind_pure]
          rw [OpenElement.close]
          simp [hnone]
      · -- the children are added to the element that was just opened
        rw [Markup.build_of_areWritten hchildren, hof, ok_bind, List.foldlM_append,
          foldlM_eventsAll children hchildren ⟨name, tag, [], ""⟩ d.stack d.root]
        cases Markup.buildAll tag.scope children with
        | error cause => rfl
        | ok es =>
          simp only [ok_bind, List.append_nil, List.foldlM_cons, List.foldlM_nil, bind_pure,
            step_endTag, OpenElement.close_eq, hempty]
  | .empty name attributes =>
    rw [Markup.events, List.foldlM_cons]
    simp only [List.foldlM_nil, bind_pure]
    rfl
  | .text _ => exact hm.elim

/-- Reading the events of elements inside of an open one adds them to its children. -/
theorem foldlM_eventsAll (ms : List Markup) (hms : Markup.AreWritten ms) (o : OpenElement)
    (outer : List OpenElement) (root : Option Element) :
    (Markup.eventsAll ms).foldlM PartialDocument.step ⟨o :: outer, root⟩ = (do
      let es ← Markup.buildAll o.tag.scope ms
      .ok ⟨{ o with children := es.reverse ++ o.children } :: outer, root⟩) := by
  match ms with
  | [] => rfl
  | m :: ms =>
    -- inside of an open element another one may always come
    have hopen : IsOpen ⟨o :: outer, root⟩ := fun h => absurd h (List.cons_ne_nil o outer)
    have hscope : scope ⟨o :: outer, root⟩ = o.tag.scope := rfl
    rw [Markup.eventsAll, List.foldlM_append, foldlM_events m hms.1 hopen, hscope, Markup.buildAll]
    cases m.build o.tag.scope with
    | error cause => rfl
    | ok e =>
      rw [ok_bind, attach_cons, ok_bind, ok_bind,
        foldlM_eventsAll ms hms.2 { o with children := e :: o.children } outer root]
      cases Markup.buildAll o.tag.scope ms with
      | error cause => rfl
      | ok rest => simp

end

/-- Reading a document that was written scans its characters. -/
theorem Element.ofText_eq_ofScan (root : Markup) :
    Element.ofText (Markup.document root) =
      Element.ofScan (scan (Markup.declaration ++ root.render)) := by
  have hmark : dropMark (dropMark (Markup.document root).toList) =
      Markup.declaration ++ root.render := by
    rw [Markup.document, String.toList_ofList]
    rfl
  rw [Element.ofText, hmark]

/-- A document that was written is read as its root is built, with the same outcome. -/
theorem Element.ofText_document {root : Markup} (h : root.IsWritten) :
    Element.ofText (Markup.document root) = root.build Scope.outermost := by
  have hopen : IsOpen PartialDocument.start := fun _ => rfl
  have hscope : PartialDocument.start.scope = Scope.outermost := rfl
  rw [ofText_eq_ofScan, scan_document root h, Element.ofScan, List.foldlM_cons, step, ok_bind,
    foldlM_events root h hopen, hscope]
  cases root.build Scope.outermost with
  | error cause => rfl
  | ok e => rfl

end SoapClient.Xml
