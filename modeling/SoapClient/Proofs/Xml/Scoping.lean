import Mathlib.Data.List.Forall2
import SoapClient.Proofs.Xml.Preorder

/-!
# Namespaces are scoped by elements

What a qualifier means inside of an element is told by the tags alone: by the nearest tag, of the
element itself or of one around it, that declares the qualifier. Main statement: the names of a
document that is read are resolved so, all of them, and a tag whose qualifier is not bound so makes
reading fail (`ofBytes_resolves`).
-/

namespace SoapClient.Xml

open Outcome

/-! ## Declarations -/

/-- The attribute of a name declares a namespace for a qualifier: `xmlns` for the empty one, which
is that of names without a qualifier, and `xmlns:` with a qualifier behind it for this one. -/
def Declares (name qualifier : String) : Prop :=
  (name = "xmlns" ∧ qualifier = "") ∨ name = "xmlns:" ++ qualifier

/-- What the attributes of a tag declare for a qualifier: the last declaration of it counts. -/
def DeclaresLast (attributes : List (String × String)) (qualifier ns : String) : Prop :=
  ∃ before name after, attributes = before ++ (name, ns) :: after ∧ Declares name qualifier ∧
    ∀ a ∈ after, ¬ Declares a.1 qualifier

/-- The nearest declaration of a qualifier in some tags, the innermost first. Around all of them
`xml` is declared. -/
inductive Nearest (qualifier : String) : List (List (String × String)) → String → Prop
  | here {attributes : List (String × String)} {outer : List (List (String × String))}
      {ns : String} :
    DeclaresLast attributes qualifier ns → Nearest qualifier (attributes :: outer) ns
  | further {attributes : List (String × String)} {outer : List (List (String × String))}
      {ns : String} :
    (∀ a ∈ attributes, ¬ Declares a.1 qualifier) → Nearest qualifier outer ns →
      Nearest qualifier (attributes :: outer) ns
  | outermost :
    qualifier = "xml" → Nearest qualifier [] "http://www.w3.org/XML/1998/namespace"

/-- Inside of some tags a qualifier is bound to a namespace. A declaration of the empty name takes
the binding away. -/
def Binds (tags : List (List (String × String))) (qualifier ns : String) : Prop :=
  Nearest qualifier tags ns ∧ ns ≠ ""

theorem declared?_eq_some_iff {name qualifier : String} :
    Scope.declared? name = some qualifier ↔ Declares name qualifier := by
  rw [Scope.declared?, Declares]
  by_cases hdefault : name = "xmlns"
  · subst hdefault
    have hprefixed : "xmlns" ≠ "xmlns:" ++ qualifier := by
      intro heq
      have hcolon : ':' ∈ "xmlns".toList := heq ▸ by simp
      exact absurd hcolon (by decide)
    simp [hprefixed, eq_comm]
  · rw [if_neg hdefault, Option.map_eq_some_iff]
    simp only [hdefault, false_and, false_or]
    constructor
    · rintro ⟨cs, hcs, rfl⟩
      rw [← String.toList_inj, Text.afterMarker?_eq_some hcs]
      simp
    · rintro rfl
      refine ⟨qualifier.toList, ?_, String.ofList_toList⟩
      rw [String.toList_append, Text.afterMarker?_append]

theorem declared?_eq_none_iff {name : String} :
    Scope.declared? name = none ↔ ∀ qualifier, ¬ Declares name qualifier := by
  simp only [Option.eq_none_iff_forall_ne_some, ne_eq, declared?_eq_some_iff]

/-- The attributes of a tag declare a qualifier last, or not at all. -/
theorem exists_declaresLast_or (attributes : List (String × String)) (qualifier : String) :
    (∃ ns, DeclaresLast attributes qualifier ns) ∨ ∀ a ∈ attributes, ¬ Declares a.1 qualifier := by
  induction attributes with
  | nil => exact .inr (List.forall_mem_nil _)
  | cons a rest ih =>
    rcases ih with ⟨ns, before, name, after, rfl, hdeclares, hafter⟩ | hnone
    · exact .inl ⟨ns, a :: before, name, after, rfl, hdeclares, hafter⟩
    · by_cases ha : Declares a.1 qualifier
      · exact .inl ⟨a.2, [], a.1, rest, rfl, ha, hnone⟩
      · exact .inr (List.forall_mem_cons.mpr ⟨ha, hnone⟩)

/-! ## Scopes -/

namespace Scope

variable (outer : Scope) {attributes : List (String × String)} {qualifier ns : String}

theorem enter_append (attributes attributes' : List (String × String)) :
    outer.enter (attributes ++ attributes') = (outer.enter attributes).enter attributes' :=
  List.foldl_append

theorem enter_cons_of_declares {name : String} (h : Declares name qualifier) :
    outer.enter ((name, ns) :: attributes) = Scope.enter ((qualifier, ns) :: outer) attributes := by
  have hdeclared := declared?_eq_some_iff.mpr h
  simp only [enter, List.foldl_cons, hdeclared]

/-- Tags that do not declare a qualifier leave it as it is. -/
theorem find?_enter_of_undeclared (h : ∀ a ∈ attributes, ¬ Declares a.1 qualifier) :
    (outer.enter attributes).find? qualifier = outer.find? qualifier := by
  induction attributes generalizing outer with
  | nil => rfl
  | cons a rest ih =>
    rw [List.forall_mem_cons] at h
    obtain ⟨name, value⟩ := a
    cases hdeclared : declared? name with
    | none =>
      have hstep : outer.enter ((name, value) :: rest) = outer.enter rest := by
        simp only [enter, List.foldl_cons, hdeclared]
      rw [hstep, ih outer h.2]
    | some other =>
      have hdeclares := declared?_eq_some_iff.mp hdeclared
      have hother : other ≠ qualifier := by
        rintro rfl
        exact h.1 hdeclares
      rw [enter_cons_of_declares outer hdeclares, ih _ h.2, find?, if_neg hother]

/-- The last declaration of a qualifier in a tag counts. -/
theorem find?_enter_of_declaresLast (h : DeclaresLast attributes qualifier ns) :
    (outer.enter attributes).find? qualifier = if ns = "" then none else some ns := by
  obtain ⟨before, name, after, rfl, hdeclares, hafter⟩ := h
  rw [enter_append, enter_cons_of_declares _ hdeclares, find?_enter_of_undeclared _ hafter, find?,
    if_pos rfl]

end Scope

/-- The scope inside of some tags, the innermost first. -/
def scopeOf : List (List (String × String)) → Scope
  | [] => Scope.outermost
  | attributes :: outer => (scopeOf outer).enter attributes

/-- In a scope a qualifier is found with the namespace that the tags around bind it to. -/
theorem find?_scopeOf (tags : List (List (String × String))) {qualifier ns : String} :
    (scopeOf tags).find? qualifier = some ns ↔ Binds tags qualifier ns := by
  induction tags with
  | nil =>
    rw [scopeOf, Scope.outermost, Scope.find?, Scope.find?, Binds]
    by_cases hxml : "xml" = qualifier
    · rw [if_pos hxml, if_neg (by decide)]
      constructor
      · intro h
        rw [← Option.some.inj h]
        exact ⟨.outermost hxml.symm, by decide⟩
      · rintro ⟨⟨⟩, -⟩
        rfl
    · rw [if_neg hxml]
      constructor
      · intro h
        cases h
      · rintro ⟨hnearest, -⟩
        cases hnearest with
        | outermost hqualifier => exact absurd hqualifier.symm hxml
  | cons attributes outer ih =>
    rw [scopeOf]
    rcases exists_declaresLast_or attributes qualifier with ⟨last, hlast⟩ | hnone
    · rw [Scope.find?_enter_of_declaresLast _ hlast]
      constructor
      · intro h
        split at h
        · cases h
        · obtain rfl := Option.some.inj h
          exact ⟨.here hlast, ‹_›⟩
      · rintro ⟨hnearest, hempty⟩
        -- a tag has no two last declarations
        cases hnearest with
        | here hlast' =>
          have heq := Scope.find?_enter_of_declaresLast (scopeOf outer) hlast'
          rw [Scope.find?_enter_of_declaresLast _ hlast, if_neg hempty] at heq
          exact heq
        | further hnone _ =>
          obtain ⟨before, name, after, rfl, hdeclares, -⟩ := hlast
          exact absurd hdeclares (hnone (name, last) (by simp))
    · rw [Scope.find?_enter_of_undeclared _ hnone, ih]
      constructor
      · exact fun h => ⟨.further hnone h.1, h.2⟩
      · rintro ⟨hnearest, hempty⟩
        cases hnearest with
        | here hlast =>
          obtain ⟨before, name, after, rfl, hdeclares, -⟩ := hlast
          exact absurd hdeclares (hnone (name, ns) (by simp))
        | further _ hfurther => exact ⟨hfurther, hempty⟩

/-! ## Names -/

/-- A written name falls into a qualifier and a local name at its first colon. Without a colon its
qualifier is empty. -/
def IsCut (name qualifier localName : String) : Prop :=
  (':' ∉ qualifier.toList ∧ name = qualifier ++ ":" ++ localName) ∨
    (':' ∉ name.toList ∧ qualifier = "" ∧ localName = name)

/-- How a written name is cut. -/
theorem isCut_iff {name qualifier localName : String} :
    IsCut name qualifier localName ↔
      qualifierOf name = qualifier ∧ localNameOf name = localName := by
  rw [IsCut, qualifierOf, localNameOf, ← splitName?_eq_some_iff, ← splitName?_eq_none_iff]
  cases hsplit : splitName? name with
  | none => simp [eq_comm]
  | some found => simp [Prod.ext_iff]

/-! ## Tags and what is around them -/

/-- A start or empty tag in a document. -/
structure Opening where
  /-- The attributes of the tags of the elements around it, the innermost first. -/
  around : List (List (String × String))
  name : String
  attributes : List (String × String)

/-- The tags of the elements that are open behind an event. -/
def enclosing (around : List (List (String × String))) : Event → List (List (String × String))
  | .startTag _ attributes => attributes :: around
  | .emptyTag _ _ => around
  | .endTag _ => around.tail
  | .text _ => around
  | .cdata _ => around
  | .skipped => around

/-- The tags of the elements that are open behind some events. -/
def openBehind (around : List (List (String × String))) (events : List Event) :
    List (List (String × String)) :=
  events.foldl enclosing around

/-- The start and empty tags among events, in the order in which they are written. -/
def openings (around : List (List (String × String))) : List Event → List Opening
  | [] => []
  | .startTag name attributes :: rest =>
    ⟨around, name, attributes⟩ :: openings (attributes :: around) rest
  | .emptyTag name attributes :: rest => ⟨around, name, attributes⟩ :: openings around rest
  | .endTag _ :: rest => openings around.tail rest
  | .text _ :: rest => openings around rest
  | .cdata _ :: rest => openings around rest
  | .skipped :: rest => openings around rest

namespace Opening

/-- The tag itself and the tags around it. -/
def tags (o : Opening) : List (List (String × String)) := o.attributes :: o.around

/-- An attribute of the tag stands for a name: it declares nothing, and its qualifier is bound to
the namespace of the name. -/
def Denotes (o : Opening) (name ns localName : String) : Prop :=
  (∀ qualifier, ¬ Declares name qualifier) ∧ ∃ qualifier,
    ':' ∉ qualifier.toList ∧ name = qualifier ++ ":" ++ localName ∧ Binds o.tags qualifier ns

/-- The names of an element, and those in it, mean what the tags say: its own name, the attributes
that are asked for by their names, and the texts that are taken as names. -/
structure Resolves (o : Opening) (e : Element) : Prop where
  name : ∃ qualifier, IsCut o.name qualifier e.localName ∧
    ∀ ns, e.namespaceName = some ns ↔ Binds o.tags qualifier ns
  attributeIn : ∀ ns localName value, e.attributeIn? ns localName = some value ↔
    ∃ before name after, o.attributes = before ++ (name, value) :: after ∧
      o.Denotes name ns localName ∧ ∀ a ∈ before, ¬ o.Denotes a.1 ns localName
  qualified : ∀ qualifier localName name, ':' ∉ qualifier.toList →
    (e.resolve? (qualifier ++ ":" ++ localName) = some name ↔
      ∃ ns, Binds o.tags qualifier ns ∧ name = ⟨some ns, localName⟩)
  unqualified : ∀ text, ':' ∉ text.toList → ∃ found,
    e.resolve? text = some ⟨found, Text.trim text⟩ ∧ ∀ ns, found = some ns ↔ Binds o.tags "" ns

end Opening

theorem findSome?_filter {α β : Type} (p : α → Bool) (f : α → Option β) (as : List α) :
    (as.filter p).findSome? f = as.findSome? fun a => if p a then f a else none := by
  induction as with
  | nil => rfl
  | cons a rest ih => by_cases ha : p a = true <;> simp [List.findSome?_cons, ha, ih]

/-- The value of an attribute of a tag, where the attribute stands for a name. -/
theorem denotes_iff {o : Opening} {e : Element} (hscope : e.scope = scopeOf o.tags)
    (name value ns localName : String) {found : String} :
    (if (Scope.declared? name).isNone then
        match splitName? name with
        | some (qualifier, loc) =>
          if loc = localName ∧ e.scope.find? qualifier = some ns then some value else none
        | none => none
      else none) = some found ↔ o.Denotes name ns localName ∧ value = found := by
  rw [Opening.Denotes, ← declared?_eq_none_iff, hscope]
  cases hdeclared : Scope.declared? name with
  | some qualifier => simp
  | none =>
    cases hsplit : splitName? name with
    | none =>
      have hnone := splitName?_eq_none_iff.mp hsplit
      simp only [Option.isNone_none, ↓reduceIte, reduceCtorEq, true_and, false_iff, not_and,
        forall_exists_index, and_imp]
      rintro qualifier - rfl
      exact absurd (by simp) hnone
    | some cut =>
      obtain ⟨qualifier, loc⟩ := cut
      simp only [Option.isNone_none, ↓reduceIte, Option.ite_none_right_eq_some, Option.some.injEq,
        true_and, find?_scopeOf o.tags]
      refine and_congr_left fun _ => ⟨?_, ?_⟩
      · rintro ⟨rfl, hbinds⟩
        obtain ⟨hqualifier, hname⟩ := splitName?_eq_some_iff.mp hsplit
        exact ⟨qualifier, hqualifier, hname, hbinds⟩
      · rintro ⟨qualifier', hqualifier, hname, hbinds⟩
        have hcut := splitName?_eq_some_iff.mpr ⟨hqualifier, hname⟩
        obtain ⟨rfl, rfl⟩ := Prod.mk.inj (Option.some.inj (hsplit.symm.trans hcut))
        exact ⟨rfl, hbinds⟩

/-- The element that a tag opens has its names resolved by the tags, whatever its text is. -/
theorem Opening.resolves_tagged (o : Opening) (text : String) :
    o.Resolves { Element.tagged (scopeOf o.around) o.name o.attributes with text := text } where
  name := ⟨qualifierOf o.name, isCut_iff.mpr ⟨rfl, rfl⟩, fun _ => find?_scopeOf o.tags⟩
  attributeIn ns localName value := by
    have hscope : (Element.tagged (scopeOf o.around) o.name o.attributes).scope =
        scopeOf o.tags := rfl
    rw [Element.attributeIn?, Element.tagged, plainAttributes, findSome?_filter,
      List.findSome?_eq_some_iff]
    constructor
    · rintro ⟨before, ⟨name, other⟩, after, hattributes, hfirst, hbefore⟩
      obtain ⟨hdenotes, rfl⟩ := (denotes_iff hscope ..).mp hfirst
      refine ⟨before, name, after, hattributes, hdenotes, fun a ha hearlier => ?_⟩
      have hnone := hbefore a ha
      have hsome := (denotes_iff hscope a.1 a.2 ns localName).mpr ⟨hearlier, rfl⟩
      cases hnone.symm.trans hsome
    · rintro ⟨before, name, after, hattributes, hdenotes, hbefore⟩
      refine ⟨before, (name, value), after, hattributes,
        (denotes_iff hscope ..).mpr ⟨hdenotes, rfl⟩, fun a ha => ?_⟩
      rw [Option.eq_none_iff_forall_ne_some]
      intro found hfound
      exact hbefore a ha ((denotes_iff hscope ..).mp hfound).1
  qualified qualifier localName name hqualifier := by
    have hsplit := splitName?_eq_some_iff.mpr
      ⟨hqualifier, (rfl : qualifier ++ ":" ++ localName = _)⟩
    rw [Element.resolve?, hsplit, Option.map_eq_some_iff]
    simp only [eq_comm (a := name)]
    exact exists_congr fun ns => and_congr_left fun _ => find?_scopeOf o.tags
  unqualified text hcolon := by
    rw [Element.resolve?, splitName?_eq_none_iff.mpr hcolon]
    exact ⟨_, rfl, fun _ => find?_scopeOf o.tags⟩

/-! ## Tags of a document -/

theorem openBehind_append (around : List (List (String × String))) (events events' : List Event) :
    openBehind around (events ++ events') = openBehind (openBehind around events) events' :=
  List.foldl_append

/-- What is open behind some events is around the tags that follow. -/
theorem openings_append (around : List (List (String × String))) (events events' : List Event) :
    openings around (events ++ events') =
      openings around events ++ openings (openBehind around events) events' := by
  induction events generalizing around with
  | nil => rfl
  | cons event rest ih =>
    cases event with
    | startTag name attributes => exact congrArg (List.cons _) (ih _)
    | emptyTag name attributes => exact congrArg (List.cons _) (ih _)
    | _ => exact ih _

mutual

/-- Behind its end a node is no longer open, and nothing inside of it is. -/
theorem openBehind_node (around : List (List (String × String))) (node : Node) :
    openBehind around node.events = around := by
  match node with
  | .element name attributes content =>
    rw [Node.events, ← List.cons_append, openBehind_append]
    have hcontent := openBehind_nodes (attributes :: around) content
    exact congrArg (openBehind · [.endTag name]) hcontent
  | .empty name attributes => rfl
  | .text content => rfl
  | .cdata content => rfl
  | .skipped => rfl

theorem openBehind_nodes (around : List (List (String × String))) (content : List Node) :
    openBehind around (Node.eventsOf content) = around := by
  match content with
  | [] => rfl
  | node :: rest =>
    rw [Node.eventsOf, openBehind_append, openBehind_node around node, openBehind_nodes around rest]

end

/-- The scopes inside of some tags, the innermost first. -/
def scopesOf : List (List (String × String)) → List Scope
  | [] => []
  | attributes :: outer => scopeOf (attributes :: outer) :: scopesOf outer

theorem innermost_scopesOf (around : List (List (String × String))) :
    innermost (scopesOf around) = scopeOf around := by
  cases around <;> rfl

theorem length_scopesOf (around : List (List (String × String))) :
    (scopesOf around).length = around.length := by
  induction around with
  | nil => rfl
  | cons attributes outer ih => rw [scopesOf, List.length_cons, ih, List.length_cons]

/-- A tag is visited at its depth, and as an element whose names the tags resolve. -/
def Opening.IsVisited (o : Opening) (visit : Nat × Element) : Prop :=
  visit.1 = o.around.length ∧ o.Resolves visit.2

theorem Opening.isVisited (o : Opening) (behind : List Event) :
    o.IsVisited (Place.visit ⟨scopesOf o.around, o.name, o.attributes, behind⟩) := by
  refine ⟨length_scopesOf o.around, ?_⟩
  rw [Place.visit, innermost_scopesOf]
  exact o.resolves_tagged _

/-- The names at every place of a document are resolved by the tags there. -/
theorem forall₂_isVisited (around : List (List (String × String))) (events : List Event) :
    List.Forall₂ Opening.IsVisited (openings around events)
      ((tagsOf (scopesOf around) events).map Place.visit) := by
  induction events generalizing around with
  | nil => exact .nil
  | cons event rest ih =>
    cases event with
    | startTag name attributes =>
      have hinner := ih (attributes :: around)
      rw [scopesOf, scopeOf, ← innermost_scopesOf] at hinner
      exact .cons (Opening.isVisited ⟨around, name, attributes⟩ rest) hinner
    | emptyTag name attributes =>
      exact .cons (Opening.isVisited ⟨around, name, attributes⟩ []) (ih around)
    | endTag name =>
      have htail : scopesOf around.tail = (scopesOf around).tail := by cases around <;> rfl
      have houter := ih around.tail
      rw [htail] at houter
      exact houter
    | text content => exact ih around
    | cdata content => exact ih around
    | skipped => exact ih around

/-! ## Unbound qualifiers -/

namespace PartialDocument

variable {d d' : PartialDocument}

/-- The scopes of the open elements, the innermost first. -/
def scopes (d : PartialDocument) : List Scope := d.stack.map (·.tag.scope)

theorem scope_eq (d : PartialDocument) : d.scope = innermost d.scopes := by
  rw [scope, scopes]
  cases d.stack <;> rfl

/-- A closed element that is put into its place leaves the open elements open. -/
theorem scopes_of_attach {e : Element} (h : d.attach e = .ok d') : d'.scopes = d.scopes := by
  obtain ⟨stack, root⟩ := d
  cases stack with
  | nil =>
    cases root with
    | none =>
      obtain rfl := Except.ok.inj h
      rfl
    | some _ => cases h
  | cons o outer =>
    obtain rfl := Except.ok.inj h
    rfl

theorem scopes_of_addText {content : String} (h : d.addText content = .ok d') :
    d'.scopes = d.scopes := by
  obtain ⟨stack, root⟩ := d
  cases stack with
  | nil => rw [(addText_eq_ok h).2]
  | cons o outer =>
    obtain rfl := Except.ok.inj h
    rfl

/-- One event more: the scopes of the open elements are those inside of the tags that are open. -/
theorem scopes_of_step {around : List (List (String × String))} {event : Event}
    (hd : d.scopes = scopesOf around) (h : d.step event = .ok d') :
    d'.scopes = scopesOf (enclosing around event) := by
  cases event with
  | startTag name attributes =>
    obtain ⟨tag, htag, h⟩ := bind_eq_ok_iff.mp h
    obtain ⟨-, rfl⟩ := Element.ofTag_eq_ok_iff.mp htag
    split at h
    · cases h
    · obtain rfl := Except.ok.inj h
      have hscope : d.scope = scopeOf around := by rw [scope_eq, hd, innermost_scopesOf]
      rw [scopes, List.map_cons, hscope]
      exact congrArg (List.cons _) hd
  | emptyTag name attributes =>
    obtain ⟨tag, -, h⟩ := bind_eq_ok_iff.mp h
    exact (scopes_of_attach h).trans hd
  | endTag name =>
    obtain ⟨stack, root⟩ := d
    cases stack with
    | nil => cases h
    | cons o outer =>
      obtain ⟨-, hattach⟩ := step_endTag_eq_ok h
      rw [scopes_of_attach hattach, enclosing]
      cases around with
      | nil => cases hd
      | cons attributes around => exact (List.cons.inj hd).2
  | text content => exact (scopes_of_addText h).trans hd
  | cdata content => exact (scopes_of_addText h).trans hd
  | skipped =>
    obtain rfl := Except.ok.inj h
    exact hd

/-- Behind some events that were read, the scopes are those inside of the tags that are open. -/
theorem scopes_of_foldlM {around : List (List (String × String))} {events : List Event}
    (hd : d.scopes = scopesOf around) (h : events.foldlM step d = .ok d') :
    d'.scopes = scopesOf (openBehind around events) := by
  induction events generalizing d around with
  | nil =>
    obtain rfl := Except.ok.inj h
    exact hd
  | cons event rest ih =>
    obtain ⟨d₁, hstep, hrest⟩ := bind_eq_ok_iff.mp h
    exact ih (scopes_of_step hd hstep) hrest

end PartialDocument

/-- A tag whose qualifier is not bound opens no element. -/
theorem Element.ofTag_of_unbound {outer : Scope} {name qualifier localName : String}
    {attributes : List (String × String)} (hcut : IsCut name qualifier localName)
    (hqualifier : qualifier ≠ "") (hfind : (outer.enter attributes).find? qualifier = none) :
    Element.ofTag outer name attributes = .error (.unboundQualifier qualifier name) := by
  obtain ⟨rfl, -⟩ := isCut_iff.mp hcut
  have hsplit : (splitName? name).getD ("", name) = (qualifierOf name, localNameOf name) := rfl
  rw [Element.ofTag, hsplit]
  simp only [hfind, if_neg hqualifier]

/-- Reading fails at a tag whose qualifier is not bound, or before it. -/
theorem ofScan_of_unbound {s : Scan} {before after : List Event} {event : Event}
    {name qualifier localName : String} {attributes : List (String × String)}
    (hevents : s.events = before ++ event :: after)
    (hevent : event = .startTag name attributes ∨ event = .emptyTag name attributes)
    (hcut : IsCut name qualifier localName) (hqualifier : qualifier ≠ "")
    (hunbound : ∀ ns, ¬ Binds (attributes :: openBehind [] before) qualifier ns) :
    ∃ cause, Element.ofScan s = .error cause ∧
      (cause = .unboundQualifier qualifier name ∨
        before.foldlM PartialDocument.step .start = .error cause) := by
  rw [Element.ofScan, hevents, List.foldlM_append]
  cases hbefore : before.foldlM PartialDocument.step .start with
  | error cause => exact ⟨cause, rfl, .inr rfl⟩
  | ok d =>
    have hstart : PartialDocument.start.scopes = scopesOf [] := rfl
    have hscope : d.scope = scopeOf (openBehind [] before) := by
      rw [PartialDocument.scope_eq, PartialDocument.scopes_of_foldlM hstart hbefore,
        innermost_scopesOf]
    have hfind : (d.scope.enter attributes).find? qualifier = none := by
      rw [hscope, Option.eq_none_iff_forall_ne_some]
      exact fun ns hns => hunbound ns ((find?_scopeOf (attributes :: openBehind [] before)).mp hns)
    have hstep : d.step event = .error (.unboundQualifier qualifier name) := by
      have htag := Element.ofTag_of_unbound hcut hqualifier hfind
      rcases hevent with rfl | rfl
      · rw [PartialDocument.step, htag, error_bind]
      · rw [PartialDocument.step, htag, error_bind]
    rw [ok_bind, List.foldlM_cons, hstep]
    exact ⟨_, rfl, .inl rfl⟩

/-! ## Documents -/

/-- The events in the bytes of a document, up to its first fault. -/
def eventsIn (bytes : List UInt8) : List Event :=
  match Text.Utf8.decode? bytes with
  | some text => (scan (dropMark (dropMark text.toList))).events
  | none => []

/-- Bytes are read as a scan of their events. -/
theorem exists_ofScan_eq {bytes : List UInt8} {text : String}
    (h : Text.Utf8.decode? bytes = some text) :
    ∃ s : Scan, s.events = eventsIn bytes ∧ Element.ofBytes bytes = Element.ofScan s := by
  refine ⟨scan (dropMark (dropMark text.toList)), ?_, ?_⟩
  · rw [eventsIn, h]
  · rw [Element.ofBytes, h]
    rfl

/-- Namespaces are scoped by elements. In a document that is read, the elements of the tree are the
start and empty tags in the order in which they are written, and the names of each one mean what the
nearest declarations in its own tag and in those of the elements around it say. A tag whose
qualifier these do not bind makes reading fail, unless it fails before. What an element declares,
and what is declared inside of it, is around none of the tags outside of it: without the element
they have the same tags around them. -/
theorem ofBytes_resolves (bytes : List UInt8) :
    (∀ root, Element.ofBytes bytes = .ok root →
      List.Forall₂ Opening.IsVisited (openings [] (eventsIn bytes)) (root.walk 0)) ∧
    (∀ before event after name attributes qualifier localName,
      eventsIn bytes = before ++ event :: after →
      (event = .startTag name attributes ∨ event = .emptyTag name attributes) →
      IsCut name qualifier localName → qualifier ≠ "" →
      (∀ ns, ¬ Binds (attributes :: openBehind [] before) qualifier ns) →
      ∃ cause, Element.ofBytes bytes = .error cause ∧
        (cause = .unboundQualifier qualifier name ∨
          before.foldlM PartialDocument.step .start = .error cause)) ∧
    ∀ before (node : Node) after, eventsIn bytes = before ++ node.events ++ after →
      openings [] (eventsIn bytes) = openings [] before ++
        openings (openBehind [] before) node.events ++ openings (openBehind [] before) after ∧
      openings [] (before ++ after) =
        openings [] before ++ openings (openBehind [] before) after := by
  refine ⟨fun root hroot => ?_, ?_, fun before node after hevents => ⟨?_, ?_⟩⟩
  · cases htext : Text.Utf8.decode? bytes with
    | none =>
      rw [Element.ofBytes, htext] at hroot
      cases hroot
    | some text =>
      obtain ⟨s, hs, heq⟩ := exists_ofScan_eq htext
      obtain ⟨-, hevents⟩ := Element.ofScan_eq_ok_iff.mp (heq.symm.trans hroot)
      obtain ⟨before, node, after, hbefore, hafter, -, he, hall⟩ :=
        Element.ofEvents_eq_ok_iff.mp hevents
      have hvisits := map_visit_document hbefore hafter he
      rw [← hall] at hvisits
      rw [← hs, ← hvisits]
      exact forall₂_isVisited [] s.events
  · intro before event after name attributes qualifier localName hevents
    cases htext : Text.Utf8.decode? bytes with
    | none =>
      rw [eventsIn, htext] at hevents
      exact absurd hevents (by simp)
    | some text =>
      obtain ⟨s, hs, heq⟩ := exists_ofScan_eq htext
      rw [heq]
      exact ofScan_of_unbound (hs.trans hevents)
  · rw [hevents, openings_append, openings_append, openBehind_append, openBehind_node]
  · exact openings_append [] before after

/-- A root with two elements inside, of which the first one takes the binding of `a` away and
declares the default namespace twice. -/
def shadowingBytes : List UInt8 :=
  "<a:r xmlns:a='u' xmlns='v'><b xmlns:a='' xmlns='' xmlns:='w'/><a:c/></a:r>".toUTF8.toList

/-- The attributes of its root. -/
def shadowedAttributes : List (String × String) := [("xmlns:a", "u"), ("xmlns", "v")]

/-- The attributes of the first element inside. -/
def shadowingAttributes : List (String × String) :=
  [("xmlns:a", ""), ("xmlns", ""), ("xmlns:", "w")]

/-- A root with an element inside that takes the binding of its own qualifier away. -/
def unboundBytes : List UInt8 := "<a xmlns:b='u'><b:c xmlns:b=''/></a>".toUTF8.toList

/-- The second element inside of the root is in the namespace that the root declares. Where an
element takes the binding of its own qualifier away there is no root. -/
theorem ofBytes_resolves_shadowing :
    (∃ root, Element.ofBytes shadowingBytes = .ok root ∧
      (root.walk 0).map (fun visit => (visit.2.namespaceName, visit.2.localName)) =
        [(some "u", "r"), (some "w", "b"), (some "u", "c")] ∧
      List.Forall₂ Opening.IsVisited
        [⟨[], "a:r", shadowedAttributes⟩, ⟨[shadowedAttributes], "b", shadowingAttributes⟩,
          ⟨[shadowedAttributes], "a:c", []⟩]
        (root.walk 0)) ∧
    Element.ofBytes unboundBytes = .error (.unboundQualifier "b" "b:c") := by
  constructor
  · have hevents : eventsIn shadowingBytes = [.startTag "a:r" shadowedAttributes] ++
        (Node.empty "b" shadowingAttributes).events ++ [.emptyTag "a:c" [], .endTag "a:r"] := by
      decide +kernel
    have hnames : (Element.ofBytes shadowingBytes).toOption.map (fun root =>
        (root.walk 0).map fun visit => (visit.2.namespaceName, visit.2.localName)) =
          some [(some "u", "r"), (some "w", "b"), (some "u", "c")] := by
      decide +kernel
    obtain ⟨hvisited, -, hbehind⟩ := ofBytes_resolves shadowingBytes
    cases hroot : Element.ofBytes shadowingBytes with
    | error cause =>
      rw [hroot] at hnames
      cases hnames
    | ok root =>
      rw [hroot] at hnames
      have hall := hvisited root hroot
      rw [(hbehind _ _ _ hevents).1] at hall
      exact ⟨root, rfl, Option.some.inj hnames, hall⟩
  · have hevents : eventsIn unboundBytes = [.startTag "a" [("xmlns:b", "u")]] ++
        .emptyTag "b:c" [("xmlns:b", "")] :: [.endTag "a"] := by
      decide +kernel
    have hfind : (scopeOf [[("xmlns:b", "")], [("xmlns:b", "u")]]).find? "b" = none := by decide
    have hunbound : ∀ ns, ¬ Binds [[("xmlns:b", "")], [("xmlns:b", "u")]] "b" ns := by
      intro ns hns
      exact nomatch hfind.symm.trans ((find?_scopeOf _).mpr hns)
    obtain ⟨-, hfails, -⟩ := ofBytes_resolves unboundBytes
    obtain ⟨cause, hcause, rfl | hbefore⟩ :=
      hfails _ _ _ _ _ "b" "c" hevents (.inr rfl) (.inl ⟨by decide, rfl⟩) (by decide) hunbound
    · exact hcause
    · cases hbefore

end SoapClient.Xml
