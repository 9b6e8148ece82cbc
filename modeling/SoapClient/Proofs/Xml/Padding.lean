import SoapClient.Proofs.Value.Coercion
import SoapClient.Proofs.Xml.LeafText
import SoapClient.Proofs.Xml.Scoping

/-!
# Blanks around names

Blanks around a name without a qualifier do not count (`resolve?_padded_unqualified`). Those around
a name with a qualifier do: behind it they belong to the local name, and in front of it to the
qualifier, which is not bound then (`resolve?_padded_qualified`). For no blank of markup stands in
the name of an attribute (`isTight_scan`), and so none in a qualifier that is declared somewhere.
Main statement: which texts stand for the same with blanks around them (`resolve?_padded_iff`).
-/

namespace SoapClient

/-! ## Trimming -/

namespace Text

theorem dropBlanks_append_of_blank {front : List Char} (h : ∀ c ∈ front, isBlank c)
    (cs : List Char) : dropBlanks (front ++ cs) = dropBlanks cs :=
  List.dropWhile_append_of_pos h

theorem dropBlanksEnd_append_of_blank (cs : List Char) {back : List Char}
    (h : ∀ c ∈ back, isBlank c) : dropBlanksEnd (cs ++ back) = dropBlanksEnd cs := by
  have hback : ∀ c ∈ back.reverse, isBlank c := fun c hc => h c (List.mem_reverse.mp hc)
  rw [dropBlanksEnd, List.reverse_append, dropBlanks_append_of_blank hback, dropBlanksEnd]

/-- Blanks around a text are cut off with those that it has itself. -/
theorem trim_padded {front back : String} (hfront : isBlankText front) (hback : isBlankText back)
    (text : String) : trim (front ++ text ++ back) = trim text := by
  have hf : ∀ c ∈ front.toList, isBlank c := List.all_eq_true.mp hfront
  have hb : ∀ c ∈ back.toList, isBlank c := List.all_eq_true.mp hback
  have htrim : trimChars (front.toList ++ text.toList ++ back.toList) = trimChars text.toList := by
    rw [List.append_assoc, trimChars, dropBlanks_append_of_blank hf, trimChars]
    by_cases htext : dropBlanks text.toList = []
    · -- nothing but blanks is left
      have hall : dropBlanks (text.toList ++ back.toList) = [] := by
        rw [dropBlanks_eq_nil_iff, List.all_append, (dropBlanks_eq_nil_iff _).mp htext]
        exact hback
      rw [hall, htext]
    · have hsplit : dropBlanks (text.toList ++ back.toList) =
          dropBlanks text.toList ++ back.toList := by
        rw [dropBlanks, List.dropWhile_append, if_neg (by rwa [List.isEmpty_iff])]
        rfl
      rw [hsplit, dropBlanksEnd_append_of_blank _ hb]
  rw [trim, String.toList_append, String.toList_append, htrim, trim]

end Text

namespace Xml

/-! ## Names of attributes -/

/-- No blank of markup stands in the names of some attributes. -/
def AreTight (attributes : List (String × String)) : Prop :=
  ∀ a ∈ attributes, ∀ c ∈ a.1.toList, isSpace c = false

/-- An event whose attributes have such names. -/
def Event.IsTight : Event → Prop
  | .startTag _ attributes => AreTight attributes
  | .emptyTag _ attributes => AreTight attributes
  | _ => True

/-- The name of an attribute ends before the first blank. -/
theorem not_isSpace_of_readAttribute? {c : Char} {cs name value rest : List Char}
    (hc : isSpace c = false) (h : readAttribute? (c :: cs) = some ((name, value), rest)) :
    ∀ d ∈ name, isSpace d = false := by
  have hname : name = c :: cs.takeWhile fun d => !(decide (d = '=') || isSpace d) := by
    unfold readAttribute? at h
    dsimp only at h
    split at h
    · split at h
      · split at h
        · obtain ⟨cut, -, heq⟩ := Option.map_eq_some_iff.mp h
          exact (Prod.mk.inj (Prod.mk.inj heq).1).1.symm
        · cases h
      · cases h
    · cases h
  rw [hname, List.forall_mem_cons]
  refine ⟨hc, fun d hd => ?_⟩
  -- only what is neither `=` nor a blank was taken
  have hkeep := List.all_eq_true.mp List.all_takeWhile d hd
  rw [Bool.not_eq_true', Bool.or_eq_false_iff] at hkeep
  exact hkeep.2

theorem areTight_of_readAttributes? {earlier : List (List Char)} {cs : List Char}
    {attributes : List (String × String)} (h : readAttributes? earlier cs = some attributes) :
    AreTight attributes := by
  fun_induction readAttributes? earlier cs generalizing attributes with
  | case1 earlier cs hdrop =>
    obtain rfl := Option.some.inj h
    exact List.forall_mem_nil _
  | case4 earlier cs c rest hdrop name value rest' hread _ _ _ others hothers _ ih =>
    obtain rfl := Option.some.inj h
    -- the blanks in front of the name were dropped
    have hc : isSpace c = false := by
      have hhead := List.head?_dropWhile_not isSpace cs
      rw [hdrop] at hhead
      simpa using hhead
    refine List.forall_mem_cons.mpr ⟨?_, ih hothers⟩
    rw [String.toList_ofList]
    exact not_isSpace_of_readAttribute? hc hread
  | _ => cases h

theorem isTight_of_tagEvent? {tag : List Char} {event : Event} (h : tagEvent? tag = some event) :
    event.IsTight := by
  unfold tagEvent? at h
  split at h
  · obtain rfl := Option.some.inj h
    trivial
  · obtain ⟨attributes, hattributes, rfl⟩ := Option.map_eq_some_iff.mp h
    have htight := areTight_of_readAttributes? hattributes
    split
    · exact htight
    · exact htight

/-- Sections, comments and document types have no attributes. -/
theorem isTight_of_section {cs rest : List Char} {event : Event}
    (h : readCdata? cs = some (event, rest) ∨ readComment? cs = some (event, rest) ∨
      readDoctype? cs = some (event, rest)) : event.IsTight := by
  obtain h | h | h := h
  · unfold readCdata? at h
    split at h
    · obtain ⟨cut, -, heq⟩ := Option.map_eq_some_iff.mp h
      obtain ⟨rfl, -⟩ := Prod.mk.inj heq
      trivial
    · cases h
  · unfold readComment? at h
    split at h
    · obtain ⟨cut, -, heq⟩ := Option.map_eq_some_iff.mp h
      obtain ⟨rfl, -⟩ := Prod.mk.inj heq
      trivial
    · cases h
  · unfold readDoctype? at h
    split at h
    · split at h
      · obtain ⟨rfl, -⟩ := Prod.mk.inj (Option.some.inj h)
        trivial
      · cases h
    · cases h

theorem isTight_of_readMarkup? {cs rest : List Char} {event : Event}
    (h : readMarkup? cs = some (event, rest)) : event.IsTight := by
  unfold readMarkup? at h
  split at h
  · split at h
    · exact isTight_of_section (.inl h)
    · exact isTight_of_section (.inr (.inl h))
    · exact isTight_of_section (.inr (.inr h))
    · exact isTight_of_section (.inr (.inr h))
    · cases h
  · unfold readInstruction? at h
    split at h
    · cases h
    · obtain ⟨cut, -, heq⟩ := Option.map_eq_some_iff.mp h
      obtain ⟨rfl, -⟩ := Prod.mk.inj heq
      trivial
  · split at h
    · obtain ⟨tagged, htag, heq⟩ := Option.map_eq_some_iff.mp h
      obtain ⟨rfl, -⟩ := Prod.mk.inj heq
      exact isTight_of_tagEvent? htag
    · cases h

theorem isTight_of_readEvent? {cs rest : List Char} {event : Event}
    (h : readEvent? cs = some (event, rest)) : event.IsTight := by
  unfold readEvent? at h
  split at h
  · cases h
  · exact isTight_of_readMarkup? h
  · obtain ⟨content, -, heq⟩ := Option.map_eq_some_iff.mp h
    obtain ⟨rfl, -⟩ := Prod.mk.inj heq
    trivial

/-- No blank of markup stands in the name of an attribute of a document. -/
theorem isTight_scan (cs : List Char) : ∀ event ∈ (scan cs).events, event.IsTight := by
  fun_induction scan cs with
  | case1 => exact List.forall_mem_nil _
  | case2 c cs _ => exact List.forall_mem_nil _
  | case3 c cs event rest hread _ _ ih =>
    exact List.forall_mem_cons.mpr ⟨isTight_of_readEvent? hread, ih⟩

/-! ## Qualifiers -/

/-- A qualifier is a part of the name of the attribute that declares it. -/
theorem not_isSpace_of_declares {name qualifier : String} (h : Declares name qualifier)
    (hname : ∀ c ∈ name.toList, isSpace c = false) : ∀ c ∈ qualifier.toList, isSpace c = false := by
  intro c hc
  obtain ⟨-, rfl⟩ | rfl := h
  · cases hc
  · refine hname c ?_
    rw [String.toList_append]
    exact List.mem_append_right _ hc

/-- No blank of markup stands in a qualifier that some tags bind. -/
theorem not_isSpace_of_binds {tags : List (List (String × String))}
    (htags : ∀ attributes ∈ tags, AreTight attributes) {qualifier ns : String}
    (h : Binds tags qualifier ns) : ∀ c ∈ qualifier.toList, isSpace c = false := by
  obtain ⟨hnearest, -⟩ := h
  -- on the tags from the inside: one of them declares the qualifier, or it is `xml`
  induction hnearest with
  | here hlast =>
    obtain ⟨before, name, after, rfl, hdeclares, -⟩ := hlast
    have hname := htags _ List.mem_cons_self (name, _) (List.mem_append_right _ List.mem_cons_self)
    exact not_isSpace_of_declares hdeclares hname
  | further _ _ ih => exact ih (List.forall_mem_cons.mp htags).2
  | outermost hxml =>
    subst hxml
    simp [isSpace]

/-- The attributes of a tag of a document, and of those around it, have names without blanks. -/
theorem forall_areTight_openings {events : List Event} (hevents : ∀ event ∈ events, event.IsTight)
    {around : List (List (String × String))}
    (haround : ∀ attributes ∈ around, AreTight attributes) :
    ∀ o ∈ openings around events, ∀ attributes ∈ o.tags, AreTight attributes := by
  -- on the events: a start tag is around those behind it, until an end tag takes it away
  induction events generalizing around with
  | nil => exact List.forall_mem_nil _
  | cons event rest ih =>
    obtain ⟨hevent, hrest⟩ := List.forall_mem_cons.mp hevents
    cases event with
    | startTag name attributes =>
      have htags : ∀ a ∈ attributes :: around, AreTight a :=
        List.forall_mem_cons.mpr ⟨hevent, haround⟩
      exact List.forall_mem_cons.mpr ⟨htags, ih hrest htags⟩
    | emptyTag name attributes =>
      exact List.forall_mem_cons.mpr ⟨List.forall_mem_cons.mpr ⟨hevent, haround⟩, ih hrest haround⟩
    | endTag name => exact ih hrest fun a ha => haround a (List.mem_of_mem_tail ha)
    | _ => exact ih hrest haround

/-! ## Elements of a document -/

namespace Element

mutual

/-- A walk visits the elements of a tree without their children. -/
theorem map_snd_walk (e : Element) (depth : Nat) :
    (e.walk depth).map (·.2) = e.subtrees.map fun d => { d with children := [] } := by
  match e with
  | ⟨_, _, _, _, children, _⟩ =>
    rw [walk, subtrees, List.map_cons, List.map_cons, map_snd_walkAll children]

theorem map_snd_walkAll (es : List Element) (depth : Nat) :
    (walkAll depth es).map (·.2) = (subtreesAll es).map fun d => { d with children := [] } := by
  match es with
  | [] => rfl
  | e :: rest =>
    rw [walkAll, subtreesAll, List.map_append, List.map_append, map_snd_walk e,
      map_snd_walkAll rest]

end

/-- The names in an element of a document mean what the tag that opens it and those around it say,
and no blank of markup stands in the names of the attributes of these. -/
theorem exists_opening_of_ofBytes {bytes : List UInt8} {root e : Element}
    (h : Element.ofBytes bytes = .ok root) (he : e ∈ root.subtrees) :
    ∃ o : Opening, o.Resolves { e with children := [] } ∧
      ∀ attributes ∈ o.tags, AreTight attributes := by
  obtain ⟨text, htext⟩ : ∃ text, Text.Utf8.decode? bytes = some text := by
    rw [← Option.isSome_iff_exists]
    by_contra hnone
    rw [Element.ofBytes, Option.not_isSome_iff_eq_none.mp hnone] at h
    cases h
  have hscan : Element.ofScan (scan (dropMark (dropMark text.toList))) = .ok root := by
    rwa [Element.ofBytes, htext] at h
  obtain ⟨-, hevents⟩ := Element.ofScan_eq_ok_iff.mp hscan
  obtain ⟨before, node, after, hbefore, hafter, -, hroot, hall⟩ :=
    Element.ofEvents_eq_ok_iff.mp hevents
  have hvisits := forall₂_isVisited [] (before ++ node.events ++ after)
  rw [scopesOf, map_visit_document hbefore hafter hroot] at hvisits
  have hmem : { e with children := [] } ∈ (root.walk 0).map (·.2) := by
    rw [map_snd_walk]
    exact List.mem_map_of_mem he
  obtain ⟨visit, hvisit, hsame⟩ := List.mem_map.mp hmem
  obtain ⟨o, ho, -, hresolves⟩ := exists_of_forall₂_right hvisits hvisit
  have htight : ∀ event ∈ before ++ node.events ++ after, event.IsTight :=
    hall ▸ isTight_scan _
  refine ⟨o, ?_, forall_areTight_openings htight (List.forall_mem_nil _) o ho⟩
  rwa [hsame] at hresolves

/-- Blanks around a name without a qualifier do not count. -/
theorem resolve?_padded_unqualified (e : Element) {text front back : String}
    (htext : ':' ∉ text.toList) (hfront : Text.isBlankText front) (hback : Text.isBlankText back) :
    e.resolve? (front ++ text ++ back) = e.resolve? text := by
  have hpadded : ':' ∉ (front ++ text ++ back).toList := by
    have hblank : ∀ s : String, Text.isBlankText s → ':' ∉ s.toList := fun s hs hcolon =>
      absurd (List.all_eq_true.mp hs ':' hcolon) (by decide)
    rw [String.toList_append, String.toList_append, List.mem_append, List.mem_append, not_or,
      not_or]
    exact ⟨⟨hblank front hfront, htext⟩, hblank back hback⟩
  rw [resolve?, resolve?, splitName?_eq_none_iff.mpr hpadded, splitName?_eq_none_iff.mpr htext]
  dsimp only
  rw [Text.trim_padded hfront hback]

end Element

/-- No characters but blanks of markup. -/
def AreSpaces (text : String) : Prop := ∀ c ∈ text.toList, isSpace c = true

instance (text : String) : Decidable (AreSpaces text) :=
  List.decidableBAll _ text.toList

theorem AreSpaces.isBlankText {text : String} (h : AreSpaces text) : Text.isBlankText text := by
  refine List.all_eq_true.mpr fun c hc => ?_
  have hspace := h c hc
  simp only [isSpace, Bool.or_eq_true, decide_eq_true_eq] at hspace
  obtain ((rfl | rfl) | rfl) | rfl := hspace <;> decide

namespace Element

/-- In a document that is read, blanks in front of a name with a qualifier unbind the qualifier, and
those behind it belong to the local name. -/
theorem resolve?_padded_qualified {bytes : List UInt8} {root e : Element}
    (h : Element.ofBytes bytes = .ok root) (he : e ∈ root.subtrees)
    {qualifier localName front back : String} (hqualifier : ':' ∉ qualifier.toList)
    (hfront : AreSpaces front) :
    e.resolve? (front ++ (qualifier ++ ":" ++ localName) ++ back) =
      if front = "" then
        (e.resolve? (qualifier ++ ":" ++ localName)).map fun name =>
          ⟨name.namespaceName, name.localName ++ back⟩
      else none := by
  obtain ⟨o, hresolves, htight⟩ := exists_opening_of_ofBytes h he
  have hspell : front ++ (qualifier ++ ":" ++ localName) ++ back =
      (front ++ qualifier) ++ ":" ++ (localName ++ back) := by
    simp only [String.append_assoc]
  have hcolon : ':' ∉ (front ++ qualifier).toList := by
    rw [String.toList_append, List.mem_append, not_or]
    exact ⟨fun hc => absurd (hfront ':' hc) (by decide), hqualifier⟩
  -- the scope of an element does not depend on its children
  have hqualified : ∀ name,
      e.resolve? ((front ++ qualifier) ++ ":" ++ (localName ++ back)) = some name ↔
        ∃ ns, Binds o.tags (front ++ qualifier) ns ∧ name = ⟨some ns, localName ++ back⟩ :=
    fun name => hresolves.qualified _ _ name hcolon
  have hplain : ∀ name, e.resolve? (qualifier ++ ":" ++ localName) = some name ↔
      ∃ ns, Binds o.tags qualifier ns ∧ name = ⟨some ns, localName⟩ :=
    fun name => hresolves.qualified _ _ name hqualifier
  rw [hspell]
  split
  · subst front
    rw [String.empty_append] at hqualified ⊢
    refine Option.ext fun name => (hqualified name).trans ?_
    simp only [Option.map_eq_some_iff, hplain]
    constructor
    · rintro ⟨ns, hbinds, rfl⟩
      exact ⟨_, ⟨ns, hbinds, rfl⟩, rfl⟩
    · rintro ⟨_, ⟨ns, hbinds, rfl⟩, rfl⟩
      exact ⟨ns, hbinds, rfl⟩
  · -- a qualifier that starts with a blank is not bound
    next hne =>
    rw [Option.eq_none_iff_forall_ne_some]
    intro name hname
    obtain ⟨ns, hbinds, -⟩ := (hqualified name).mp hname
    obtain ⟨c, hc⟩ := List.exists_mem_of_ne_nil front.toList fun hnil =>
      hne (String.toList_eq_nil_iff.mp hnil)
    have hspace := not_isSpace_of_binds htight hbinds c
      (String.toList_append ▸ List.mem_append_left _ hc)
    rw [hfront c hc] at hspace
    cases hspace

/-- A text that stands for the same with blanks around it: a name without a qualifier, or one that
stands for nothing. -/
def IgnoresBlanks (e : Element) (text : String) : Prop :=
  ':' ∉ text.toList ∨ e.resolve? text = none

/-- In a document that is read, blanks around a name with a qualifier always change what it stands
for, if it stands for anything. -/
theorem resolve?_padded_iff {bytes : List UInt8} {root e : Element}
    (h : Element.ofBytes bytes = .ok root) (he : e ∈ root.subtrees) {text front back : String}
    (hfront : AreSpaces front) (hback : AreSpaces back) :
    e.resolve? (front ++ text ++ back) = e.resolve? text ↔
      e.IgnoresBlanks text ∨ (front = "" ∧ back = "") := by
  rw [IgnoresBlanks]
  cases hsplit : splitName? text with
  | none =>
    have hcolon := splitName?_eq_none_iff.mp hsplit
    have hsame := resolve?_padded_unqualified e hcolon hfront.isBlankText hback.isBlankText
    exact iff_of_true hsame (.inl (.inl hcolon))
  | some cut =>
    obtain ⟨qualifier, localName⟩ := cut
    obtain ⟨hqualifier, rfl⟩ := splitName?_eq_some_iff.mp hsplit
    have hcolon : ':' ∈ (qualifier ++ ":" ++ localName).toList := by simp
    rw [resolve?_padded_qualified h he hqualifier hfront]
    by_cases hempty : front = ""
    · cases e.resolve? (qualifier ++ ":" ++ localName) with
      | none => simp [hempty]
      | some name =>
        obtain ⟨found, loc⟩ := name
        simp [hempty]
    · rw [if_neg hempty, eq_comm]
      simp [hempty, hqualifier]

end Element

end Xml

end SoapClient
