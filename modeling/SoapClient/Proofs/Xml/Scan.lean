import Mathlib.Tactic.SplitIfs
import SoapClient.Proofs.Xml.Name
import SoapClient.Xml.Markup

/-!
# Scanning what was written

Main statement: the scan of rendered markup gives the events of the markup, whatever the texts and
attribute values hold, and goes on behind it (`scan_render`).
-/

namespace SoapClient.Xml

/-! ## References -/

/-- A reference at the front is resolved where it is closed and known. -/
theorem resolveReferences?_reference (name : List Char) {c : Char} (hname : ';' ∉ name)
    (hc : referencedChar? name = some c) (cs : List Char) :
    resolveReferences? ('&' :: name ++ ';' :: cs) = (resolveReferences? cs).map (c :: ·) := by
  have hcut : Text.cutAt ';' (name ++ ';' :: cs) = some (name, cs) := Text.cutAt_append cs hname
  rw [List.cons_append, resolveReferences?]
  simp only [↓reduceIte]
  split
  · next name' rest h =>
    rw [hcut] at h
    obtain ⟨rfl, rfl⟩ := Prod.mk.inj (Option.some.inj h)
    rw [hc]
    cases resolveReferences? cs <;> rfl
  · next h => rw [hcut] at h; cases h

/-- Any other character stands for itself. -/
theorem resolveReferences?_cons {c : Char} (hc : c ≠ '&') (cs : List Char) :
    resolveReferences? (c :: cs) = (resolveReferences? cs).map (c :: ·) := by
  rw [resolveReferences?, if_neg hc]

/-- An escaped character is read as the character. -/
theorem resolveReferences?_escapeChar (c : Char) (cs : List Char) :
    resolveReferences? (escapeChar c ++ cs) = (resolveReferences? cs).map (c :: ·) := by
  unfold escapeChar
  split
  · next h => subst h; exact resolveReferences?_reference "lt".toList (by decide) rfl cs
  · split
    · next h =>
      subst h; exact resolveReferences?_reference "gt".toList (by decide) rfl cs
    · split
      · next h =>
        subst h; exact resolveReferences?_reference "amp".toList (by decide) rfl cs
      · next hamp =>
        split
        · next h =>
          subst h; exact resolveReferences?_reference "apos".toList (by decide) rfl cs
        · split
          · next h =>
            subst h
            exact resolveReferences?_reference "quot".toList (by decide) rfl cs
          · exact resolveReferences?_cons hamp cs

/-- What was escaped is read back. -/
theorem resolveReferences?_escape (cs : List Char) : resolveReferences? (escape cs) = some cs := by
  induction cs with
  | nil => rw [escape, List.flatMap_nil, resolveReferences?]
  | cons c cs ih =>
    rw [escape, List.flatMap_cons, resolveReferences?_escapeChar]
    rw [escape] at ih
    rw [ih]
    rfl

/-- The characters that are escaped do not stand in what was escaped, the ampersand apart. -/
theorem notMem_escape {d : Char} (hd : d ∈ ['<', '>', '\'', '"']) (cs : List Char) :
    d ∉ escape cs := by
  intro hmem
  rw [escape, List.mem_flatMap] at hmem
  obtain ⟨c, -, hc⟩ := hmem
  -- each branch leaves a concrete list, but for the last, where `c` is none of the four
  simp only [List.mem_cons, List.not_mem_nil, or_false] at hd
  unfold escapeChar at hc
  split_ifs at hc with h₁ h₂ h₃ h₄ h₅
  all_goals rcases hd with rfl | rfl | rfl | rfl
  all_goals first
    | exact absurd hc (by decide)
    | (rw [List.mem_singleton] at hc; subst hc; contradiction)

theorem escape_ne_nil {cs : List Char} (h : cs ≠ []) : escape cs ≠ [] := by
  intro hnil
  have hread := resolveReferences?_escape cs
  rw [hnil, resolveReferences?] at hread
  exact h (Option.some.inj hread).symm

/-! ## Tags -/

/-- Outside of quotes a tag goes on over characters that are neither quotes nor its end. -/
theorem cutTag_append {xs : List Char} (hxs : ∀ c ∈ xs, c ≠ '>' ∧ c ≠ '"' ∧ c ≠ '\'')
    (cs : List Char) :
    cutTag none (xs ++ cs) = (cutTag none cs).map fun (tag, rest) => (xs ++ tag, rest) := by
  induction xs with
  | nil => simp
  | cons x xs ih =>
    obtain ⟨hgt, hquot, hapos⟩ := hxs x List.mem_cons_self
    have hrest : ∀ c ∈ xs, c ≠ '>' ∧ c ≠ '"' ∧ c ≠ '\'' :=
      fun c hc => hxs c (List.mem_cons_of_mem x hc)
    rw [List.cons_append, cutTag]
    simp only [hgt, hquot, hapos, ↓reduceIte, or_self, ih hrest, Option.map_map]
    rfl

/-- Inside of quotes a tag goes on up to the closing quote. -/
theorem cutTag_quoted {v : List Char} (hv : '"' ∉ v) (cs : List Char) :
    cutTag (some '"') (v ++ '"' :: cs) =
      (cutTag none cs).map fun (tag, rest) => (v ++ '"' :: tag, rest) := by
  induction v with
  | nil => simp [cutTag]
  | cons x v ih =>
    rw [List.mem_cons, not_or] at hv
    rw [List.cons_append, cutTag]
    simp only [Ne.symm hv.1, ↓reduceIte, ih hv.2, Option.map_map]
    rfl

/-- The attributes of a tag: names that the scanner takes as such, none of them twice. -/
structure AreWrittenAttributes (attributes : List (String × String)) : Prop where
  names : ∀ a ∈ attributes, IsWrittenName a.1.toList
  nodup : (attributes.map (·.1)).Nodup

namespace AreWrittenAttributes

theorem nil : AreWrittenAttributes [] := ⟨by simp, by simp⟩

theorem tail {a : String × String} {attributes : List (String × String)}
    (h : AreWrittenAttributes (a :: attributes)) : AreWrittenAttributes attributes :=
  ⟨fun b hb => h.names b (List.mem_cons_of_mem a hb), (List.nodup_cons.mp h.nodup).2⟩

end AreWrittenAttributes

/-- A tag goes on over its attributes. -/
theorem cutTag_renderAttributes {attributes : List (String × String)}
    (h : AreWrittenAttributes attributes) (cs : List Char) :
    cutTag none (Markup.renderAttributes attributes ++ cs) =
      (cutTag none cs).map fun (tag, rest) =>
        (Markup.renderAttributes attributes ++ tag, rest) := by
  induction attributes with
  | nil => simp [Markup.renderAttributes]
  | cons a attributes ih =>
    obtain ⟨name, value⟩ := a
    have hname : IsWrittenName name.toList := h.names (name, value) List.mem_cons_self
    have hfront : ∀ c ∈ ' ' :: (name.toList ++ ['=']), c ≠ '>' ∧ c ≠ '"' ∧ c ≠ '\'' := by
      intro c hc
      rw [List.mem_cons, List.mem_append, List.mem_singleton] at hc
      rcases hc with rfl | hc | rfl
      · decide
      · exact hname.goesOn c hc
      · decide
    have hvalue : '"' ∉ escape value.toList := notMem_escape (by decide) _
    have hshape : Markup.renderAttributes ((name, value) :: attributes) ++ cs =
        ' ' :: (name.toList ++ ['=']) ++
          '"' :: (escape value.toList ++ '"' :: (Markup.renderAttributes attributes ++ cs)) := by
      simp [Markup.renderAttributes]
    -- over the name, over the quoted value, and then over the other attributes
    rw [hshape, cutTag_append hfront, cutTag]
    simp only [Char.reduceEq, ↓reduceIte, true_or, cutTag_quoted hvalue, ih h.tail, Option.map_map]
    congr 1
    funext p
    simp [Markup.renderAttributes]

/-- An attribute that was written is read back. -/
theorem readAttribute?_append {name value : List Char} (hname : IsWrittenName name)
    (hvalue : '"' ∉ value) (cs : List Char) :
    readAttribute? (name ++ '=' :: '"' :: value ++ '"' :: cs) = some ((name, value), cs) := by
  obtain ⟨c, name, rfl, -⟩ := hname.head_eq
  have hkeep : ∀ d ∈ name, (!(decide (d = '=') || isSpace d)) = true := by
    intro d hd
    have heq : d ≠ '=' := hname.ne_of_mem (List.mem_cons_of_mem c hd) (by decide)
    have hspace : isSpace d = false := by
      simpa using hname.not_isSpace d (List.mem_cons_of_mem c hd)
    simp [heq, hspace]
  -- the name ends at the equals sign, and no blanks stand around it
  have htake : ∀ ds : List Char,
      ('=' :: ds).takeWhile (fun d => !(decide (d = '=') || isSpace d)) = [] := fun ds => by simp
  have hdrop : ∀ ds : List Char,
      ('=' :: ds).dropWhile (fun d => !(decide (d = '=') || isSpace d)) = '=' :: ds :=
    fun ds => by simp
  have hblank : ∀ (d : Char) (ds : List Char), isDelimiter d → ¬ isSpace d →
      (d :: ds).dropWhile isSpace = d :: ds := fun d ds _ hd => List.dropWhile_cons_of_neg hd
  rw [List.append_assoc, List.cons_append, List.cons_append, List.cons_append, readAttribute?]
  simp only [List.takeWhile_append_of_pos hkeep, List.dropWhile_append_of_pos hkeep, htake, hdrop,
    List.append_nil]
  rw [hblank '=' _ (by decide) (by decide)]
  simp only [hblank '"' _ (by decide) (by decide), Text.cutAt_append cs hvalue, true_or,
    ↓reduceIte, Option.map_some]

/-- One attribute behind blanks, and then the others. -/
theorem readAttributes?_step {earlier : List (List Char)} {cs ds rest name value : List Char}
    {d : Char} (hdrop : cs.dropWhile isSpace = d :: ds)
    (hread : readAttribute? (d :: ds) = some ((name, value), rest)) (hnew : name ∉ earlier) :
    readAttributes? earlier cs =
      match resolveReferences? value, readAttributes? (name :: earlier) rest with
      | some value, some others => some ((String.ofList name, String.ofList value) :: others)
      | _, _ => none := by
  rw [readAttributes?]
  split
  · next heq => rw [hdrop] at heq; cases heq
  · next d' ds' heq =>
    rw [hdrop] at heq
    obtain ⟨rfl, rfl⟩ := List.cons.inj heq
    split
    · next hnone => rw [hread] at hnone; cases hnone
    · next name' value' rest' hsome =>
      rw [hread] at hsome
      obtain ⟨hfst, rfl⟩ := Prod.mk.inj (Option.some.inj hsome)
      obtain ⟨rfl, rfl⟩ := Prod.mk.inj hfst
      exact if_neg hnew

/-- The attributes that were written are read back. -/
theorem readAttributes?_renderAttributes {attributes : List (String × String)}
    (h : AreWrittenAttributes attributes) (earlier : List (List Char))
    (hearlier : ∀ a ∈ attributes, a.1.toList ∉ earlier) :
    readAttributes? earlier (Markup.renderAttributes attributes) = some attributes := by
  induction attributes generalizing earlier with
  | nil =>
    rw [Markup.renderAttributes, readAttributes?]
    rfl
  | cons a attributes ih =>
    obtain ⟨name, value⟩ := a
    have hname : IsWrittenName name.toList := h.names (name, value) List.mem_cons_self
    obtain ⟨c, cs, hcs, hc⟩ := hname.head_eq
    have hspace : ¬ isSpace c := fun hs => hc (by simp [isDelimiter, hs])
    have hvalue : '"' ∉ escape value.toList := notMem_escape (by decide) _
    have hread := readAttribute?_append hname hvalue (Markup.renderAttributes attributes)
    have hdrop : (Markup.renderAttributes ((name, value) :: attributes)).dropWhile isSpace =
        c :: (cs ++ '=' :: '"' :: escape value.toList ++
          '"' :: Markup.renderAttributes attributes) := by
      rw [Markup.renderAttributes, hcs]
      simp only [List.cons_append]
      rw [List.dropWhile_cons_of_pos (by decide), List.dropWhile_cons_of_neg hspace]
    -- no later attribute has the name of this one, so none of them is refused as a second one
    have hlater : ∀ b ∈ attributes, b.1.toList ∉ name.toList :: earlier := by
      intro b hb
      rw [List.mem_cons, not_or]
      refine ⟨?_, hearlier b (List.mem_cons_of_mem _ hb)⟩
      intro heq
      have hnodup := (List.nodup_cons.mp h.nodup).1
      exact hnodup (List.mem_map.mpr ⟨b, hb, String.toList_inj.mp heq⟩)
    have hnew : name.toList ∉ earlier := hearlier (name, value) List.mem_cons_self
    rw [hcs] at hread
    simp only [List.cons_append] at hread
    rw [← hcs] at hread
    rw [readAttributes?_step hdrop hread hnew, resolveReferences?_escape, ih h.tail _ hlater]
    simp

/-- What stands between the brackets of a tag falls into its name and its attributes. -/
theorem takeWhile_name {name : List Char} (h : IsWrittenName name)
    (attributes : List (String × String)) :
    (name ++ Markup.renderAttributes attributes).takeWhile (!isSpace ·) = name ∧
      (name ++ Markup.renderAttributes attributes).dropWhile (!isSpace ·) =
        Markup.renderAttributes attributes := by
  have hkeep : ∀ c ∈ name, (!isSpace c) = true := by
    intro c hc
    simpa using h.not_isSpace c hc
  rw [List.takeWhile_append_of_pos hkeep, List.dropWhile_append_of_pos hkeep]
  cases attributes with
  | nil => simp [Markup.renderAttributes]
  | cons a attributes =>
    obtain ⟨attributeName, value⟩ := a
    have hblank : (!isSpace ' ') = false := by decide
    simp [Markup.renderAttributes, hblank]

/-- The last character of a tag is no solidus: it belongs to a name or is a quote. -/
theorem getLast?_tag {name : List Char} (h : IsWrittenName name)
    (attributes : List (String × String)) :
    (name ++ Markup.renderAttributes attributes).getLast? ≠ some '/' := by
  -- attributes end with the quote of the last one
  have hquoted : ∀ as : List (String × String), as ≠ [] →
      (Markup.renderAttributes as).getLast? = some '"' := by
    intro as
    induction as with
    | nil => intro hne; exact absurd rfl hne
    | cons a as ih =>
      intro _
      by_cases has : as = []
      · subst has
        simp [Markup.renderAttributes, List.getLast?_cons, List.getLast?_append]
      · simp [Markup.renderAttributes, List.getLast?_cons, List.getLast?_append, ih has]
  intro hlast
  rw [List.getLast?_append] at hlast
  by_cases has : attributes = []
  · subst has
    have hmem : '/' ∈ name := by
      apply List.mem_of_getLast?
      simpa [Markup.renderAttributes] using hlast
    exact h.2 _ hmem (by decide)
  · rw [hquoted attributes has] at hlast
    cases hlast

/-- What stands in a tag does not start with a solidus. -/
theorem tagEvent?_open {name : String} {attributes : List (String × String)}
    (hname : IsWrittenName name.toList) (h : AreWrittenAttributes attributes) :
    tagEvent? (name.toList ++ Markup.renderAttributes attributes) =
      some (.startTag name attributes) := by
  obtain ⟨htake, hdrop⟩ := takeWhile_name hname attributes
  have hread := readAttributes?_renderAttributes h [] (by simp)
  unfold tagEvent?
  split
  · next rest hslash => exact absurd hslash (hname.append_ne_slash _ _)
  · have hlast := getLast?_tag hname attributes
    simp only [hlast, ↓reduceIte, htake, hdrop, hread, Option.map_some, String.ofList_toList]

/-- A solidus at the end of a tag stands for an element without content. -/
theorem tagEvent?_empty {name : String} {attributes : List (String × String)}
    (hname : IsWrittenName name.toList) (h : AreWrittenAttributes attributes) :
    tagEvent? (name.toList ++ Markup.renderAttributes attributes ++ ['/']) =
      some (.emptyTag name attributes) := by
  obtain ⟨htake, hdrop⟩ := takeWhile_name hname attributes
  have hread := readAttributes?_renderAttributes h [] (by simp)
  unfold tagEvent?
  split
  · next rest hslash =>
    rw [List.append_assoc] at hslash
    exact absurd hslash (hname.append_ne_slash _ _)
  · simp only [List.getLast?_concat, List.dropLast_concat, ↓reduceIte, htake, hdrop, hread,
      Option.map_some, String.ofList_toList]

/-- A solidus in front closes an element. -/
theorem tagEvent?_close {name : String} (hname : IsWrittenName name.toList) :
    tagEvent? ('/' :: name.toList) = some (.endTag name) := by
  have hrev : name.toList.reverse.dropWhile isSpace = name.toList.reverse := by
    cases hcs : name.toList.reverse with
    | nil => rfl
    | cons c cs =>
      have hmem : c ∈ name.toList := by
        rw [← List.mem_reverse, hcs]
        exact List.mem_cons_self
      exact List.dropWhile_cons_of_neg (hname.not_isSpace c hmem)
  have hend : endTagName name.toList = name.toList := by
    unfold endTagName
    rw [hrev, List.reverse_reverse]
    split
    · next hnil => exact absurd hnil hname.1
    · rfl
  simp [tagEvent?, hend]

/-! ## Events -/

/-- A scan with events in front. -/
def Scan.prepend (events : List Event) (s : Scan) : Scan := ⟨events ++ s.events, s.isComplete⟩

@[simp] theorem Scan.prepend_nil (s : Scan) : s.prepend [] = s := rfl

@[simp] theorem Scan.prepend_prepend (es es' : List Event) (s : Scan) :
    (s.prepend es').prepend es = s.prepend (es ++ es') := by
  simp [Scan.prepend]

/-- The scan goes on behind an event that is read. -/
theorem scan_of_readEvent? {cs rest : List Char} {e : Event} (h : readEvent? cs = some (e, rest)) :
    scan cs = (scan rest).prepend [e] := by
  cases cs with
  | nil => simp [readEvent?] at h
  | cons c cs =>
    rw [scan]
    split
    · next hnone => rw [h] at hnone; cases hnone
    · next e' rest' hsome =>
      rw [h] at hsome
      obtain ⟨rfl, rfl⟩ := Prod.mk.inj (Option.some.inj hsome)
      rfl

/-- A tag that starts with neither a mark of exclamation nor one of question is read as such. -/
theorem scan_tag {tag rest : List Char} {c : Char} {e : Event} (hbang : c ≠ '!') (hquery : c ≠ '?')
    (hcut : cutTag none (c :: tag ++ '>' :: rest) = some (c :: tag, rest))
    (he : tagEvent? (c :: tag) = some e) :
    scan ('<' :: c :: tag ++ '>' :: rest) = (scan rest).prepend [e] := by
  have hmarkup : readMarkup? (c :: tag ++ '>' :: rest) = some (e, rest) := by
    unfold readMarkup?
    split
    · next heq => exact absurd (List.cons.inj heq).1 hbang
    · next heq => exact absurd (List.cons.inj heq).1 hquery
    · simp only [hcut, he, Option.map_some]
  exact scan_of_readEvent? hmarkup

/-- Text runs up to the next bracket; no text is no event. -/
theorem scan_text (content : String) (cs : List Char) :
    scan (escape content.toList ++ '<' :: cs) =
      (scan ('<' :: cs)).prepend (if content = "" then [] else [.text content]) := by
  have hopen : ∀ c ∈ escape content.toList, decide (c ≠ '<') = true := by
    intro c hc
    rw [decide_eq_true_eq]
    rintro rfl
    exact notMem_escape (by decide) _ hc
  by_cases hempty : content = ""
  · subst hempty
    simp [escape]
  · -- the text is not empty, and it does not start with a bracket: so it is read as a text
    have hne : escape content.toList ≠ [] := by
      apply escape_ne_nil
      intro hnil
      exact hempty (String.toList_eq_nil_iff.mp hnil)
    obtain ⟨d, ds, hds⟩ := List.exists_cons_of_ne_nil hne
    have hd : d ≠ '<' := by
      rintro rfl
      exact absurd (hopen '<' (hds ▸ List.mem_cons_self)) (by decide)
    have htail : ∀ c ∈ ds, decide (c ≠ '<') = true :=
      fun c hc => hopen c (hds ▸ List.mem_cons_of_mem d hc)
    have hread : readEvent? (d :: ds ++ '<' :: cs) = some (.text content, '<' :: cs) := by
      rw [List.cons_append, readEvent?]
      · rw [List.takeWhile_append_of_pos htail, List.dropWhile_append_of_pos htail]
        simp [← hds, resolveReferences?_escape]
      · exact hd
    rw [if_neg hempty, hds]
    exact scan_of_readEvent? hread

/-! ## Markup -/

/-- A tag that is written so that it can be read: its name and attributes are taken as such. -/
structure IsWrittenTag (name : String) (attributes : List (String × String)) : Prop where
  name : IsWrittenName name.toList
  attributes : AreWrittenAttributes attributes

namespace Markup

mutual

/-- Markup that can be read back: an element with one text inside, or with elements inside. Two
texts in a row would be read as one. -/
def IsWritten : Markup → Prop
  | element name attributes children =>
    IsWrittenTag name attributes ∧ ((∃ content, children = [.text content]) ∨ AreWritten children)
  | empty name attributes => IsWrittenTag name attributes
  | text _ => False

/-- Elements that can be read back. -/
def AreWritten : List Markup → Prop
  | [] => True
  | m :: rest => m.IsWritten ∧ AreWritten rest

end

theorem areWritten_iff {ms : List Markup} : AreWritten ms ↔ ∀ m ∈ ms, m.IsWritten := by
  induction ms with
  | nil => simp [AreWritten]
  | cons m ms ih => simp [AreWritten, ih]

mutual

/-- The events of markup. -/
def events : Markup → List Event
  | element name attributes children =>
    .startTag name attributes :: (eventsAll children ++ [.endTag name])
  | empty name attributes => [.emptyTag name attributes]
  | text content => if content = "" then [] else [.text content]

/-- The events of pieces of markup one after the other. -/
def eventsAll : List Markup → List Event
  | [] => []
  | m :: rest => m.events ++ eventsAll rest

end

end Markup

open Markup

/-- An opening tag is scanned to its event. -/
theorem scan_startTag {name : String} {attributes : List (String × String)}
    (h : IsWrittenTag name attributes) (rest : List Char) :
    scan ('<' :: name.toList ++ renderAttributes attributes ++ '>' :: rest) =
      (scan rest).prepend [.startTag name attributes] := by
  obtain ⟨c, cs, hcs, hc⟩ := h.name.head_eq
  have hcut : cutTag none (name.toList ++ renderAttributes attributes ++ '>' :: rest) =
      some (name.toList ++ renderAttributes attributes, rest) := by
    rw [List.append_assoc, cutTag_append h.name.goesOn, cutTag_renderAttributes h.attributes]
    simp [cutTag]
  have hevent := tagEvent?_open h.name h.attributes
  rw [hcs, List.cons_append] at hcut hevent
  rw [List.cons_append, List.cons_append, hcs, List.cons_append]
  apply scan_tag _ _ hcut hevent
  · rintro rfl
    exact hc (by decide)
  · rintro rfl
    exact hc (by decide)

/-- The tag of an element without content is scanned to its event. -/
theorem scan_emptyTag {name : String} {attributes : List (String × String)}
    (h : IsWrittenTag name attributes) (rest : List Char) :
    scan ('<' :: name.toList ++ renderAttributes attributes ++ '/' :: '>' :: rest) =
      (scan rest).prepend [.emptyTag name attributes] := by
  obtain ⟨c, cs, hcs, hc⟩ := h.name.head_eq
  have hcut : cutTag none (name.toList ++ renderAttributes attributes ++ ['/'] ++ '>' :: rest) =
      some (name.toList ++ renderAttributes attributes ++ ['/'], rest) := by
    rw [List.append_assoc, List.append_assoc, cutTag_append h.name.goesOn,
      cutTag_renderAttributes h.attributes]
    simp [cutTag]
  have hevent := tagEvent?_empty h.name h.attributes
  have hshape : '<' :: name.toList ++ renderAttributes attributes ++ '/' :: '>' :: rest =
      '<' :: (name.toList ++ renderAttributes attributes ++ ['/']) ++ '>' :: rest := by simp
  rw [hshape]
  rw [hcs, List.cons_append, List.cons_append] at hcut hevent ⊢
  apply scan_tag _ _ hcut hevent
  · rintro rfl
    exact hc (by decide)
  · rintro rfl
    exact hc (by decide)

/-- A closing tag is scanned to its event. -/
theorem scan_endTag {name : String} (h : IsWrittenName name.toList) (rest : List Char) :
    scan ('<' :: '/' :: name.toList ++ '>' :: rest) = (scan rest).prepend [.endTag name] := by
  have hplain : ∀ d ∈ '/' :: name.toList, d ≠ '>' ∧ d ≠ '"' ∧ d ≠ '\'' := by
    intro d hd
    rw [List.mem_cons] at hd
    rcases hd with rfl | hd
    · decide
    · exact h.goesOn d hd
  have hcut :
      cutTag none ('/' :: name.toList ++ '>' :: rest) = some ('/' :: name.toList, rest) := by
    rw [cutTag_append hplain]
    simp [cutTag]
  exact scan_tag (by decide) (by decide) hcut (tagEvent?_close h)

mutual

/-- The scan of markup that was rendered gives its events, and goes on behind it. -/
theorem scan_render (m : Markup) (h : m.IsWritten) (rest : List Char) :
    scan (m.render ++ rest) = (scan rest).prepend m.events := by
  match m with
  | .element name attributes children =>
    obtain ⟨htag, hchildren⟩ := h
    have hend := scan_endTag htag.name rest
    have hshape : (Markup.element name attributes children).render ++ rest =
        '<' :: name.toList ++ renderAttributes attributes ++ '>' ::
          (renderAll children ++ ('<' :: '/' :: name.toList ++ '>' :: rest)) := by
      simp [render]
    -- the opening tag is scanned, then what is inside, and the closing tag stands behind
    rw [hshape, scan_startTag htag]
    rcases hchildren with ⟨content, rfl⟩ | hchildren
    · -- a text is followed by the bracket of the end tag
      have htext := scan_text content ('/' :: name.toList ++ '>' :: rest)
      rw [← List.cons_append, hend] at htext
      simp only [renderAll, render, List.append_nil, htext, Scan.prepend_prepend]
      simp [events, eventsAll]
    · rw [scan_renderAll children hchildren, hend]
      simp [events]
  | .empty name attributes =>
    have htag : IsWrittenTag name attributes := h
    have hshape : (Markup.empty name attributes).render ++ rest =
        '<' :: name.toList ++ renderAttributes attributes ++ '/' :: '>' :: rest := by
      simp [render]
    rw [hshape, scan_emptyTag htag, events]
  | .text _ => exact h.elim

/-- The scan of elements that were rendered gives their events, and goes on behind them. -/
theorem scan_renderAll (ms : List Markup) (h : AreWritten ms) (rest : List Char) :
    scan (renderAll ms ++ rest) = (scan rest).prepend (eventsAll ms) := by
  match ms with
  | [] => simp [renderAll, eventsAll]
  | m :: ms =>
    rw [renderAll, List.append_assoc, scan_render m h.1, scan_renderAll ms h.2, eventsAll,
      Scan.prepend_prepend]

end

/-- The scan of a document gives its declaration, which is ignored, and the events of its root. -/
theorem scan_document (root : Markup) (h : root.IsWritten) :
    scan (declaration ++ root.render) = ⟨.skipped :: root.events, true⟩ := by
  have hread : readEvent? (declaration ++ root.render) = some (.skipped, root.render) := by
    rfl
  have hroot := scan_render root h []
  rw [List.append_nil, scan] at hroot
  rw [scan_of_readEvent? hread, hroot]
  simp [Scan.prepend]

end SoapClient.Xml
