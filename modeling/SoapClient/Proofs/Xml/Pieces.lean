import SoapClient.Proofs.Xml.Nesting

/-!
# Text in pieces

What stands inside of an element without elements in it is running text, `CDATA` sections, comments
and instructions, in any order. Main statements: however it is cut, the scan gives the same
character data (`exists_nodes_scan`), and what stands in front of it is scanned as it would be
alone (`scan_append`).
-/

namespace SoapClient.Text

variable {marker cs after : List Char}

/-- A marker that is in front of a longer text is in front of its beginning. -/
theorem isPrefix_of_afterMarker? {rest : List Char}
    (h : afterMarker? marker (cs ++ rest) = some after) (hlength : marker.length ≤ cs.length) :
    marker <+: cs := by
  have hlong : marker <+: cs ++ rest := ⟨after, (afterMarker?_eq_some h).symm⟩
  exact List.prefix_of_prefix_length_le hlong (List.prefix_append cs rest) hlength

/-- A marker that ends with a character of its own is found where it stands first: it does not
begin in front and end in itself. -/
theorem cutAtMarker_append {body before : List Char} {last : Char}
    (hmarker : marker = body ++ [last]) (hlast : last ∉ body) (hbefore : ¬ marker <:+: before)
    (after : List Char) :
    cutAtMarker marker (before ++ (marker ++ after)) = some (before, after) := by
  induction before with
  | nil =>
    obtain ⟨c, cs, hcs⟩ : ∃ c cs, marker = c :: cs :=
      List.exists_cons_of_ne_nil (by rw [hmarker]; simp)
    rw [List.nil_append, hcs, List.cons_append, cutAtMarker, ← List.cons_append,
      afterMarker?_append]
  | cons c before ih =>
    have hlater : ¬ marker <:+: before := fun h => hbefore (List.infix_cons h)
    have hnone : afterMarker? marker (c :: before ++ (marker ++ after)) = none := by
      rw [Option.eq_none_iff_forall_ne_some]
      intro found hfound
      have hshape : c :: before ++ (marker ++ after) =
          (c :: before ++ body) ++ (last :: after) := by simp [hmarker]
      have hfits : marker.length ≤ (c :: before ++ body).length := by simp [hmarker]
      rw [hshape] at hfound
      have hfront := isPrefix_of_afterMarker? hfound hfits
      by_cases hlength : marker.length ≤ (c :: before).length
      · have hinside := List.prefix_of_prefix_length_le hfront (List.prefix_append _ body) hlength
        exact hbefore hinside.isInfix
      · -- the last character of the marker would stand in its body
        obtain ⟨tail, htail⟩ := hfront
        have hshort : (c :: before).length ≤ body.length := by
          rw [hmarker, List.length_append, List.length_singleton] at hlength
          omega
        have hget := congrArg (·[body.length]?) htail
        rw [List.getElem?_append_left (by simp [hmarker]), hmarker, List.getElem?_concat_length,
          List.getElem?_append_right hshort] at hget
        exact hlast (List.mem_of_getElem? hget.symm)
    rw [List.cons_append] at hnone ⊢
    rw [cutAtMarker, hnone, ih hlater]
    rfl

theorem afterMarker?_of_append (h : afterMarker? marker cs = some after) (rest : List Char) :
    afterMarker? marker (cs ++ rest) = some (after ++ rest) := by
  rw [afterMarker?_eq_some h, List.append_assoc, afterMarker?_append]

/-- A cut at a marker is made in the same way where more follows. -/
theorem cutAtMarker_of_append {before : List Char}
    (h : cutAtMarker marker cs = some (before, after)) (rest : List Char) :
    cutAtMarker marker (cs ++ rest) = some (before, after ++ rest) := by
  induction cs generalizing before with
  | nil =>
    rw [cutAtMarker, Option.map_eq_some_iff] at h
    obtain ⟨found, hfound, heq⟩ := h
    obtain ⟨rfl, rfl⟩ := Prod.mk.inj heq
    have hnil := afterMarker?_of_append hfound rest
    cases rest with
    | nil => rw [List.append_nil, List.append_nil, cutAtMarker, hfound]; rfl
    | cons c rest => rw [List.nil_append] at hnil ⊢; rw [cutAtMarker, hnil]
  | cons c cs ih =>
    rw [List.cons_append, cutAtMarker]
    rw [cutAtMarker] at h
    cases hfound : afterMarker? marker (c :: cs) with
    | some found =>
      rw [hfound] at h
      obtain ⟨rfl, rfl⟩ := Prod.mk.inj (Option.some.inj h)
      rw [← List.cons_append, afterMarker?_of_append hfound rest]
    | none =>
      rw [hfound] at h
      obtain ⟨⟨before', after'⟩, hcut, heq⟩ := Option.map_eq_some_iff.mp h
      obtain ⟨rfl, rfl⟩ := Prod.mk.inj heq
      -- the marker stands whole in what is there already
      have hnone : afterMarker? marker (c :: (cs ++ rest)) = none := by
        rw [Option.eq_none_iff_forall_ne_some]
        intro found hmarker
        have hlength : marker.length ≤ (c :: cs).length := by
          rw [cutAtMarker_eq_some hcut]
          simp
          omega
        obtain ⟨tail, htail⟩ := isPrefix_of_afterMarker? hmarker hlength
        rw [← htail, afterMarker?_append] at hfound
        cases hfound
      rw [hnone, ih hcut]
      rfl

end SoapClient.Text

namespace SoapClient.Xml

open Node

/-! ## What stands in front -/

theorem cutTag_of_append {quote : Option Char} {cs tag after : List Char}
    (h : cutTag quote cs = some (tag, after)) (rest : List Char) :
    cutTag quote (cs ++ rest) = some (tag, after ++ rest) := by
  induction cs generalizing quote tag with
  | nil => cases h
  | cons c cs ih =>
    have hkeep : ∀ {q : Option Char},
        (cutTag q cs).map (fun cut => (c :: cut.1, cut.2)) = some (tag, after) →
        (cutTag q (cs ++ rest)).map (fun cut => (c :: cut.1, cut.2)) =
          some (tag, after ++ rest) := by
      intro q hq
      obtain ⟨⟨tag', after'⟩, hcut, heq⟩ := Option.map_eq_some_iff.mp hq
      obtain ⟨rfl, rfl⟩ := Prod.mk.inj heq
      rw [ih hcut]
      rfl
    rw [List.cons_append]
    cases quote with
    | some q => exact hkeep h
    | none =>
      rw [cutTag] at h ⊢
      dsimp only at h ⊢
      split_ifs at h ⊢
      · obtain ⟨rfl, rfl⟩ := Prod.mk.inj (Option.some.inj h)
        rfl
      · exact hkeep h
      · exact hkeep h

theorem cutNested_of_append {depth : Nat} {cs inner after : List Char}
    (h : cutNested depth cs = some (inner, after)) (rest : List Char) :
    cutNested depth (cs ++ rest) = some (inner, after ++ rest) := by
  induction cs generalizing depth inner with
  | nil => cases h
  | cons c cs ih =>
    have hkeep : ∀ {d : Nat},
        (cutNested d cs).map (fun cut => (c :: cut.1, cut.2)) = some (inner, after) →
        (cutNested d (cs ++ rest)).map (fun cut => (c :: cut.1, cut.2)) =
          some (inner, after ++ rest) := by
      intro d hd
      obtain ⟨⟨inner', after'⟩, hcut, heq⟩ := Option.map_eq_some_iff.mp hd
      obtain ⟨rfl, rfl⟩ := Prod.mk.inj heq
      rw [ih hcut]
      rfl
    rw [List.cons_append]
    unfold cutNested at h ⊢
    dsimp only at h ⊢
    split_ifs at h ⊢
    · exact hkeep h
    · cases depth with
      | zero =>
        obtain ⟨rfl, rfl⟩ := Prod.mk.inj (Option.some.inj h)
        rfl
      | succ d => exact hkeep h
    · exact hkeep h

theorem readDoctype?_of_append {cs after : List Char} {e : Event}
    (h : readDoctype? cs = some (e, after)) (rest : List Char) :
    readDoctype? (cs ++ rest) = some (e, after ++ rest) := by
  rw [readDoctype?] at h ⊢
  cases hcut : cutNested 0 cs with
  | none => rw [hcut] at h; cases h
  | some found =>
    obtain ⟨inner, found⟩ := found
    rw [hcut] at h
    rw [cutNested_of_append hcut]
    dsimp only at h ⊢
    split_ifs at h ⊢ with hkeyword
    obtain ⟨rfl, rfl⟩ := Prod.mk.inj (Option.some.inj h)
    rfl

theorem readInstruction?_of_append {cs after : List Char} {e : Event}
    (h : readInstruction? cs = some (e, after)) (rest : List Char) :
    readInstruction? (cs ++ rest) = some (e, after ++ rest) := by
  rw [readInstruction?] at h ⊢
  cases cs with
  | nil => cases h
  | cons c cs =>
    rw [List.cons_append, List.head?_cons] at *
    split_ifs at h ⊢
    obtain ⟨⟨before, found⟩, hcut, heq⟩ := Option.map_eq_some_iff.mp h
    obtain ⟨rfl, rfl⟩ := Prod.mk.inj heq
    rw [← List.cons_append, Text.cutAtMarker_of_append hcut]
    rfl

/-- A section between two markers is read in the same way where more follows. -/
theorem section_of_append (opening closing : List Char) (event : List Char → Event)
    {cs after : List Char} {e : Event}
    (h : (match Text.afterMarker? opening cs with
      | some cs => (Text.cutAtMarker closing cs).map fun (inside, after) => (event inside, after)
      | none => none) = some (e, after)) (rest : List Char) :
    (match Text.afterMarker? opening (cs ++ rest) with
      | some cs => (Text.cutAtMarker closing cs).map fun (inside, after) => (event inside, after)
      | none => none) = some (e, after ++ rest) := by
  cases hopening : Text.afterMarker? opening cs with
  | none => rw [hopening] at h; cases h
  | some inside =>
    rw [hopening] at h
    obtain ⟨⟨before, found⟩, hcut, heq⟩ := Option.map_eq_some_iff.mp h
    obtain ⟨rfl, rfl⟩ := Prod.mk.inj heq
    rw [Text.afterMarker?_of_append hopening rest]
    dsimp only
    rw [Text.cutAtMarker_of_append hcut]
    rfl

/-- What starts with a bracket is read in the same way where more follows. -/
theorem readMarkup?_of_append {cs after : List Char} {e : Event}
    (h : readMarkup? cs = some (e, after)) (rest : List Char) :
    readMarkup? (cs ++ rest) = some (e, after ++ rest) := by
  unfold readMarkup? at h
  split at h
  · split at h
    · exact section_of_append _ _ (fun inside => .cdata (String.ofList inside)) h rest
    · exact section_of_append _ _ (fun _ => .skipped) h rest
    · exact readDoctype?_of_append h rest
    · exact readDoctype?_of_append h rest
    · cases h
  · exact readInstruction?_of_append h rest
  · next hbang hquery =>
    cases cs with
    | nil => cases h
    | cons c cs =>
      cases hcut : cutTag none (c :: cs) with
      | none => rw [hcut] at h; cases h
      | some found =>
        obtain ⟨tag, found⟩ := found
        rw [hcut] at h
        obtain ⟨event, htag, heq⟩ := Option.map_eq_some_iff.mp h
        obtain ⟨rfl, rfl⟩ := Prod.mk.inj heq
        unfold readMarkup?
        split
        · next heq => exact absurd (List.cons.inj heq).1 fun hc => hbang cs (hc ▸ rfl)
        · next heq => exact absurd (List.cons.inj heq).1 fun hc => hquery cs (hc ▸ rfl)
        · rw [cutTag_of_append hcut]
          dsimp only
          rw [htag]
          rfl

/-- An event is read in the same way where more follows. Only a text may go on. -/
theorem readEvent?_of_append {cs after : List Char} {e : Event}
    (h : readEvent? cs = some (e, after)) (hend : after ≠ [] ∨ ∀ content, e ≠ .text content)
    (rest : List Char) : readEvent? (cs ++ rest) = some (e, after ++ rest) := by
  unfold readEvent? at h
  split at h
  · cases h
  · exact readMarkup?_of_append h rest
  · next c cs hopen =>
    obtain ⟨content, hcontent, heq⟩ := Option.map_eq_some_iff.mp h
    obtain ⟨rfl, rfl⟩ := Prod.mk.inj heq
    have hmore : cs.dropWhile (· ≠ '<') ≠ [] := hend.resolve_right fun h => h _ rfl
    have hdrop : (cs ++ rest).dropWhile (· ≠ '<') = cs.dropWhile (· ≠ '<') ++ rest := by
      rw [List.dropWhile_append, if_neg (by simpa using hmore)]
    have htake : (cs ++ rest).takeWhile (· ≠ '<') = cs.takeWhile (· ≠ '<') := by
      rw [List.takeWhile_append, if_neg]
      intro hlength
      have hall := List.takeWhile_append_dropWhile (p := (· ≠ '<')) (l := cs)
      have hsum := congrArg List.length hall
      rw [List.length_append] at hsum
      exact hmore (List.eq_nil_of_length_eq_zero (by omega))
    rw [List.cons_append, readEvent?]
    · rw [htake, hdrop, hcontent]
      rfl
    · exact hopen

theorem scan_of_readEvent?_eq_none {c : Char} {cs : List Char} (h : readEvent? (c :: cs) = none) :
    scan (c :: cs) = ⟨[], false⟩ := by
  rw [scan]
  split
  · rfl
  · next hsome => rw [h] at hsome; cases hsome

/-- What is written in front is scanned as it would be alone, where it does not end in a text. -/
theorem scan_append {front : List Char} {events : List Event} (h : scan front = ⟨events, true⟩)
    (hlast : ∀ content, events.getLast? ≠ some (.text content)) (rest : List Char) :
    scan (front ++ rest) = (scan rest).prepend events := by
  induction front using scan.induct generalizing events with
  | case1 =>
    rw [scan] at h
    obtain ⟨rfl, -⟩ := Scan.mk.inj h
    rfl
  | case2 c cs hnone =>
    rw [scan_of_readEvent?_eq_none hnone] at h
    cases h
  | case3 c cs e after hread hlength ih =>
    rw [scan_of_readEvent? hread] at h
    obtain ⟨rfl, hcomplete⟩ := Scan.mk.inj h
    have hend : after ≠ [] ∨ ∀ content, e ≠ .text content := by
      by_cases hnil : after = []
      · refine .inr fun content he => ?_
        subst hnil he
        exact hlast content (by rw [scan]; rfl)
      · exact .inl hnil
    have hlater : ∀ content, (scan after).events.getLast? ≠ some (.text content) := by
      intro content hcontent
      exact hlast content (by rw [List.singleton_append, List.getLast?_cons, hcontent]; rfl)
    rw [scan_of_readEvent? (readEvent?_of_append hread hend rest),
      ih (congrArg (Scan.mk (scan after).events) hcomplete) hlater, Scan.prepend_prepend]

/-! ## Pieces -/

/-- A piece of what stands inside of an element without elements in it. -/
inductive Piece where
  /-- Running text, each character with whether it is written as a reference, if it has one. -/
  | text (chars : List (Char × Bool))
  | cdata (content : String)
  | comment (content : String)
  | instruction (content : String)

namespace Piece

/-- Characters as they are written in running text. -/
def spell (chars : List (Char × Bool)) : List Char :=
  chars.flatMap fun c => if c.2 then escapeChar c.1 else [c.1]

/-- Content between two markers. -/
def enclose (opening closing content : String) : List Char :=
  opening.toList ++ (content.toList ++ closing.toList)

/-- A piece as it is written. -/
def render : Piece → List Char
  | text chars => spell chars
  | cdata content => enclose "<![CDATA[" "]]>" content
  | comment content => enclose "<!--" "-->" content
  | instruction content => enclose "<?" "?>" content

/-- The character data that a piece stands for. -/
def content : Piece → String
  | text chars => String.ofList (chars.map (·.1))
  | cdata content => content
  | comment _ => ""
  | instruction _ => ""

/-- A piece that ends where it is meant to. Only two characters have to be written as references. -/
def IsWritten : Piece → Prop
  | text chars => ∀ c ∈ chars, c.2 = false → c.1 ≠ '<' ∧ c.1 ≠ '&'
  | cdata content => ¬ "]]>".toList <:+: content.toList
  | comment content => '>' ∉ content.toList
  | instruction content => '>' ∉ content.toList

/-- Pieces as they are written, one after the other. -/
def renderAll : List Piece → List Char
  | [] => []
  | piece :: rest => piece.render ++ renderAll rest

/-- The character data of pieces, one after the other. -/
def contentOf : List Piece → String
  | [] => ""
  | piece :: rest => piece.content ++ contentOf rest

/-- No character of running text opens a tag. -/
theorem notMem_spell {chars : List (Char × Bool)} (h : (text chars).IsWritten) :
    '<' ∉ spell chars := by
  rw [spell, List.mem_flatMap]
  rintro ⟨⟨c, isEscaped⟩, hc, hmem⟩
  cases isEscaped with
  | true =>
    have hescape : '<' ∈ escape [c] := by simpa [escape] using hmem
    exact notMem_escape (by decide) [c] hescape
  | false => exact (h _ hc rfl).1 (List.mem_singleton.mp hmem).symm

/-- The references in running text are those that were written. -/
theorem resolveReferences?_spell {chars : List (Char × Bool)} (h : (text chars).IsWritten) :
    resolveReferences? (spell chars) = some (chars.map (·.1)) := by
  induction chars with
  | nil => rw [spell, List.flatMap_nil, resolveReferences?, List.map_nil]
  | cons c rest ih =>
    obtain ⟨hc, hrest⟩ := List.forall_mem_cons.mp h
    obtain ⟨c, isEscaped⟩ := c
    rw [spell] at ih ⊢
    rw [List.flatMap_cons]
    cases isEscaped with
    | true =>
      rw [if_pos rfl, resolveReferences?_escapeChar, ih hrest]
      rfl
    | false =>
      rw [if_neg Bool.false_ne_true, List.singleton_append,
        resolveReferences?_cons (hc rfl).2, ih hrest]
      rfl

end Piece

open Piece

/-- The node of running text, none where there is no text. -/
def runOf (chars : List (Char × Bool)) : List Node :=
  if chars = [] then [] else [.text (text chars).content]

theorem not_isElement_of_mem_runOf {chars : List (Char × Bool)} {node : Node}
    (h : node ∈ runOf chars) : ¬ node.IsElement := by
  rw [runOf] at h
  split at h
  · cases h
  · obtain rfl := List.mem_singleton.mp h
    exact id

theorem textOf_runOf (chars : List (Char × Bool)) :
    textOf (runOf chars) = (text chars).content := by
  rw [runOf]
  split
  · next hnil => rw [hnil]; rfl
  · rw [textOf, textOf, String.append_empty, ownText]

/-- Running text up to the next bracket is scanned as its node. -/
theorem scan_spell {chars : List (Char × Bool)} (h : (text chars).IsWritten) (rest : List Char) :
    scan (spell chars ++ '<' :: rest) =
      (scan ('<' :: rest)).prepend (eventsOf (runOf chars)) := by
  have hresolve := resolveReferences?_spell h
  have hopen : ∀ c ∈ spell chars, decide (c ≠ '<') = true := by
    intro c hc
    rw [decide_eq_true_eq]
    rintro rfl
    exact notMem_spell h hc
  cases hspell : spell chars with
  | nil =>
    rw [hspell, resolveReferences?] at hresolve
    have hnil : chars = [] := List.map_eq_nil_iff.mp (Option.some.inj hresolve).symm
    rw [runOf, if_pos hnil]
    rfl
  | cons c cs =>
    rw [hspell] at hresolve hopen
    obtain ⟨hc, hcs⟩ := List.forall_mem_cons.mp hopen
    have hne : chars ≠ [] := by
      rintro rfl
      cases hspell
    have hread : readEvent? (c :: cs ++ '<' :: rest) =
        some (.text (text chars).content, '<' :: rest) := by
      rw [List.cons_append, readEvent?]
      · rw [List.takeWhile_append_of_pos hcs, List.dropWhile_append_of_pos hcs]
        simp [hresolve, content]
      · simpa using hc
    rw [runOf, if_neg hne]
    exact scan_of_readEvent? hread

/-- A section is one event, whatever it holds but its own end. -/
theorem scan_cdata {content : String} (h : (Piece.cdata content).IsWritten) (rest : List Char) :
    scan ((Piece.cdata content).render ++ rest) = (scan rest).prepend [.cdata content] := by
  have hmarker : "]]>".toList = [']', ']'] ++ ['>'] := by decide
  have hcut := Text.cutAtMarker_append hmarker (by decide) h rest
  have hread : readCdata? ("[CDATA[".toList ++ (content.toList ++ ("]]>".toList ++ rest))) =
      some (.cdata content, rest) := by
    rw [readCdata?, Text.afterMarker?_append]
    dsimp only
    rw [hcut, Option.map_some, String.ofList_toList]
  rw [render, enclose, List.append_assoc, List.append_assoc]
  exact scan_of_readEvent? hread

/-- A comment is skipped. -/
theorem scan_comment {content : String} (h : (Piece.comment content).IsWritten)
    (rest : List Char) :
    scan ((Piece.comment content).render ++ rest) = (scan rest).prepend [.skipped] := by
  have hmarker : "-->".toList = ['-', '-'] ++ ['>'] := by decide
  have hbefore : ¬ "-->".toList <:+: content.toList := fun hinside => h (hinside.mem (by decide))
  have hcut := Text.cutAtMarker_append hmarker (by decide) hbefore rest
  have hread : readComment? ("--".toList ++ (content.toList ++ ("-->".toList ++ rest))) =
      some (.skipped, rest) := by
    rw [readComment?, Text.afterMarker?_append]
    dsimp only
    rw [hcut, Option.map_some]
  rw [render, enclose, List.append_assoc, List.append_assoc]
  exact scan_of_readEvent? hread

/-- An instruction is skipped. -/
theorem scan_instruction {content : String} (h : (Piece.instruction content).IsWritten)
    (rest : List Char) :
    scan ((Piece.instruction content).render ++ rest) = (scan rest).prepend [.skipped] := by
  have hmarker : "?>".toList = ['?'] ++ ['>'] := by decide
  have hbefore : ¬ "?>".toList <:+: content.toList := fun hinside => h (hinside.mem (by decide))
  have hcut := Text.cutAtMarker_append hmarker (by decide) hbefore rest
  have hhead : (content.toList ++ ("?>".toList ++ rest)).head? ≠ some '>' := by
    rw [IsWritten] at h
    cases hcontent : content.toList with
    | nil => exact fun heq => absurd (Option.some.inj heq) (by decide)
    | cons c cs =>
      intro heq
      obtain rfl := Option.some.inj heq
      exact h (hcontent ▸ List.mem_cons_self)
  have hread : readInstruction? (content.toList ++ ("?>".toList ++ rest)) =
      some (.skipped, rest) := by
    rw [readInstruction?, if_neg hhead, hcut, Option.map_some]
  rw [render, enclose, List.append_assoc, List.append_assoc]
  exact scan_of_readEvent? hread

/-- What is not running text is scanned as a node of its own, and starts with a bracket. -/
theorem exists_node_scan {piece : Piece} (h : piece.IsWritten)
    (htext : ∀ chars, piece ≠ .text chars) :
    ∃ (node : Node) (tail : List Char), ¬ node.IsElement ∧ node.ownText = piece.content ∧
      piece.render = '<' :: tail ∧
      ∀ rest, scan (piece.render ++ rest) = (scan rest).prepend node.events := by
  cases piece with
  | text chars => exact absurd rfl (htext chars)
  | cdata content => exact ⟨.cdata content, _, id, rfl, rfl, scan_cdata h⟩
  | comment content => exact ⟨.skipped, _, id, rfl, rfl, scan_comment h⟩
  | instruction content => exact ⟨.skipped, _, id, rfl, rfl, scan_instruction h⟩

/-- However character data is cut into pieces, it is scanned as nodes that hold it. Running text
that is still to be read may stand in front of the pieces: it goes on in those that are running
text. -/
theorem exists_nodes_scan (pieces : List Piece) (hpieces : ∀ piece ∈ pieces, piece.IsWritten)
    {chars : List (Char × Bool)} (hchars : (Piece.text chars).IsWritten) (rest : List Char) :
    ∃ nodes : List Node, (∀ node ∈ nodes, ¬ node.IsElement) ∧
      textOf nodes = (Piece.text chars).content ++ contentOf pieces ∧
      scan (spell chars ++ (renderAll pieces ++ '<' :: rest)) =
        (scan ('<' :: rest)).prepend (eventsOf nodes) := by
  induction pieces generalizing chars with
  | nil =>
    refine ⟨runOf chars, fun _ => not_isElement_of_mem_runOf, ?_, scan_spell hchars rest⟩
    rw [textOf_runOf, contentOf, String.append_empty]
  | cons piece later ih =>
    obtain ⟨hpiece, hlater⟩ := List.forall_mem_cons.mp hpieces
    rw [renderAll, contentOf]
    by_cases htext : ∃ more, piece = .text more
    · -- two runs of text in a row are one
      obtain ⟨more, rfl⟩ := htext
      obtain ⟨nodes, hnodes, hcontent, hscan⟩ :=
        ih hlater (List.forall_mem_append.mpr ⟨hchars, hpiece⟩)
      refine ⟨nodes, hnodes, ?_, ?_⟩
      · rw [hcontent, content, content, content, List.map_append, String.ofList_append,
          String.append_assoc]
      · rw [render, ← hscan, spell, spell, spell, List.flatMap_append, List.append_assoc,
          List.append_assoc]
    · -- what is not running text ends the run in front of it
      obtain ⟨node, tail, hnode, hown, hrender, hscan⟩ :=
        exists_node_scan hpiece (not_exists.mp htext)
      obtain ⟨nodes, hnodes, hcontent, hrest⟩ := ih hlater (List.forall_mem_nil _)
      refine ⟨runOf chars ++ node :: nodes, ?_, ?_, ?_⟩
      · exact List.forall_mem_append.mpr
          ⟨fun _ => not_isElement_of_mem_runOf, List.forall_mem_cons.mpr ⟨hnode, hnodes⟩⟩
      · rw [textOf_append, textOf_runOf, textOf, hown, hcontent]
        rfl
      · rw [List.append_assoc, hrender, List.cons_append, scan_spell hchars, ← List.cons_append,
          ← hrender, hscan, eventsOf_append, eventsOf, ← Scan.prepend_prepend,
          ← Scan.prepend_prepend]
        exact congrArg (Scan.prepend _) (congrArg (Scan.prepend _) hrest)

end SoapClient.Xml
