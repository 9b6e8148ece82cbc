import SoapClient.Xml.Event
import SoapClient.Xml.Reference

/-!
Scanning a document into events. Scanning is lenient about names, which may hold any character
that does not end them, and about what is ignored; tags, attributes and references must be
well-formed. The scan of a document ends at its first fault.
-/

namespace SoapClient.Xml

/-- The blanks of markup. -/
def isSpace (c : Char) : Bool := c = ' ' || c = '\t' || c = '\r' || c = '\n'

/-- The content of a tag up to the first `>` outside of quotes, and the rest. `quote` is the quote
that is open. -/
def cutTag (quote : Option Char) : List Char → Option (List Char × List Char)
  | [] => none
  | c :: cs =>
    let keep (q : Option Char) := (cutTag q cs).map fun (tag, rest) => (c :: tag, rest)
    match quote with
    | some q => keep (if c = q then none else some q)
    | none =>
      if c = '>' then some ([], cs)
      else if c = '"' ∨ c = '\'' then keep (some c)
      else keep none

theorem cutTag_eq_some {quote : Option Char} {cs tag rest : List Char}
    (h : cutTag quote cs = some (tag, rest)) : cs = tag ++ '>' :: rest := by
  induction cs generalizing quote tag with
  | nil => simp [cutTag] at h
  | cons c cs ih =>
    have step : ∀ q, (cutTag q cs).map (fun (tag, rest) => (c :: tag, rest)) = some (tag, rest) →
        c :: cs = tag ++ '>' :: rest := by
      intro q hq
      simp only [Option.map_eq_some_iff, Prod.mk.injEq] at hq
      obtain ⟨⟨t, r⟩, hcut, rfl, rfl⟩ := hq
      simp [ih hcut]
    unfold cutTag at h
    dsimp only at h
    split at h
    · exact step _ h
    · split at h
      · next hc =>
        simp only [Option.some.injEq, Prod.mk.injEq] at h
        obtain ⟨rfl, rfl⟩ := h
        simp [hc]
      · split at h
        · exact step _ h
        · exact step _ h

/-- An attribute at the front of the characters of a tag, its value as written, and the rest. The
name is what stands before the next `=` or blank, its first character being any at all. -/
def readAttribute? : List Char → Option ((List Char × List Char) × List Char)
  | [] => none
  | c :: cs =>
    let isEnd (d : Char) := d = '=' || isSpace d
    let name := c :: cs.takeWhile (!isEnd ·)
    match (cs.dropWhile (!isEnd ·)).dropWhile isSpace with
    | '=' :: cs =>
      match cs.dropWhile isSpace with
      | q :: cs =>
        if q = '"' ∨ q = '\'' then
          (Text.cutAt q cs).map fun (value, rest) => ((name, value), rest)
        else none
      | [] => none
    | _ => none

theorem length_dropWhile_le (p : α → Bool) (cs : List α) :
    (cs.dropWhile p).length ≤ cs.length :=
  (List.dropWhile_sublist p).length_le

theorem readAttribute?_length {cs rest : List Char} {a : List Char × List Char}
    (h : readAttribute? cs = some (a, rest)) : rest.length < cs.length := by
  unfold readAttribute? at h
  split at h
  · simp at h
  · next c cs =>
    dsimp only at h
    split at h
    · next cs' hcs' =>
      split at h
      · next q cs'' hcs'' =>
        split at h
        · simp only [Option.map_eq_some_iff, Prod.mk.injEq] at h
          obtain ⟨⟨v, r⟩, hcut, -, rfl⟩ := h
          have h1 := congrArg List.length (Text.cutAt_eq_some hcut).1
          have h2 := length_dropWhile_le isSpace cs'
          have h3 := length_dropWhile_le isSpace
            (cs.dropWhile (fun d => !(decide (d = '=') || isSpace d)))
          have h4 := length_dropWhile_le (fun d => !(decide (d = '=') || isSpace d)) cs
          rw [hcs''] at h2
          rw [hcs'] at h3
          simp only [List.length_append, List.length_cons] at h1 h2 h3 ⊢
          omega
        · simp at h
      · simp at h
    · simp at h

/-- The attributes of a tag, in order, with the references in their values resolved. No name may
come twice. -/
def readAttributes? (earlier : List (List Char)) (cs : List Char) :
    Option (List (String × String)) :=
  match h : cs.dropWhile isSpace with
  | [] => some []
  | c :: rest =>
    match h' : readAttribute? (c :: rest) with
    | none => none
    | some ((name, value), rest') =>
      have : rest'.length < cs.length := by
        have h1 := readAttribute?_length h'
        have h2 := length_dropWhile_le isSpace cs
        rw [h] at h2
        omega
      if name ∈ earlier then none
      else
        match resolveReferences? value, readAttributes? (name :: earlier) rest' with
        | some value, some others => some ((String.ofList name, String.ofList value) :: others)
        | _, _ => none
  termination_by cs.length

/-- The name in a tag that closes an element. Blanks behind it do not count, but blanks alone are
taken for a name, which is that of no element. -/
def endTagName (cs : List Char) : List Char :=
  match (cs.reverse.dropWhile isSpace).reverse with
  | [] => cs
  | name => name

/-- The event of a tag, from what stands between its brackets. A solidus in front closes an
element, one at the end stands for an element without content. -/
def tagEvent? (tag : List Char) : Option Event :=
  match tag with
  | '/' :: name => some (.endTag (String.ofList (endTagName name)))
  | _ =>
    let isEmpty := tag.getLast? = some '/'
    let tag := if isEmpty then tag.dropLast else tag
    let name := String.ofList (tag.takeWhile (!isSpace ·))
    (readAttributes? [] (tag.dropWhile (!isSpace ·))).map fun attributes =>
      if isEmpty then .emptyTag name attributes else .startTag name attributes

/-- A comment, from behind `<!`. It starts with two hyphens and ends at the first `-->` behind
these. -/
def readComment? (cs : List Char) : Option (Event × List Char) :=
  match Text.afterMarker? "--".toList cs with
  | some cs => (Text.cutAtMarker "-->".toList cs).map fun (_, rest) => (.skipped, rest)
  | none => none

/-- A `CDATA` section, from behind `<!`. Its content is taken as it stands. -/
def readCdata? (cs : List Char) : Option (Event × List Char) :=
  match Text.afterMarker? "[CDATA[".toList cs with
  | some cs =>
    (Text.cutAtMarker "]]>".toList cs).map fun (content, rest) =>
      (.cdata (String.ofList content), rest)
  | none => none

/-- An instruction, from behind `<?`. It ends at the first `?>`, and needs a question mark of its
own for that: `<?>` is no instruction. -/
def readInstruction? (cs : List Char) : Option (Event × List Char) :=
  if cs.head? = some '>' then none
  else (Text.cutAtMarker "?>".toList cs).map fun (_, rest) => (.skipped, rest)

/-- The characters up to the `>` that closes `depth` open brackets and the tag itself, and the
rest. -/
def cutNested (depth : Nat) : List Char → Option (List Char × List Char)
  | [] => none
  | c :: cs =>
    let keep (d : Nat) := (cutNested d cs).map fun (inner, rest) => (c :: inner, rest)
    if c = '<' then keep (depth + 1)
    else if c = '>' then
      match depth with
      | 0 => some ([], cs)
      | d + 1 => keep d
    else keep depth

/-- A document type, from behind `<!`. Its keyword may be in any case and must be followed by
something else than blanks. -/
def readDoctype? (cs : List Char) : Option (Event × List Char) :=
  match cutNested 0 cs with
  | some (inner, rest) =>
    if (inner.take 7).map Char.toUpper = "DOCTYPE".toList ∧ ¬ (inner.drop 7).all isSpace then
      some (.skipped, rest)
    else none
  | none => none

/-- The event that starts with `<`, from behind it. -/
def readMarkup? : List Char → Option (Event × List Char)
  | '!' :: cs =>
    match cs with
    | '[' :: _ => readCdata? cs
    | '-' :: _ => readComment? cs
    | 'D' :: _ => readDoctype? cs
    | 'd' :: _ => readDoctype? cs
    | _ => none
  | '?' :: cs => readInstruction? cs
  | cs =>
    match cutTag none cs with
    | some (tag, rest) => (tagEvent? tag).map fun e => (e, rest)
    | none => none

/-- The next event of a document that is not at its end. A text runs up to the next `<`. -/
def readEvent? : List Char → Option (Event × List Char)
  | [] => none
  | '<' :: cs => readMarkup? cs
  | c :: cs =>
    (resolveReferences? (c :: cs.takeWhile (· ≠ '<'))).map fun content =>
      (.text (String.ofList content), cs.dropWhile (· ≠ '<'))

theorem cutNested_eq_some {depth : Nat} {cs inner rest : List Char}
    (h : cutNested depth cs = some (inner, rest)) : cs = inner ++ '>' :: rest := by
  induction cs generalizing depth inner with
  | nil => simp [cutNested] at h
  | cons c cs ih =>
    have step : ∀ d, (cutNested d cs).map (fun (tag, rest) => (c :: tag, rest)) =
        some (inner, rest) → c :: cs = inner ++ '>' :: rest := by
      intro d hd
      simp only [Option.map_eq_some_iff, Prod.mk.injEq] at hd
      obtain ⟨⟨t, r⟩, hcut, rfl, rfl⟩ := hd
      simp [ih hcut]
    unfold cutNested at h
    dsimp only at h
    split at h
    · exact step _ h
    · split at h
      · next hc =>
        split at h
        · simp only [Option.some.injEq, Prod.mk.injEq] at h
          obtain ⟨rfl, rfl⟩ := h
          simp [hc]
        · exact step _ h
      · exact step _ h

theorem readMarkup?_length {cs rest : List Char} {e : Event}
    (h : readMarkup? cs = some (e, rest)) : rest.length ≤ cs.length := by
  have marker : ∀ {m cs' b r : List Char}, Text.cutAtMarker m cs' = some (b, r) →
      r.length ≤ cs'.length := by
    intro m cs' b r hcut
    rw [Text.cutAtMarker_eq_some hcut]
    simp
    omega
  have after : ∀ {m cs' r : List Char}, Text.afterMarker? m cs' = some r →
      r.length ≤ cs'.length := by
    intro m cs' r hafter
    rw [Text.afterMarker?_eq_some hafter]
    simp
  have doctype : ∀ {cs' : List Char}, readDoctype? cs' = some (e, rest) →
      rest.length ≤ cs'.length := by
    intro cs' hd
    unfold readDoctype? at hd
    split at hd
    · next inner r hcut =>
      split at hd
      · simp only [Option.some.injEq, Prod.mk.injEq] at hd
        rw [cutNested_eq_some hcut, ← hd.2]
        simp
        omega
      · simp at hd
    · simp at hd
  unfold readMarkup? at h
  split at h
  · next cs =>
    have inner : rest.length ≤ cs.length := by
      split at h
      · unfold readCdata? at h
        split at h
        · next hcs =>
          simp only [Option.map_eq_some_iff, Prod.mk.injEq] at h
          obtain ⟨⟨b, r⟩, hcut, -, rfl⟩ := h
          exact Nat.le_trans (marker hcut) (after hcs)
        · simp at h
      · unfold readComment? at h
        split at h
        · next hcs =>
          simp only [Option.map_eq_some_iff, Prod.mk.injEq] at h
          obtain ⟨⟨b, r⟩, hcut, -, rfl⟩ := h
          exact Nat.le_trans (marker hcut) (after hcs)
        · simp at h
      · exact doctype h
      · exact doctype h
      · simp at h
    exact Nat.le_succ_of_le inner
  · unfold readInstruction? at h
    split at h
    · simp at h
    · simp only [Option.map_eq_some_iff, Prod.mk.injEq] at h
      obtain ⟨⟨b, r⟩, hcut, -, rfl⟩ := h
      exact Nat.le_succ_of_le (marker hcut)
  · split at h
    · next tag r hcut =>
      simp only [Option.map_eq_some_iff, Prod.mk.injEq] at h
      obtain ⟨e', -, -, rfl⟩ := h
      rw [cutTag_eq_some hcut]
      simp
      omega
    · simp at h

theorem readEvent?_length {cs rest : List Char} {e : Event}
    (h : readEvent? cs = some (e, rest)) : rest.length < cs.length := by
  unfold readEvent? at h
  split at h
  · simp at h
  · exact Nat.lt_succ_of_le (readMarkup?_length h)
  · simp only [Option.map_eq_some_iff, Prod.mk.injEq] at h
    obtain ⟨_, -, -, rfl⟩ := h
    exact Nat.lt_succ_of_le (length_dropWhile_le ..)

/-- The events of a document, up to its end or its first fault. -/
structure Scan where
  events : List Event
  /-- The end of the document was reached. -/
  isComplete : Bool

/-- Scans a document. -/
def scan (cs : List Char) : Scan :=
  match cs with
  | [] => ⟨[], true⟩
  | c :: cs =>
    match h : readEvent? (c :: cs) with
    | none => ⟨[], false⟩
    | some (e, rest) =>
      have := readEvent?_length h
      let later := scan rest
      ⟨e :: later.events, later.isComplete⟩
  termination_by cs.length
  decreasing_by assumption

end SoapClient.Xml
