import SoapClient.Xml.Scanner
import SoapClient.Xml.Scope

/-!
# Names in markup

The names without a colon of XML namespaces, and what a scanner needs of a written name: that it
is there, and that it holds no character that ends a name or that announces other markup. A name
with a qualifier is cut at its first colon (`splitName?_eq_some_iff`).
-/

namespace SoapClient.Xml

/-! ## Names without a colon -/

/-- The code points that a name can start with, as ranges. -/
def nameStartRanges : List (Nat × Nat) := [(0x41, 0x5A), (0x5F, 0x5F), (0x61, 0x7A), (0xC0, 0xD6),
  (0xD8, 0xF6), (0xF8, 0x2FF), (0x370, 0x37D), (0x37F, 0x1FFF), (0x200C, 0x200D), (0x2070, 0x218F),
  (0x2C00, 0x2FEF), (0x3001, 0xD7FF), (0xF900, 0xFDCF), (0xFDF0, 0xFFFD), (0x10000, 0xEFFFF)]

/-- The code points that a name can hold behind its start only: the hyphen and the point, the
digits, the middle dot, combining marks and ties. -/
def nameFurtherRanges : List (Nat × Nat) :=
  [(0x2D, 0x2E), (0x30, 0x39), (0xB7, 0xB7), (0x300, 0x36F), (0x203F, 0x2040)]

/-- Whether a character lies in one of some ranges of code points. -/
def isWithin (ranges : List (Nat × Nat)) (c : Char) : Bool :=
  ranges.any fun (least, greatest) => least ≤ c.toNat && c.toNat ≤ greatest

/-- A character that a name can hold. -/
def isNameChar (c : Char) : Bool := isWithin nameStartRanges c || isWithin nameFurtherRanges c

/-- An `NCName`: a name without a colon. -/
def isNCName (name : String) : Bool :=
  match name.toList with
  | [] => false
  | c :: cs => isWithin nameStartRanges c && cs.all isNameChar

theorem isNameChar_of_isNCName {name : String} (h : isNCName name) :
    ∀ c ∈ name.toList, isNameChar c := by
  unfold isNCName at h
  split at h
  · simp at h
  · next c cs hname =>
    intro d hd
    rw [hname, List.mem_cons] at hd
    rw [Bool.and_eq_true, List.all_eq_true] at h
    rcases hd with rfl | hd
    · simp [isNameChar, h.1]
    · exact h.2 d hd

theorem toList_ne_nil_of_isNCName {name : String} (h : isNCName name) : name.toList ≠ [] := by
  intro hnil
  simp [isNCName, hnil] at h

theorem colon_notMem_of_isNCName {name : String} (h : isNCName name) : ':' ∉ name.toList := by
  intro hmem
  have hcolon := isNameChar_of_isNCName h ':' hmem
  exact absurd hcolon (by decide)

/-! ## Written names -/

/-- A character that ends a name in a tag, or that makes other markup of what starts with it. -/
def isDelimiter (c : Char) : Bool :=
  isSpace c || ['<', '>', '/', '=', '"', '\'', '!', '?'].contains c

/-- A written name that the scanner takes as one: of an element or of an attribute. -/
def IsWrittenName (name : List Char) : Prop := name ≠ [] ∧ ∀ c ∈ name, ¬ isDelimiter c

-- the characters of the name are tried, never all the characters there are
instance (name : List Char) : Decidable (IsWrittenName name) :=
  @instDecidableAnd _ _ _ (List.decidableBAll (fun c => ¬ isDelimiter c) name)

theorem not_isDelimiter_of_isNameChar {c : Char} (h : isNameChar c) : ¬ isDelimiter c := by
  intro hdelim
  simp only [isDelimiter, isSpace, Bool.or_eq_true, decide_eq_true_eq, List.contains_cons,
    List.contains_nil, beq_iff_eq, Bool.false_eq_true, or_false] at hdelim
  rcases hdelim with ((((rfl | rfl) | rfl) | rfl) | rfl | rfl | rfl | rfl | rfl | rfl | rfl | rfl)
  all_goals exact absurd h (by decide)

theorem isWrittenName_of_isNCName {name : String} (h : isNCName name) :
    IsWrittenName name.toList :=
  ⟨toList_ne_nil_of_isNCName h,
    fun c hc => not_isDelimiter_of_isNameChar (isNameChar_of_isNCName h c hc)⟩

namespace IsWrittenName

variable {name : List Char}

/-- A name behind a qualifier and a colon is a written name too. -/
theorem qualified (q : List Char) (hq : ∀ c ∈ q, ¬ isDelimiter c) (h : IsWrittenName name) :
    IsWrittenName (q ++ ':' :: name) := by
  refine ⟨by simp, ?_⟩
  intro c hc
  rw [List.mem_append, List.mem_cons] at hc
  rcases hc with hc | rfl | hc
  · exact hq c hc
  · decide
  · exact h.2 c hc

/-- No blank stands in a written name. -/
theorem not_isSpace (h : IsWrittenName name) : ∀ c ∈ name, ¬ isSpace c := by
  intro c hc hspace
  exact h.2 c hc (by simp [isDelimiter, hspace])

/-- A character of a written name is none of the delimiters. -/
theorem ne_of_mem {c d : Char} (h : IsWrittenName name) (hc : c ∈ name) (hd : isDelimiter d) :
    c ≠ d := by
  rintro rfl
  exact h.2 c hc hd

/-- The scanner of a tag goes on over a written name: no bracket and no quote stands in it. -/
theorem goesOn (h : IsWrittenName name) : ∀ c ∈ name, c ≠ '>' ∧ c ≠ '"' ∧ c ≠ '\'' :=
  fun _ hc =>
    ⟨h.ne_of_mem hc (by decide), h.ne_of_mem hc (by decide), h.ne_of_mem hc (by decide)⟩

/-- A written name starts with a character that announces no other markup. -/
theorem head_eq (h : IsWrittenName name) : ∃ c cs, name = c :: cs ∧ ¬ isDelimiter c := by
  obtain ⟨c, cs, rfl⟩ := List.exists_cons_of_ne_nil h.1
  exact ⟨c, cs, rfl, h.2 c List.mem_cons_self⟩

/-- What starts with a written name does not start with a solidus. -/
theorem append_ne_slash (h : IsWrittenName name) (cs ds : List Char) :
    name ++ cs ≠ '/' :: ds := by
  obtain ⟨c, rest, rfl, hc⟩ := h.head_eq
  rw [List.cons_append]
  intro heq
  obtain ⟨rfl, -⟩ := List.cons.inj heq
  exact hc (by decide)

end IsWrittenName

/-! ## Names with a qualifier -/

/-- A name is cut at its first colon. -/
theorem splitName?_eq_some_iff {name qualifier localName : String} :
    splitName? name = some (qualifier, localName) ↔
      ':' ∉ qualifier.toList ∧ name = qualifier ++ ":" ++ localName := by
  rw [splitName?, Text.splitFirst?, Option.map_eq_some_iff]
  constructor
  · rintro ⟨⟨before, after⟩, hcut, heq⟩
    obtain ⟨rfl, rfl⟩ := Prod.mk.inj heq
    obtain ⟨hname, hbefore⟩ := Text.cutAt_eq_some hcut
    refine ⟨by simpa using hbefore, ?_⟩
    rw [← String.toList_inj, hname]
    simp
  · rintro ⟨hqualifier, rfl⟩
    refine ⟨(qualifier.toList, localName.toList), ?_, by simp⟩
    have hlist : (qualifier ++ ":" ++ localName).toList =
        qualifier.toList ++ ':' :: localName.toList := by simp
    rw [hlist, Text.cutAt_append _ hqualifier]

/-- A name without a colon is not cut. -/
theorem splitName?_eq_none_iff {name : String} : splitName? name = none ↔ ':' ∉ name.toList := by
  rw [splitName?, Text.splitFirst?, Option.map_eq_none_iff, Text.cutAt_eq_none_iff]

end SoapClient.Xml
