import SoapClient.Proofs.Decimal.Canonical
import SoapClient.Value.Coerce

/-!
# Decimals as JSON values

A canonical decimal is read as a number where JSON has one that is written like it, without an
exponent (`exactNumber?_spec`). Whatever a decimal is read as, it is the same number
(`decimal?_of_readDecimal?`), and is read as itself again (`readDecimal?_self`).
-/

namespace SoapClient

open Decimal

variable {text : List Char} {canonical : List Char} {v : Json}

/-- A JSON number that is written like a canonical decimal where no exponent is used: a whole number
of 64 bits with a sign if there is one, a binary64 number else. -/
inductive IsExactly (canonical : List Char) : Json → Prop
  | whole {n : Json.Whole} : Range.int64.holds n.value = true →
    (intText n.value).toList = canonical → IsExactly canonical (.whole n)
  | real {x : Binary64} : (∀ n, Range.int64.holds n = true → (intText n).toList ≠ canonical) →
    Layout.plain.render x = canonical → IsExactly canonical (.real x)

/-- No digit of a whole number is a point. -/
theorem point_notMem_intText (n : Int) : '.' ∉ (intText n).toList := by
  rw [toList_intText, List.mem_append]
  rintro (h | h)
  · unfold signText at h
    split at h
    · exact absurd h (by decide)
    · cases h
  · exact point_notMem (all_isDigit_digits _) h

/-- A whole number of 64 bits with a sign is a whole number of JSON. -/
theorem Json.ofInt?_of_holds {n : Int} (h : Range.int64.holds n = true) :
    ∃ whole : Json.Whole, Json.ofInt? n = some (.whole whole) ∧ whole.value = n := by
  rw [Range.holds, Bool.and_eq_true, decide_eq_true_eq, decide_eq_true_eq] at h
  have hgreatest : Range.int64.greatest ≤ Range.nat64.greatest := by decide
  have hbounds : Range.int64.least ≤ n ∧ n ≤ Range.nat64.greatest := ⟨h.1, h.2.trans hgreatest⟩
  refine ⟨⟨n, hbounds.1, hbounds.2⟩, ?_, rfl⟩
  rw [Json.ofInt?, Json.Whole.ofInt?, dif_pos hbounds]
  rfl

/-- The whole number of 64 bits that a canonical decimal is the text of. -/
def wholeNumber? (canonical : List Char) : Option Json :=
  (if '.' ∈ canonical then none else Range.int64.read? canonical).bind Json.ofInt?

/-- The text of a whole number of 64 bits is read as this number. -/
theorem wholeNumber?_intText {n : Int} (h : Range.int64.holds n = true) :
    ∃ whole : Json.Whole, wholeNumber? (intText n).toList = some (.whole whole) ∧
      whole.value = n := by
  obtain ⟨whole, hwhole, hvalue⟩ := Json.ofInt?_of_holds h
  refine ⟨whole, ?_, hvalue⟩
  rw [wholeNumber?, if_neg (point_notMem_intText n), Range.int64.read?_intText, if_pos h,
    Option.bind_some, hwhole]

/-- What is read as a whole number is the text of this number. -/
theorem wholeNumber?_eq_some (h : canonical? text = some canonical)
    (hwhole : wholeNumber? canonical = some v) :
    ∃ whole : Json.Whole, v = .whole whole ∧ Range.int64.holds whole.value = true ∧
      (intText whole.value).toList = canonical := by
  obtain ⟨n, hn, hof⟩ := Option.bind_eq_some_iff.mp hwhole
  split at hn
  · cases hn
  · next hpoint =>
    have htext := intText_of_read? h hpoint hn
    have hholds : Range.int64.holds n = true := by
      rw [← htext, Range.int64.read?_intText] at hn
      split at hn
      · assumption
      · cases hn
    obtain ⟨whole, hwhole, rfl⟩ := Json.ofInt?_of_holds hholds
    obtain rfl := Option.some.inj (hof.symm.trans hwhole)
    exact ⟨whole, rfl, hholds, htext⟩

theorem exactNumber?_eq (canonical : List Char) :
    exactNumber? canonical = (wholeNumber? canonical).or
      (((Literal.read? canonical).bind Literal.toBinary64?).bind fun x =>
        if Layout.plain.render x = canonical then some (.real x) else none) := by
  unfold exactNumber? wholeNumber?
  dsimp only
  cases (if '.' ∈ canonical then none else Range.int64.read? canonical).bind Json.ofInt? with
  | some n => rfl
  | none => cases (Literal.read? canonical).bind Literal.toBinary64? <;> rfl

/-- A canonical decimal is read as a JSON number where there is one that is written like it. -/
theorem exactNumber?_spec (h : canonical? text = some canonical) :
    (∀ v, exactNumber? canonical = some v → IsExactly canonical v) ∧
      (exactNumber? canonical = none → ∀ v, ¬ IsExactly canonical v) := by
  rw [exactNumber?_eq]
  cases hwhole : wholeNumber? canonical with
  | some w =>
    obtain ⟨whole, rfl, hholds, htext⟩ := wholeNumber?_eq_some h hwhole
    refine ⟨fun v hv => ?_, fun hnone => nomatch hnone⟩
    obtain rfl := Option.some.inj hv
    exact .whole hholds htext
  | none =>
    have hnowhole : ∀ n, Range.int64.holds n = true → (intText n).toList ≠ canonical := by
      rintro n hholds rfl
      obtain ⟨whole, hsome, -⟩ := wholeNumber?_intText hholds
      rw [hwhole] at hsome
      cases hsome
    rw [Option.none_or]
    constructor
    · intro v hv
      obtain ⟨x, -, hx⟩ := Option.bind_eq_some_iff.mp hv
      split at hx
      · next hrender =>
        obtain rfl := Option.some.inj hx
        exact .real hnowhole hrender
      · cases hx
    · intro hnone v hv
      cases hv with
      | whole hholds htext => exact hnowhole _ hholds htext
      | @real x _ hrender =>
        -- the number is read back from its text
        rw [← hrender, Layout.toBinary64?_render, Option.bind_some, if_pos rfl] at hnone
        cases hnone

/-- The decimal number of a JSON value: that of a number is the one it is written as in some layout,
that of a text the one it says. -/
def Json.decimal? (layout : Layout) : Json → Option ℚ
  | .whole n => some n.value
  | .real x => ratOf? (layout.render x)
  | .str s => ratOf? (Text.trimChars s.toList)
  | _ => none

theorem IsExactly.decimal?_eq (h : IsExactly canonical v) :
    v.decimal? .plain = ratOf? canonical := by
  cases h with
  | whole _ htext =>
    rw [← htext, ratOf?_intText]
    rfl
  | real _ hrender =>
    rw [← hrender]
    rfl

/-- What the text of a decimal is read as: the number that is written like its canonical form, or
this form where there is no such number. -/
inductive ReadsDecimal (canonical : List Char) : Json → Prop
  | number {v : Json} : IsExactly canonical v → ReadsDecimal canonical v
  | text : (∀ v, ¬ IsExactly canonical v) → ReadsDecimal canonical (.str (String.ofList canonical))

theorem readsDecimal_of_readDecimal? {s : String} (h : readDecimal? s = some v) :
    ∃ canonical, canonical? s.toList = some canonical ∧ ReadsDecimal canonical v := by
  obtain ⟨canonical, hcanonical, hv⟩ := Option.map_eq_some_iff.mp h
  obtain ⟨hsome, hnone⟩ := exactNumber?_spec hcanonical
  refine ⟨canonical, hcanonical, ?_⟩
  cases hexact : exactNumber? canonical with
  | some w =>
    rw [hexact, Option.getD_some] at hv
    obtain rfl := hv
    exact .number (hsome w hexact)
  | none =>
    rw [hexact, Option.getD_none] at hv
    obtain rfl := hv
    exact .text (hnone hexact)

/-- Reading a decimal keeps the number. -/
theorem decimal?_of_readDecimal? {s : String} (h : readDecimal? s = some v) :
    ∃ q, ratOf? (Text.trimChars s.toList) = some q ∧ v.decimal? .plain = some q := by
  obtain ⟨canonical, hcanonical, hreads⟩ := readsDecimal_of_readDecimal? h
  obtain ⟨q, hq, hq'⟩ := ratOf?_canonical? hcanonical
  refine ⟨q, hq, ?_⟩
  cases hreads with
  | number hexact => rw [hexact.decimal?_eq, hq']
  | text _ =>
    obtain ⟨q', htrim, hself⟩ := ratOf?_canonical? (canonical?_self hcanonical)
    rw [Json.decimal?, String.toList_ofList, htrim, ← hself, hq']

/-- A text that a decimal is read as is read as itself. -/
theorem readDecimal?_self {s s' : String} (h : readDecimal? s = some (.str s')) :
    readDecimal? s' = some (.str s') := by
  obtain ⟨canonical, hcanonical, hv⟩ := Option.map_eq_some_iff.mp h
  cases hexact : exactNumber? canonical with
  | some w =>
    rw [hexact, Option.getD_some] at hv
    obtain rfl := hv
    cases (exactNumber?_spec hcanonical).1 _ hexact
  | none =>
    rw [hexact, Option.getD_none] at hv
    obtain rfl := Json.str.inj hv
    rw [readDecimal?, String.toList_ofList, canonical?_self hcanonical, Option.map_some, hexact,
      Option.getD_none]

end SoapClient
