import SoapClient.Proofs.Decimal.Uniqueness
import SoapClient.Proofs.Value.Coercion
import SoapClient.Proofs.Value.Decimals

/-!
# Decimals are read exactly

A raw text is read as a decimal where it is one, but for blanks around it, and what it is read as
says the same number to the last digit (`coerce_decimal_exact`).
-/

namespace SoapClient

open Decimal

variable {m : ServiceModel} {s : String} {r : Json}

/-- A value that says a number, of which a canonical text is given: a whole number equal to it, a
binary64 number whose shortest text without an exponent is the canonical text, or this text. -/
inductive HoldsDecimal (q : ℚ) (canonical : List Char) : Json → Prop
  | whole {n : Json.Whole} : (n.value : ℚ) = q → HoldsDecimal q canonical (.whole n)
  | real {x : Binary64} : Layout.plain.render x = canonical → HoldsDecimal q canonical (.real x)
  | text : HoldsDecimal q canonical (.str (String.ofList canonical))

/-- What a canonical text is read as holds the number that the text says. -/
theorem ReadsDecimal.holdsDecimal {canonical : List Char} {q : ℚ} (h : ReadsDecimal canonical r)
    (hsaid : Says canonical q) : HoldsDecimal q canonical r := by
  cases h with
  | number hexact =>
    cases hexact with
    | @whole n _ htext =>
      have hratOf : ratOf? canonical = some (n.value : ℚ) := by
        rw [← htext]
        exact ratOf?_intText n.value
      exact .whole (Option.some.inj (hratOf.symm.trans hsaid.ratOf?_eq))
    | real _ hrender => exact .real hrender
  | text _ => exact .text

/-- A text is read as a decimal where it has a canonical form. -/
theorem coerce_decimal_iff :
    coerce m (.str s) (.primitive .decimal) = .ok r ↔ readDecimal? s = some r := by
  rw [coerce_primitive (by simp), coercePrimitive_eq_ok_iff]
  rfl

theorem isSome_readDecimal? : (readDecimal? s).isSome = (canonical? s.toList).isSome :=
  Option.isSome_map

/-- Decimals are read exactly. They are the texts with a canonical form, which says the same number,
is its own canonical form and is shared by the decimals that say this number and by no others. A raw
text is read as a decimal where it is one, and what it is read as holds the number that it says. -/
theorem coerce_decimal_exact (m : ServiceModel) (s s' : String) :
    ((canonical? s.toList).isSome ↔ ∃ q, Says (Text.trimChars s.toList) q) ∧
    (∀ canonical, canonical? s.toList = some canonical →
      canonical? canonical = some canonical ∧
      ∃ q, Says (Text.trimChars s.toList) q ∧ Says canonical q) ∧
    (∀ canonical canonical', canonical? s.toList = some canonical →
      canonical? s'.toList = some canonical' →
      (canonical = canonical' ↔
        ∃ q, Says (Text.trimChars s.toList) q ∧ Says (Text.trimChars s'.toList) q)) ∧
    ((∃ r, coerce m (.str s) (.primitive .decimal) = .ok r) ↔
      ∃ q, Says (Text.trimChars s.toList) q) ∧
    ∀ r, coerce m (.str s) (.primitive .decimal) = .ok r → ∃ q canonical,
      Says (Text.trimChars s.toList) q ∧ canonical? s.toList = some canonical ∧
      HoldsDecimal q canonical r := by
  have hsaid : ∀ text canonical, canonical? text = some canonical →
      ∃ q, Says (Text.trimChars text) q ∧ Says canonical q := by
    intro text canonical hcanonical
    obtain ⟨q, hq⟩ := isSome_canonical?_iff.mp (Option.isSome_of_eq_some hcanonical)
    exact ⟨q, hq, hq.canonical? hcanonical⟩
  refine ⟨isSome_canonical?_iff, ?_, ?_, ?_, ?_⟩
  · intro canonical hcanonical
    exact ⟨canonical?_self hcanonical, hsaid _ _ hcanonical⟩
  · intro canonical canonical' hcanonical hcanonical'
    constructor
    · rintro rfl
      obtain ⟨q, hq, hself⟩ := hsaid _ _ hcanonical
      obtain ⟨q', hq', hself'⟩ := hsaid _ _ hcanonical'
      obtain rfl := hself.unique hself'
      exact ⟨q, hq, hq'⟩
    · rintro ⟨q, hq, hq'⟩
      exact hq.canonical?_inj hq' hcanonical hcanonical'
  · simp only [coerce_decimal_iff]
    rw [← isSome_canonical?_iff, ← isSome_readDecimal?, Option.isSome_iff_exists]
  · intro r hr
    obtain ⟨canonical, hcanonical, hreads⟩ :=
      readsDecimal_of_readDecimal? (coerce_decimal_iff.mp hr)
    obtain ⟨q, hq, hself⟩ := hsaid _ _ hcanonical
    exact ⟨q, canonical, hq, hcanonical, hreads.holdsDecimal hself⟩

/-- The price `+007.50`, with a blank in front of it, is read exactly. -/
theorem coerce_decimal_exact_price :
    ∃ r q, coerce ⟨"", [], []⟩ (.str " +007.50") (.primitive .decimal) = .ok r ∧
      HoldsDecimal q "7.5".toList r := by
  have hcanonical : canonical? " +007.50".toList = some "7.5".toList := by decide +kernel
  obtain ⟨hsome, -, -, hread, hholds⟩ := coerce_decimal_exact ⟨"", [], []⟩ " +007.50" ""
  obtain ⟨r, hr⟩ := hread.mpr (hsome.mp (Option.isSome_of_eq_some hcanonical))
  obtain ⟨q, canonical, -, hcanonical', hr'⟩ := hholds r hr
  obtain rfl := Option.some.inj (hcanonical.symm.trans hcanonical')
  exact ⟨r, q, hr, hr'⟩

end SoapClient
