import SoapClient.Decimal.Digits
import SoapClient.Text.Blank

/-!
# Whole numbers as text

Main statement: the text of a whole number is read as this number by the ranges that hold it
(`Range.read?_intText`). Cutting off blanks leaves it as it is, as it has none.
-/

namespace SoapClient

/-! ## Blanks -/

/-- Characters without blanks stay what they are. -/
theorem Text.trimChars_of_not_isBlank {cs : List Char} (h : ∀ c ∈ cs, Text.isBlank c = false) :
    Text.trimChars cs = cs := by
  have hdrop : ∀ ds : List Char, (∀ c ∈ ds, Text.isBlank c = false) → Text.dropBlanks ds = ds := by
    intro ds hds
    cases ds with
    | nil => rfl
    | cons d ds =>
      rw [Text.dropBlanks, List.dropWhile_cons_of_neg]
      simp [hds d List.mem_cons_self]
  have hreverse : ∀ c ∈ cs.reverse, Text.isBlank c = false :=
    fun c hc => h c (List.mem_reverse.mp hc)
  rw [Text.trimChars, hdrop cs h, Text.dropBlanksEnd, hdrop _ hreverse, List.reverse_reverse]

namespace Decimal

/-! ## Digits -/

theorem isDigit_of_mem_digits {n : Nat} {c : Char} (h : c ∈ digits n) : c.isDigit = true :=
  Nat.isDigit_of_mem_toDigits (by decide) (by decide) h

theorem digits_ne_nil (n : Nat) : digits n ≠ [] := Nat.toDigits_ne_nil

/-- The digits of a number are read as this number. -/
theorem readDigits?_digits (n : Nat) : readDigits? (digits n) = some n := by
  have hdigits : digits n ≠ [] ∧ (digits n).all Char.isDigit = true :=
    ⟨digits_ne_nil n, List.all_eq_true.mpr fun c hc => isDigit_of_mem_digits hc⟩
  rw [readDigits?, if_pos hdigits, ofDigits_digits]

/-- Different numbers have different texts. -/
theorem natText_injective {m n : Nat} (h : natText m = natText n) : m = n := by
  have hdigits : digits m = digits n := String.ofList_injective h
  rw [← ofDigits_digits m, hdigits, ofDigits_digits]

/-! ## Numbers with a sign -/

/-- Characters that are no sign are read as digits. -/
theorem Range.read?_unsigned (r : Range) {ds : List Char}
    (h : ∀ c ∈ ds, c ≠ '+' ∧ c ≠ '-') :
    r.read? ds = ((readDigits? ds).map Int.ofNat).filter r.holds := by
  cases ds with
  | nil => rfl
  | cons c cs =>
    obtain ⟨hplus, hminus⟩ := h c List.mem_cons_self
    rw [Range.read?]
    · intro ds hds
      exact hplus (List.cons.inj hds).1
    · intro ds hds
      exact hminus (List.cons.inj hds).1

/-- A digit is no sign. -/
theorem ne_sign_of_isDigit {c : Char} (h : c.isDigit = true) : c ≠ '+' ∧ c ≠ '-' := by
  constructor
  · rintro rfl
    exact absurd h (by decide)
  · rintro rfl
    exact absurd h (by decide)

/-- The text of a number is read as this number, by the ranges that hold it. -/
theorem Range.read?_intText (r : Range) (n : Int) :
    r.read? (intText n).toList = if r.holds n then some n else none := by
  have hfilter : (some n).filter r.holds = if r.holds n then some n else none := rfl
  cases n with
  | ofNat n =>
    have hsigns : ∀ c ∈ digits n, c ≠ '+' ∧ c ≠ '-' :=
      fun c hc => ne_sign_of_isDigit (isDigit_of_mem_digits hc)
    rw [intText, natText, String.toList_ofList, r.read?_unsigned hsigns, readDigits?_digits]
    exact hfilter
  | negSucc n =>
    rw [intText, String.toList_ofList, Range.read?]
    by_cases hleast : r.least < 0
    · simp only [if_pos hleast, readDigits?_digits]
      exact hfilter
    · have hholds : ¬ r.holds (.negSucc n) = true := by
        simp only [Range.holds, Bool.and_eq_true, decide_eq_true_eq]
        omega
      rw [if_neg hholds]
      simp only [if_neg hleast, Option.filter_none]

/-! ## No blanks -/

/-- A digit is no blank. -/
theorem not_isBlank_of_isDigit {d : Char} (h : d.isDigit = true) : Text.isBlank d = false := by
  simp only [Char.isDigit, ge_iff_le, Bool.and_eq_true, decide_eq_true_eq] at h
  obtain ⟨hlow, hhigh⟩ := h
  have hlow : 48 ≤ d.toNat := hlow
  have hhigh : d.toNat ≤ 57 := hhigh
  simp only [Text.isBlank, Bool.or_eq_false_iff, Bool.and_eq_false_iff, decide_eq_false_iff_not,
    beq_eq_false_iff_ne]
  omega

/-- The characters of a number are no blanks. -/
theorem not_isBlank_of_mem_intText {n : Int} {c : Char} (h : c ∈ (intText n).toList) :
    Text.isBlank c = false := by
  cases n with
  | ofNat n =>
    rw [intText, natText, String.toList_ofList] at h
    exact not_isBlank_of_isDigit (isDigit_of_mem_digits h)
  | negSucc n =>
    rw [intText, String.toList_ofList, List.mem_cons] at h
    rcases h with rfl | h
    · decide
    · exact not_isBlank_of_isDigit (isDigit_of_mem_digits h)

theorem intText_ne_nil (n : Int) : (intText n).toList ≠ [] := by
  cases n with
  | ofNat n =>
    rw [intText, natText, String.toList_ofList]
    exact digits_ne_nil n
  | negSucc n => simp [intText]

end Decimal

end SoapClient
