import Mathlib.Data.List.DropRight
import SoapClient.Decimal.Canonical
import SoapClient.Proofs.Decimal.Layout

/-!
# Canonical decimals

The canonical form of a decimal is a form of the same number (`ratOf?_canonical?`), and it is its
own canonical form (`canonical?_self`). Whole numbers are written in it (`canonical?_intText`), and
a canonical form without a point is the text of a whole number (`intText_of_read?`).
-/

namespace SoapClient.Decimal

open Literal (IsFraction StartsUnsigned)

/-! ## Zeros that do not count -/

/-- Leading zeros do not count. -/
theorem ofDigits_dropWhile (ds : List Char) : ofDigits (ds.dropWhile (· = '0')) = ofDigits ds := by
  induction ds with
  | nil => rfl
  | cons d ds ih =>
    by_cases hd : d = '0'
    · subst hd
      rw [List.dropWhile_cons_of_pos rfl, ih]
      simp [ofDigits, Nat.ofDigitChars_cons]
    · rw [List.dropWhile_cons_of_neg (by simpa using hd)]

@[simp] theorem ofDigits_canonicalWhole (ds : List Char) :
    ofDigits (canonicalWhole ds) = ofDigits ds := by
  rw [← ofDigits_dropWhile ds]
  unfold canonicalWhole
  split
  · next h =>
    rw [h]
    rfl
  · rfl

/-- The digits behind the point are the canonical ones and zeros behind them. -/
theorem exists_eq_canonicalFraction_append (ds : List Char) :
    ∃ n, ds = canonicalFraction ds ++ List.replicate n '0' := by
  refine ⟨(ds.reverse.takeWhile (· = '0')).length, ?_⟩
  have hzeros : ds.reverse.takeWhile (· = '0') =
      List.replicate (ds.reverse.takeWhile (· = '0')).length '0' := by
    rw [List.eq_replicate_length]
    intro c hc
    simpa using List.mem_takeWhile_imp hc
  rw [canonicalFraction, ← List.reverse_replicate, ← hzeros, ← List.reverse_append,
    List.takeWhile_append_dropWhile, List.reverse_reverse]

/-- Zeros at the end of the fraction do not change the number. -/
theorem toRat_canonical (whole fraction : List Char) :
    Scaled.toRat ⟨ofDigits (canonicalWhole whole ++ canonicalFraction fraction),
      0 - (canonicalFraction fraction).length⟩ =
        Scaled.toRat ⟨ofDigits (whole ++ fraction), 0 - fraction.length⟩ := by
  obtain ⟨n, hn⟩ := exists_eq_canonicalFraction_append fraction
  have hlength : fraction.length = (canonicalFraction fraction).length + n := by
    calc fraction.length = (canonicalFraction fraction ++ List.replicate n '0').length := by
          rw [← hn]
      _ = (canonicalFraction fraction).length + n := by
          rw [List.length_append, List.length_replicate]
  have hdigits : ofDigits (whole ++ fraction) =
      10 ^ n * ofDigits (canonicalWhole whole ++ canonicalFraction fraction) := by
    calc ofDigits (whole ++ fraction)
        = ofDigits (whole ++ canonicalFraction fraction ++ List.replicate n '0') := by
          rw [List.append_assoc, ← hn]
      _ = 10 ^ n * ofDigits (canonicalWhole whole ++ canonicalFraction fraction) := by
          rw [ofDigits_append, ofDigits_append, ofDigits_append, ofDigits_replicate_zero,
            List.length_replicate, ofDigits_canonicalWhole, Nat.add_zero]
  rw [hdigits, hlength, Nat.cast_add, ← Int.sub_sub, Scaled.toRat_shift]

theorem canonicalWhole_ne_nil (ds : List Char) : canonicalWhole ds ≠ [] := by
  unfold canonicalWhole
  split
  · exact List.cons_ne_nil _ _
  · next h => exact h

theorem canonicalWhole_idem (ds : List Char) :
    canonicalWhole (canonicalWhole ds) = canonicalWhole ds := by
  cases h : ds.dropWhile (· = '0') with
  | nil =>
    have hzero : canonicalWhole ds = ['0'] := by rw [canonicalWhole, h]
    rw [hzero]
    rfl
  | cons c cs =>
    have hcons : canonicalWhole ds = c :: cs := by rw [canonicalWhole, h]
    have hdrop : (c :: cs).dropWhile (· = '0') = c :: cs := by
      rw [← h]
      exact List.dropWhile_idempotent _ _
    rw [hcons, canonicalWhole, hdrop]

theorem canonicalFraction_idem (ds : List Char) :
    canonicalFraction (canonicalFraction ds) = canonicalFraction ds := by
  unfold canonicalFraction
  rw [List.reverse_reverse, List.dropWhile_idempotent]

theorem all_isDigit_canonicalWhole {ds : List Char} (h : ds.all Char.isDigit = true) :
    (canonicalWhole ds).all Char.isDigit = true := by
  unfold canonicalWhole
  split
  · rfl
  · exact all_isDigit_of_subset h (List.dropWhile_sublist _).subset

theorem all_isDigit_canonicalFraction {ds : List Char} (h : ds.all Char.isDigit = true) :
    (canonicalFraction ds).all Char.isDigit = true := by
  obtain ⟨n, hn⟩ := exists_eq_canonicalFraction_append ds
  rw [hn, List.all_append, Bool.and_eq_true] at h
  exact h.1

/-! ## Unsigned decimals -/

/-- The canonical text of a decimal. -/
def canonicalText (negative : Bool) (whole fraction : List Char) : List Char :=
  signText (decide (negative ∧
      ¬ (canonicalWhole whole = ['0'] ∧ canonicalFraction fraction = []))) ++
    (canonicalWhole whole ++
      if canonicalFraction fraction = [] then [] else '.' :: canonicalFraction fraction)

/-- The digits of a text, before its first point and behind it. -/
def cutDigits (text : List Char) : List Char × List Char := (Text.cutAt '.' text).getD (text, [])

/-- Cutting at the point loses nothing. -/
theorem exists_of_cutDigits {text whole fraction : List Char}
    (h : cutDigits text = (whole, fraction)) :
    ∃ pointed, text = whole ++ pointed ∧ IsFraction pointed fraction := by
  unfold cutDigits at h
  cases hcut : Text.cutAt '.' text with
  | none =>
    rw [hcut] at h
    obtain ⟨rfl, rfl⟩ := Prod.mk.inj h
    exact ⟨[], (List.append_nil _).symm, .inr ⟨rfl, rfl⟩⟩
  | some parts =>
    rw [hcut] at h
    obtain rfl : parts = (whole, fraction) := h
    exact ⟨'.' :: fraction, (Text.cutAt_eq_some hcut).1, .inl rfl⟩

/-- No digit is a point. -/
theorem point_notMem {ds : List Char} (h : ds.all Char.isDigit = true) : '.' ∉ ds := by
  intro hmem
  have hdigit := List.all_eq_true.mp h '.' hmem
  exact absurd hdigit (by decide)

/-- The digits before the point and behind it are found. -/
theorem IsUnsigned.cutDigits_eq {text whole fraction : List Char}
    (h : IsUnsigned text whole fraction) : cutDigits text = (whole, fraction) := by
  obtain ⟨pointed, rfl, hpointed⟩ := h.parts
  have hpoint := point_notMem h.whole_digits
  unfold cutDigits
  rcases hpointed with rfl | ⟨rfl, rfl⟩
  · rw [Text.cutAt_append fraction hpoint]
    rfl
  · rw [List.append_nil, Text.cutAt_eq_none_iff.mpr hpoint]
    rfl

/-- What becomes of the digits of a text. -/
theorem canonicalUnsigned?_eq (negative : Bool) {text whole fraction : List Char}
    (h : cutDigits text = (whole, fraction)) :
    canonicalUnsigned? negative text =
      if whole ++ fraction = [] ∨ ¬ (whole ++ fraction).all Char.isDigit then none
      else some (canonicalText negative whole fraction) := by
  have hpoint : (if canonicalFraction fraction = [] then [] else ['.']) ++
      canonicalFraction fraction =
        if canonicalFraction fraction = [] then [] else '.' :: canonicalFraction fraction := by
    split
    · next hnil => exact hnil
    · rfl
  unfold canonicalUnsigned? canonicalText signText
  rw [show (Text.cutAt '.' text).getD (text, []) = (whole, fraction) from h]
  dsimp only
  split
  · rfl
  · simp only [decide_eq_true_eq, List.append_assoc, hpoint]

/-- Unsigned decimals and no other texts have a canonical form. -/
theorem canonicalUnsigned?_eq_some_iff {negative : Bool} {text canonical : List Char} :
    canonicalUnsigned? negative text = some canonical ↔
      ∃ whole fraction, IsUnsigned text whole fraction ∧
        canonical = canonicalText negative whole fraction := by
  constructor
  · intro h
    obtain ⟨whole, fraction, hcut⟩ : ∃ whole fraction, cutDigits text = (whole, fraction) :=
      ⟨_, _, rfl⟩
    rw [canonicalUnsigned?_eq negative hcut] at h
    split at h
    · cases h
    · next hdigits =>
      rw [not_or, Decidable.not_not, List.all_append, Bool.and_eq_true] at hdigits
      refine ⟨whole, fraction, ⟨exists_of_cutDigits hcut, hdigits.2.1, hdigits.2.2, hdigits.1⟩, ?_⟩
      exact (Option.some.inj h).symm
  · rintro ⟨whole, fraction, h, rfl⟩
    have hdigits : (whole ++ fraction).all Char.isDigit = true := by
      rw [List.all_append, h.whole_digits, h.fraction_digits, Bool.and_self]
    rw [canonicalUnsigned?_eq negative h.cutDigits_eq, if_neg]
    rintro (hnil | hdigits')
    · exact h.ne_nil hnil
    · exact hdigits' hdigits

/-! ## Decimals with a sign -/

/-- A decimal has no blanks, so that none are cut off. -/
theorem IsUnsigned.trimChars_eq {text whole fraction : List Char}
    (h : IsUnsigned text whole fraction) (negative : Bool) :
    Text.trimChars (signText negative ++ text) = signText negative ++ text := by
  apply Text.trimChars_of_not_isBlank
  intro c hc
  rcases List.mem_append.mp hc with hc | hc
  · exact not_isBlank_of_mem_signText hc
  · exact h.not_isBlank hc

/-- An unsigned decimal behind a minus sign, or without a sign, has a canonical form. -/
theorem IsUnsigned.canonical?_eq {text whole fraction : List Char}
    (h : IsUnsigned text whole fraction) (negative : Bool) :
    canonical? (signText negative ++ text) = some (canonicalText negative whole fraction) := by
  have hunsigned :
      canonicalUnsigned? negative text = some (canonicalText negative whole fraction) :=
    canonicalUnsigned?_eq_some_iff.mpr ⟨whole, fraction, h, rfl⟩
  unfold canonical?
  rw [h.trimChars_eq negative]
  cases negative with
  | true => exact hunsigned
  | false =>
    rw [show signText false ++ text = text from rfl]
    split
    · exact absurd rfl h.text_ne_nil
    · rcases h.denotes.1 '-' rfl with hdigit | hdigit
      · exact absurd hdigit (by decide)
      · exact absurd hdigit (by decide)
    · rcases h.denotes.1 '+' rfl with hdigit | hdigit
      · exact absurd hdigit (by decide)
      · exact absurd hdigit (by decide)
    · exact hunsigned

/-- What has a canonical form is an unsigned decimal behind a sign, with blanks around it. -/
theorem canonical?_eq_some {text canonical : List Char} (h : canonical? text = some canonical) :
    ∃ negative unsigned whole fraction, IsUnsigned unsigned whole fraction ∧
      (Text.trimChars text = signText negative ++ unsigned ∨
        Text.trimChars text = '+' :: unsigned ∧ negative = false) ∧
      canonical = canonicalText negative whole fraction := by
  unfold canonical? at h
  split at h
  · cases h
  · next unsigned htrim =>
    obtain ⟨whole, fraction, hunsigned, hcanonical⟩ := canonicalUnsigned?_eq_some_iff.mp h
    exact ⟨true, unsigned, whole, fraction, hunsigned, .inl htrim, hcanonical⟩
  · next unsigned htrim =>
    obtain ⟨whole, fraction, hunsigned, hcanonical⟩ := canonicalUnsigned?_eq_some_iff.mp h
    exact ⟨false, unsigned, whole, fraction, hunsigned, .inr ⟨htrim, rfl⟩, hcanonical⟩
  · obtain ⟨whole, fraction, hunsigned, hcanonical⟩ := canonicalUnsigned?_eq_some_iff.mp h
    exact ⟨false, _, whole, fraction, hunsigned, .inl rfl, hcanonical⟩

/-! ## Canonical forms -/

/-- Without its sign a canonical form is an unsigned decimal again. -/
theorem IsUnsigned.canonical {text whole fraction : List Char}
    (h : IsUnsigned text whole fraction) :
    IsUnsigned (canonicalWhole whole ++
      if canonicalFraction fraction = [] then [] else '.' :: canonicalFraction fraction)
      (canonicalWhole whole) (canonicalFraction fraction) := by
  refine ⟨⟨_, rfl, ?_⟩, all_isDigit_canonicalWhole h.whole_digits,
    all_isDigit_canonicalFraction h.fraction_digits, ?_⟩
  · split
    · next hnil => exact .inr ⟨rfl, hnil⟩
    · exact .inl rfl
  · exact List.append_ne_nil_of_left_ne_nil (canonicalWhole_ne_nil whole) _

/-- The canonical form of a decimal is a form of the same number. -/
theorem ratOf?_canonical? {text canonical : List Char} (h : canonical? text = some canonical) :
    ∃ q, ratOf? (Text.trimChars text) = some q ∧ ratOf? canonical = some q := by
  obtain ⟨negative, unsigned, whole, fraction, hunsigned, htrim, rfl⟩ := canonical?_eq_some h
  refine ⟨signed negative (Scaled.toRat ⟨ofDigits (whole ++ fraction), 0 - fraction.length⟩),
    ?_, ?_⟩
  · rcases htrim with htrim | ⟨htrim, rfl⟩
    · rw [htrim, hunsigned.denotes.ratOf?_signText]
    · rw [htrim, hunsigned.denotes.ratOf?_plus]
      rfl
  · unfold canonicalText
    rw [hunsigned.canonical.denotes.ratOf?_signText, toRat_canonical]
    by_cases hzero : canonicalWhole whole = ['0'] ∧ canonicalFraction fraction = []
    · -- zero has no sign, but then the sign makes no difference
      have hvalue : Scaled.toRat ⟨ofDigits (whole ++ fraction), 0 - fraction.length⟩ = 0 := by
        rw [← toRat_canonical, hzero.1, hzero.2]
        simp [ofDigits, Nat.ofDigitChars_cons, Scaled.toRat]
      rw [hvalue]
      simp [signed]
    · simp [hzero]

/-- A canonical form is its own canonical form. -/
theorem canonical?_self {text canonical : List Char} (h : canonical? text = some canonical) :
    canonical? canonical = some canonical := by
  obtain ⟨negative, unsigned, whole, fraction, hunsigned, -, rfl⟩ := canonical?_eq_some h
  have hself := hunsigned.canonical.canonical?_eq
    (decide (negative ∧ ¬ (canonicalWhole whole = ['0'] ∧ canonicalFraction fraction = [])))
  unfold canonicalText at hself ⊢
  rw [canonicalWhole_idem, canonicalFraction_idem] at hself
  simpa using hself

/-! ## Whole numbers -/

/-- The number of a single digit. -/
theorem ofDigits_singleton (d : Char) : ofDigits [d] = d.toNat - 48 := by
  simp [ofDigits, Nat.ofDigitChars_cons]

theorem toNat_of_isDigit {d : Char} (h : d.isDigit = true) : 48 ≤ d.toNat ∧ d.toNat ≤ 57 := by
  simp only [Char.isDigit, ge_iff_le, Bool.and_eq_true, decide_eq_true_eq] at h
  exact h

/-- Digits that do not start with a zero stand for a number that is not zero. -/
theorem ofDigits_ne_zero {d : Char} {ds : List Char} (hd : d.isDigit = true) (hzero : d ≠ '0') :
    ofDigits (d :: ds) ≠ 0 := by
  have hdigit := toNat_of_isDigit hd
  have hne : d.toNat ≠ 48 := fun h => hzero (Char.toNat_inj.mp h)
  have hsplit : ofDigits (d :: ds) = 10 ^ ds.length * ofDigits [d] + ofDigits ds :=
    ofDigits_append [d] ds
  have hpos : 0 < 10 ^ ds.length * ofDigits [d] := by
    rw [ofDigits_singleton]
    exact Nat.mul_pos (Nat.pow_pos (by decide)) (by omega)
  omega

/-- A single digit is written as itself. -/
theorem digits_ofDigits_singleton {d : Char} (h : d.isDigit = true) :
    digits (ofDigits [d]) = [d] := by
  have hdigit := toNat_of_isDigit h
  have hchar : ∀ n < 10, (Nat.digitChar n).toNat = 48 + n := by decide
  rw [ofDigits_singleton, digits, Nat.toDigits_of_lt_base (by omega)]
  congr 1
  apply Char.toNat_inj.mp
  rw [hchar _ (by omega)]
  omega

/-- Digits that do not start with a zero are those of the number they stand for. -/
theorem digits_ofDigits {d : Char} {ds : List Char} (h : (d :: ds).all Char.isDigit = true)
    (hzero : d ≠ '0') : digits (ofDigits (d :: ds)) = d :: ds := by
  -- the last digit is taken off, so that the first one stays what it is
  induction ds using List.reverseRecOn with
  | nil =>
    rw [List.all_cons, List.all_nil, Bool.and_true] at h
    exact digits_ofDigits_singleton h
  | append_singleton ds e ih =>
    rw [← List.cons_append, List.all_append, Bool.and_eq_true] at h
    have hd : d.isDigit = true := List.all_eq_true.mp h.1 d List.mem_cons_self
    have he : e.isDigit = true := List.all_eq_true.mp h.2 e (List.mem_singleton_self e)
    have hpos : 0 < ofDigits (d :: ds) := Nat.pos_of_ne_zero (ofDigits_ne_zero hd hzero)
    have hlast : ofDigits [e] < 10 := by
      have := toNat_of_isDigit he
      rw [ofDigits_singleton]
      omega
    calc digits (ofDigits (d :: (ds ++ [e])))
        = digits (10 * ofDigits (d :: ds) + ofDigits [e]) := by
          rw [← List.cons_append, ofDigits_append, List.length_singleton, Nat.pow_one]
      _ = digits (ofDigits (d :: ds)) ++ digits (ofDigits [e]) :=
          (Nat.toDigits_append_toDigits (by decide) hpos hlast).symm
      _ = d :: (ds ++ [e]) := by
          rw [ih h.1, digits_ofDigits_singleton he, List.cons_append]

/-- The digits of a whole number without its leading zeros. -/
theorem digits_ofDigits_canonicalWhole {ds : List Char} (h : ds.all Char.isDigit = true) :
    digits (ofDigits ds) = canonicalWhole ds := by
  have hcanonical := all_isDigit_canonicalWhole h
  rw [← ofDigits_canonicalWhole]
  cases hdrop : ds.dropWhile (· = '0') with
  | nil =>
    have hzero : canonicalWhole ds = ['0'] := by rw [canonicalWhole, hdrop]
    rw [hzero]
    rfl
  | cons c cs =>
    have hcons : canonicalWhole ds = c :: cs := by rw [canonicalWhole, hdrop]
    have hc : c ≠ '0' := by
      have hhead := List.dropWhile_get_zero_not (· = '0') ds (by rw [hdrop]; exact Nat.succ_pos _)
      simpa [hdrop] using hhead
    rw [hcons] at hcanonical ⊢
    exact digits_ofDigits hcanonical hc

/-- Digits of a number have no leading zeros. -/
theorem canonicalWhole_digits (n : Nat) : canonicalWhole (digits n) = digits n := by
  rw [← digits_ofDigits_canonicalWhole (all_isDigit_digits n), ofDigits_digits]

/-- The text of a whole number is a sign and its digits. -/
theorem toList_intText (n : Int) :
    (intText n).toList = signText (decide (n < 0)) ++ digits n.natAbs := by
  cases n with
  | ofNat n =>
    have hsign : ¬ Int.ofNat n < 0 := Int.not_lt.mpr (Int.natCast_nonneg n)
    rw [intText, natText, String.toList_ofList, decide_eq_false hsign]
    rfl
  | negSucc n =>
    rw [intText, String.toList_ofList, decide_eq_true (Int.negSucc_lt_zero n)]
    rfl

theorem isUnsigned_digits (n : Nat) : IsUnsigned (digits n) (digits n) [] :=
  ⟨⟨[], (List.append_nil _).symm, .inr ⟨rfl, rfl⟩⟩, all_isDigit_digits n, rfl,
    List.append_ne_nil_of_left_ne_nil (digits_ne_nil n) _⟩

/-- The text of a whole number is canonical. -/
theorem canonical?_intText (n : Int) :
    canonical? (intText n).toList = some (intText n).toList := by
  have hsign : decide (decide (n < 0) = true ∧
      ¬ (digits n.natAbs = ['0'] ∧ canonicalFraction [] = [])) = decide (n < 0) := by
    rw [Bool.eq_iff_iff]
    simp only [decide_eq_true_eq]
    constructor
    · exact fun h => h.1
    · intro hneg
      refine ⟨hneg, fun hzero => ?_⟩
      have habs : n.natAbs = 0 := by
        rw [← ofDigits_digits n.natAbs, hzero.1]
        rfl
      omega
  rw [toList_intText, (isUnsigned_digits n.natAbs).canonical?_eq, canonicalText,
    canonicalWhole_digits, hsign]
  simp [canonicalFraction]

/-- A canonical form without a point is the text of a whole number. -/
theorem exists_intText_eq {text canonical : List Char} (h : canonical? text = some canonical)
    (hpoint : '.' ∉ canonical) : ∃ n : Int, (intText n).toList = canonical := by
  obtain ⟨negative, unsigned, whole, fraction, hunsigned, -, rfl⟩ := canonical?_eq_some h
  have hfraction : canonicalFraction fraction = [] := by
    by_contra hne
    apply hpoint
    simp [canonicalText, hne]
  unfold canonicalText
  rw [hfraction, if_pos rfl, List.append_nil,
    ← digits_ofDigits_canonicalWhole hunsigned.whole_digits]
  by_cases hsign : negative = true ∧ digits (ofDigits whole) ≠ ['0']
  · have hne : ofDigits whole ≠ 0 := by
      intro hzero
      rw [hzero] at hsign
      exact hsign.2 rfl
    refine ⟨-(ofDigits whole : Int), ?_⟩
    rw [toList_intText, Int.natAbs_neg, Int.natAbs_natCast, decide_eq_true (by omega)]
    simp [hsign]
  · refine ⟨ofDigits whole, ?_⟩
    rw [toList_intText, Int.natAbs_natCast, decide_eq_false (by omega)]
    simpa [signText] using hsign

/-- A canonical form without a point that is read as a whole number is the text of this number. -/
theorem intText_of_read? {text canonical : List Char} (h : canonical? text = some canonical)
    (hpoint : '.' ∉ canonical) {r : Range} {n : Int} (hread : r.read? canonical = some n) :
    (intText n).toList = canonical := by
  obtain ⟨m, rfl⟩ := exists_intText_eq h hpoint
  rw [r.read?_intText] at hread
  split at hread
  · rw [Option.some.inj hread]
  · cases hread

/-- The text of a whole number is read as its sign and its magnitude. -/
theorem Literal.read?_intText (n : Int) :
    read? (intText n).toList = some (.finite (decide (n < 0)) n.natAbs 0) := by
  have hparts := isUnsigned_digits n.natAbs
  have hread := readFinite?_append hparts.whole_digits hparts.fraction_digits hparts.ne_nil
    (.inr ⟨rfl, rfl⟩) (.inl ⟨rfl, rfl⟩) (decide (n < 0))
  rw [List.append_nil, List.append_nil, ofDigits_digits] at hread
  rw [toList_intText, read?_signText hparts.denotes.1]
  exact hread

/-- A magnitude with its sign is the whole number. -/
theorem signed_natAbs (n : Int) : signed (decide (n < 0)) (n.natAbs : ℚ) = n := by
  have hcast : ((n.natAbs : Int) : ℚ) = (n.natAbs : ℚ) := Int.cast_natCast _
  unfold signed
  rcases lt_or_ge n 0 with h | h
  · rw [decide_eq_true h, if_pos rfl, ← hcast, ← Int.cast_neg]
    congr 1
    omega
  · rw [decide_eq_false (by omega), if_neg Bool.false_ne_true, ← hcast]
    congr 1
    omega

/-- A whole number is the rational number of its text. -/
theorem ratOf?_intText (n : Int) : ratOf? (intText n).toList = some (n : ℚ) := by
  rw [ratOf?, Literal.read?_intText, Option.bind_some, Literal.toRat?, ← signed_natAbs]
  simp [Scaled.toRat]

end SoapClient.Decimal
