import SoapClient.Proofs.Decimal.Nearest

/-!
# One form for each decimal

A decimal is a sign or none, and digits with at most one point among them. It says a rational number
(`Says`). Main statements: decimals and no other texts have a canonical form
(`isSome_canonical?_iff`), which says the same number (`Says.canonical?`), and decimals have the
same canonical form where they say the same number (`Says.canonical?_inj`).
-/

namespace SoapClient.Decimal

/-! ## What a decimal says -/

/-- A sign, and whether it is a minus sign. It may be missing. -/
inductive IsSign : List Char → Bool → Prop
  | none : IsSign [] false
  | plus : IsSign ['+'] false
  | minus : IsSign ['-'] true

/-- The number of the digits before the point and of those behind it. -/
def valueOf (whole fraction : List Char) : ℚ :=
  ofDigits whole + ofDigits fraction / 10 ^ fraction.length

/-- A text is a decimal that says a number: a sign or none, and at least one digit, with at most one
point before, among or behind the digits. -/
def Says (text : List Char) (q : ℚ) : Prop :=
  ∃ sign negative unsigned whole fraction, text = sign ++ unsigned ∧ IsSign sign negative ∧
    IsUnsigned unsigned whole fraction ∧ q = signed negative (valueOf whole fraction)

theorem valueOf_nonneg (whole fraction : List Char) : 0 ≤ valueOf whole fraction := by
  unfold valueOf
  positivity

/-- The digits behind the point are places of the mantissa. -/
theorem toRat_eq_valueOf (whole fraction : List Char) :
    Scaled.toRat ⟨ofDigits (whole ++ fraction), 0 - fraction.length⟩ = valueOf whole fraction := by
  have hpow : (10 : ℚ) ^ fraction.length ≠ 0 := pow_ne_zero _ (by norm_num)
  unfold Scaled.toRat valueOf
  rw [ofDigits_append, zero_sub, zpow_neg, zpow_natCast]
  push_cast
  field_simp

/-- What a decimal says is the number that it is read as wherever numbers are read. -/
theorem Says.ratOf?_eq {text : List Char} {q : ℚ} (h : Says text q) : ratOf? text = some q := by
  obtain ⟨sign, negative, unsigned, whole, fraction, rfl, hsign, hunsigned, rfl⟩ := h
  have hdenotes := hunsigned.denotes
  rw [toRat_eq_valueOf] at hdenotes
  cases hsign with
  | none => exact hdenotes.ratOf?_signText false
  | plus => exact hdenotes.ratOf?_plus
  | minus => exact hdenotes.ratOf?_signText true

/-- A decimal says one number. -/
theorem Says.unique {text : List Char} {q q' : ℚ} (h : Says text q) (h' : Says text q') : q = q' :=
  Option.some.inj (h.ratOf?_eq.symm.trans h'.ratOf?_eq)

/-! ## Digits of numbers -/

/-- As many digits as there are places. -/
theorem ofDigits_lt {ds : List Char} (h : ds.all Char.isDigit = true) :
    ofDigits ds < 10 ^ ds.length := by
  induction ds with
  | nil => exact Nat.one_pos
  | cons d ds ih =>
    rw [List.all_cons, Bool.and_eq_true] at h
    have hd : ofDigits [d] ≤ 9 := by
      have := toNat_of_isDigit h.1
      rw [ofDigits_singleton]
      omega
    have hds := ih h.2
    have hsplit : ofDigits (d :: ds) = 10 ^ ds.length * ofDigits [d] + ofDigits ds :=
      ofDigits_append [d] ds
    calc ofDigits (d :: ds) < 10 ^ ds.length * 9 + 10 ^ ds.length := by
          rw [hsplit]
          exact Nat.add_lt_add_of_le_of_lt (Nat.mul_le_mul_left _ hd) hds
      _ = 10 ^ (d :: ds).length := by
          rw [List.length_cons, Nat.pow_succ]
          omega

/-- Digits in equally many places are told apart by their number. -/
theorem eq_of_ofDigits_eq {ds es : List Char} (hds : ds.all Char.isDigit = true)
    (hes : es.all Char.isDigit = true) (hlength : ds.length = es.length)
    (h : ofDigits ds = ofDigits es) : ds = es := by
  induction ds generalizing es with
  | nil => exact (List.length_eq_zero_iff.mp hlength.symm).symm
  | cons d ds ih =>
    match es with
    | e :: es =>
      rw [List.all_cons, Bool.and_eq_true] at hds hes
      rw [List.length_cons, List.length_cons, Nat.succ_inj] at hlength
      have hd : ofDigits (d :: ds) = 10 ^ ds.length * ofDigits [d] + ofDigits ds :=
        ofDigits_append [d] ds
      have he : ofDigits (e :: es) = 10 ^ ds.length * ofDigits [e] + ofDigits es := by
        rw [hlength]
        exact ofDigits_append [e] es
      -- the first digit is the quotient by the power of ten, and the others are the remainder
      have hlt := ofDigits_lt hds.2
      have hlt' := ofDigits_lt hes.2
      rw [← hlength] at hlt'
      have hpos : 0 < 10 ^ ds.length := Nat.pow_pos (by decide)
      have hsum : 10 ^ ds.length * ofDigits [d] + ofDigits ds =
          10 ^ ds.length * ofDigits [e] + ofDigits es := by rw [← hd, ← he, h]
      have hquotient : ofDigits [d] = ofDigits [e] := by
        have hdiv := congrArg (· / 10 ^ ds.length) hsum
        simpa [Nat.mul_add_div hpos, Nat.div_eq_of_lt hlt, Nat.div_eq_of_lt hlt'] using hdiv
      have hremainder : ofDigits ds = ofDigits es := by
        rw [hquotient] at hsum
        exact Nat.add_left_cancel hsum
      have hfirst : d = e := by
        have hchars := congrArg digits hquotient
        rw [digits_ofDigits_singleton hds.1, digits_ofDigits_singleton hes.1] at hchars
        exact List.singleton_injective hchars
      rw [hfirst, ih hds.2 hes.2 hlength hremainder]

/-- Zeros at the end are cut off. -/
theorem canonicalFraction_append_zeros (ds : List Char) (n : Nat) :
    canonicalFraction (ds ++ List.replicate n '0') = canonicalFraction ds := by
  unfold canonicalFraction
  rw [List.reverse_append, List.reverse_replicate, List.dropWhile_append_of_pos]
  intro c hc
  rw [List.eq_of_mem_replicate hc]
  rfl

/-- Fractions with the same number have the same digits but for zeros at the end, the shorter one
being filled up with zeros. -/
theorem canonicalFraction_eq_of_le {ds es : List Char} (hds : ds.all Char.isDigit = true)
    (hes : es.all Char.isDigit = true) (hle : ds.length ≤ es.length)
    (h : (ofDigits ds : ℚ) / 10 ^ ds.length = ofDigits es / 10 ^ es.length) :
    canonicalFraction ds = canonicalFraction es := by
  obtain ⟨n, hn⟩ := Nat.exists_eq_add_of_le hle
  have hfilled : ofDigits (ds ++ List.replicate n '0') = ofDigits es := by
    rw [ofDigits_append, ofDigits_replicate_zero, List.length_replicate, Nat.add_zero]
    have hpow : (10 : ℚ) ^ ds.length ≠ 0 := pow_ne_zero _ (by norm_num)
    have hpow' : (10 : ℚ) ^ n ≠ 0 := pow_ne_zero _ (by norm_num)
    rw [hn, pow_add] at h
    have hscaled : (10 : ℚ) ^ n * ofDigits ds = ofDigits es := by
      field_simp at h
      linarith
    exact_mod_cast hscaled
  have heq : ds ++ List.replicate n '0' = es := by
    refine eq_of_ofDigits_eq ?_ hes ?_ hfilled
    · rw [List.all_append, hds, all_isDigit_replicate, Bool.and_self]
    · rw [List.length_append, List.length_replicate, hn]
  rw [← heq, canonicalFraction_append_zeros]

/-- The digits before the point and those behind it are told apart by their number, but for zeros
that do not count. -/
theorem canonical_eq_of_valueOf_eq {whole fraction whole' fraction' : List Char}
    (hwhole : whole.all Char.isDigit = true) (hfraction : fraction.all Char.isDigit = true)
    (hwhole' : whole'.all Char.isDigit = true) (hfraction' : fraction'.all Char.isDigit = true)
    (h : valueOf whole fraction = valueOf whole' fraction') :
    canonicalWhole whole = canonicalWhole whole' ∧
      canonicalFraction fraction = canonicalFraction fraction' := by
  -- what stands behind the point is less than one, so it does not count for the whole part
  have hless : ∀ es : List Char, es.all Char.isDigit = true →
      0 ≤ (ofDigits es : ℚ) / 10 ^ es.length ∧ (ofDigits es : ℚ) / 10 ^ es.length < 1 := by
    intro es hes
    have hpos : (0 : ℚ) < 10 ^ es.length := pow_pos (by norm_num) _
    refine ⟨by positivity, ?_⟩
    rw [div_lt_one hpos]
    exact_mod_cast ofDigits_lt hes
  have hnumber : ofDigits whole = ofDigits whole' := by
    obtain ⟨hlow, hhigh⟩ := hless fraction hfraction
    obtain ⟨hlow', hhigh'⟩ := hless fraction' hfraction'
    unfold valueOf at h
    have hle : (ofDigits whole : ℚ) < ofDigits whole' + 1 := by linarith
    have hge : (ofDigits whole' : ℚ) < ofDigits whole + 1 := by linarith
    exact le_antisymm (Nat.le_of_lt_succ (by exact_mod_cast hle))
      (Nat.le_of_lt_succ (by exact_mod_cast hge))
  have hrest : (ofDigits fraction : ℚ) / 10 ^ fraction.length =
      ofDigits fraction' / 10 ^ fraction'.length := by
    unfold valueOf at h
    rw [hnumber] at h
    exact add_left_cancel h
  refine ⟨?_, ?_⟩
  · rw [← digits_ofDigits_canonicalWhole hwhole, ← digits_ofDigits_canonicalWhole hwhole', hnumber]
  · rcases Nat.le_total fraction.length fraction'.length with hle | hle
    · exact canonicalFraction_eq_of_le hfraction hfraction' hle hrest
    · exact (canonicalFraction_eq_of_le hfraction' hfraction hle hrest.symm).symm

/-! ## Canonical forms -/

/-- Nothing but zeros stands for zero, and zero has one canonical text. -/
theorem canonical_of_valueOf_eq_zero {whole fraction : List Char}
    (hwhole : whole.all Char.isDigit = true) (hfraction : fraction.all Char.isDigit = true)
    (h : valueOf whole fraction = 0) :
    canonicalWhole whole = ['0'] ∧ canonicalFraction fraction = [] := by
  have hzero : valueOf ['0'] [] = 0 := by
    simp [valueOf, ofDigits, Nat.ofDigitChars_cons]
  exact canonical_eq_of_valueOf_eq hwhole hfraction rfl rfl (h.trans hzero.symm)

/-- A canonical text depends on nothing but the number. -/
theorem canonicalText_eq {negative negative' : Bool} {whole fraction whole' fraction' : List Char}
    (hwhole : whole.all Char.isDigit = true) (hfraction : fraction.all Char.isDigit = true)
    (hwhole' : whole'.all Char.isDigit = true) (hfraction' : fraction'.all Char.isDigit = true)
    (h : signed negative (valueOf whole fraction) = signed negative' (valueOf whole' fraction')) :
    canonicalText negative whole fraction = canonicalText negative' whole' fraction' := by
  by_cases hzero : valueOf whole fraction = 0
  · -- zero has no sign
    have hzero' : valueOf whole' fraction' = 0 := by
      rw [hzero, signed_zero] at h
      exact signed_eq_zero_iff.mp h.symm
    have hcanonical := canonical_of_valueOf_eq_zero hwhole hfraction hzero
    have hcanonical' := canonical_of_valueOf_eq_zero hwhole' hfraction' hzero'
    unfold canonicalText
    rw [hcanonical.1, hcanonical.2, hcanonical'.1, hcanonical'.2]
    simp
  · have hzero' : valueOf whole' fraction' ≠ 0 := by
      intro hzero'
      rw [hzero', signed_zero, signed_eq_zero_iff] at h
      exact hzero h
    obtain ⟨rfl, hvalue⟩ := signed_inj ((valueOf_nonneg _ _).lt_of_ne' hzero)
      ((valueOf_nonneg _ _).lt_of_ne' hzero') h
    obtain ⟨hw, hf⟩ := canonical_eq_of_valueOf_eq hwhole hfraction hwhole' hfraction' hvalue
    unfold canonicalText
    rw [hw, hf]

/-- A decimal has the canonical text of its sign and its digits. -/
theorem IsSign.canonical?_eq {text sign unsigned whole fraction : List Char} {negative : Bool}
    (hsign : IsSign sign negative) (h : IsUnsigned unsigned whole fraction)
    (htrim : Text.trimChars text = sign ++ unsigned) :
    canonical? text = some (canonicalText negative whole fraction) := by
  have hcongr : ∀ other, Text.trimChars other = sign ++ unsigned →
      canonical? text = canonical? other := by
    intro other hother
    unfold canonical?
    rw [htrim, hother]
  cases hsign with
  | none => rw [hcongr _ (h.trimChars_eq false), h.canonical?_eq]
  | minus => rw [hcongr _ (h.trimChars_eq true), h.canonical?_eq]
  | plus =>
    unfold canonical?
    rw [htrim]
    exact canonicalUnsigned?_eq_some_iff.mpr ⟨whole, fraction, h, rfl⟩

/-- What a text with a canonical form is: a decimal, of which the canonical form has the digits. -/
theorem exists_of_canonical? {text canonical : List Char} (h : canonical? text = some canonical) :
    ∃ negative whole fraction, whole.all Char.isDigit = true ∧ fraction.all Char.isDigit = true ∧
      canonical = canonicalText negative whole fraction ∧
      Says (Text.trimChars text) (signed negative (valueOf whole fraction)) := by
  obtain ⟨negative, unsigned, whole, fraction, hunsigned, htrim, hcanonical⟩ :=
    canonical?_eq_some h
  refine ⟨negative, whole, fraction, hunsigned.whole_digits, hunsigned.fraction_digits, hcanonical,
    ?_⟩
  rcases htrim with htrim | ⟨htrim, rfl⟩
  · cases negative with
    | false => exact ⟨[], _, unsigned, whole, fraction, htrim, .none, hunsigned, rfl⟩
    | true => exact ⟨['-'], _, unsigned, whole, fraction, htrim, .minus, hunsigned, rfl⟩
  · exact ⟨['+'], _, unsigned, whole, fraction, htrim, .plus, hunsigned, rfl⟩

/-- Decimals and no other texts have a canonical form. Blanks around them do not count. -/
theorem isSome_canonical?_iff {text : List Char} :
    (canonical? text).isSome ↔ ∃ q, Says (Text.trimChars text) q := by
  constructor
  · intro h
    obtain ⟨canonical, hcanonical⟩ := Option.isSome_iff_exists.mp h
    obtain ⟨_, _, _, -, -, -, hsaid⟩ := exists_of_canonical? hcanonical
    exact ⟨_, hsaid⟩
  · rintro ⟨q, sign, negative, unsigned, whole, fraction, htrim, hsign, hunsigned, -⟩
    rw [hsign.canonical?_eq hunsigned htrim]
    rfl

namespace Says

variable {text text' canonical canonical' : List Char} {q : ℚ}

/-- The canonical form of a decimal says the same number. -/
theorem canonical? (h : Says (Text.trimChars text) q)
    (hcanonical : Decimal.canonical? text = some canonical) : Says canonical q := by
  -- the canonical form is a decimal without blanks, and it is a form of the same number
  obtain ⟨q', hq', hrat⟩ := ratOf?_canonical? hcanonical
  obtain rfl := Option.some.inj (h.ratOf?_eq.symm.trans hq')
  obtain ⟨negative, unsigned, whole, fraction, hunsigned, -, rfl⟩ := canonical?_eq_some hcanonical
  have hparts := hunsigned.canonical
  obtain ⟨sign, n, hsign, htext⟩ : ∃ sign n, IsSign sign n ∧
      canonicalText negative whole fraction = sign ++ (canonicalWhole whole ++
        if canonicalFraction fraction = [] then [] else '.' :: canonicalFraction fraction) := by
    unfold canonicalText signText
    split
    · exact ⟨['-'], true, .minus, rfl⟩
    · exact ⟨[], false, .none, rfl⟩
  have hsaid : Says (canonicalText negative whole fraction)
      (signed n (valueOf (canonicalWhole whole) (canonicalFraction fraction))) :=
    ⟨sign, n, _, _, _, htext, hsign, hparts, rfl⟩
  obtain rfl := Option.some.inj (hrat.symm.trans hsaid.ratOf?_eq)
  exact hsaid

/-- Decimals that say the same number have the same canonical form. -/
theorem canonical?_inj (h : Says (Text.trimChars text) q) (h' : Says (Text.trimChars text') q)
    (hcanonical : Decimal.canonical? text = some canonical)
    (hcanonical' : Decimal.canonical? text' = some canonical') : canonical = canonical' := by
  obtain ⟨_, _, _, hwhole, hfraction, rfl, hsaid⟩ := exists_of_canonical? hcanonical
  obtain ⟨_, _, _, hwhole', hfraction', rfl, hsaid'⟩ := exists_of_canonical? hcanonical'
  refine canonicalText_eq hwhole hfraction hwhole' hfraction' ?_
  rw [← h.unique hsaid, ← h'.unique hsaid']

end Says

end SoapClient.Decimal
