import SoapClient.Decimal.Layout
import SoapClient.Decimal.Literal
import SoapClient.Proofs.Decimal.Shortest

/-!
# Numbers as text

Main statement: the text of a number in any layout is read as this number again
(`toBinary64?_render`). What is read is the shortest decimal of the number, wherever the layout puts
the point and whether it writes an exponent or not (`read?_render`).
-/

namespace SoapClient.Decimal

/-! ## Runs of digits -/

/-- Digits behind others shift these to the left. -/
theorem ofDigits_append (ds es : List Char) :
    ofDigits (ds ++ es) = 10 ^ es.length * ofDigits ds + ofDigits es := by
  unfold ofDigits
  rw [Nat.ofDigitChars_append, Nat.ofDigitChars_eq_ofDigitChars_zero]

@[simp] theorem ofDigits_replicate_zero (n : Nat) : ofDigits (List.replicate n '0') = 0 := by
  unfold ofDigits
  rw [Nat.ofDigitChars_replicate_zero, Nat.mul_zero]

@[simp] theorem length_digits (n : Nat) : (digits n).length = digitCount n := rfl

theorem all_isDigit_digits (n : Nat) : (digits n).all Char.isDigit = true :=
  List.all_eq_true.mpr fun _ hc => isDigit_of_mem_digits hc

theorem all_isDigit_replicate (n : Nat) : (List.replicate n '0').all Char.isDigit = true := by
  rw [List.all_replicate]
  split <;> rfl

/-- What is taken from digits are digits. -/
theorem all_isDigit_of_subset {ds es : List Char} (h : ds.all Char.isDigit = true) (hes : es ⊆ ds) :
    es.all Char.isDigit = true :=
  List.all_eq_true.mpr fun c hc => List.all_eq_true.mp h c (hes hc)

/-! ## Rational numbers of literals -/

/-- A rational number with a sign. -/
def signed (negative : Bool) (q : ℚ) : ℚ := if negative then -q else q

/-- The rational number of a literal; an infinity and what is no number have none. -/
def Literal.toRat? : Literal → Option ℚ
  | .finite negative mantissa exponent => some (signed negative (Scaled.toRat ⟨mantissa, exponent⟩))
  | .infinite _ => none
  | .notANumber => none

/-- The rational number of a text, where it is a finite number. -/
def ratOf? (text : List Char) : Option ℚ := (Literal.read? text).bind Literal.toRat?

/-- A minus sign, or nothing. -/
def signText (negative : Bool) : List Char := if negative then ['-'] else []

namespace Literal

/-! ## Reading texts in parts -/

/-- Whether a text starts with a digit or a point, or is empty. -/
def StartsUnsigned (text : List Char) : Prop := ∀ c ∈ text.head?, c.isDigit = true ∨ c = '.'

theorem toLower_of_isDigit {c : Char} (h : c.isDigit = true) : c.toLower = c := by
  simp only [Char.isDigit, Bool.and_eq_true, decide_eq_true_eq] at h
  have hhigh : c.val ≤ 57 := h.2
  unfold Char.toLower
  rw [dif_neg]
  rintro ⟨hA, -⟩
  exact absurd (UInt32.le_trans hA hhigh) (by decide)

/-- A text that starts with a digit or a point is no name of a special number. -/
theorem readUnsigned?_eq {text : List Char} (h : StartsUnsigned text) (negative : Bool) :
    readUnsigned? negative text = readFinite? negative text := by
  have hname : ∀ {first : Char} {rest : List Char}, ¬ (first.isDigit = true ∨ first = '.') →
      text.map Char.toLower ≠ first :: rest := by
    intro first rest hfirst heq
    cases text with
    | nil => cases heq
    | cons c cs =>
      rw [List.map_cons, List.cons.injEq] at heq
      apply hfirst
      rcases h c rfl with hdigit | rfl
      · left
        rw [← heq.1, toLower_of_isDigit hdigit]
        exact hdigit
      · right
        exact heq.1.symm
  unfold readUnsigned?
  dsimp only
  rw [if_neg, if_neg]
  · exact hname (by decide)
  · rintro (hinf | hinf)
    · exact hname (by decide) hinf
    · exact hname (by decide) hinf

/-- A sign is read first. -/
theorem read?_signText {text : List Char} (h : StartsUnsigned text) (negative : Bool) :
    read? (signText negative ++ text) = readFinite? negative text := by
  cases negative with
  | true => exact readUnsigned?_eq h true
  | false =>
    rw [← readUnsigned?_eq h]
    show read? text = _
    unfold read?
    split
    · rcases h '+' rfl with hdigit | hdigit
      · exact absurd hdigit (by decide)
      · exact absurd hdigit (by decide)
    · rcases h '-' rfl with hdigit | hdigit
      · exact absurd hdigit (by decide)
      · exact absurd hdigit (by decide)
    · rfl

/-- A point with digits behind it. Without digits the point may be missing as well. -/
def IsFraction (pointed fraction : List Char) : Prop :=
  pointed = '.' :: fraction ∨ pointed = [] ∧ fraction = []

/-- An exponent with its mark, or nothing where the exponent is zero. -/
def IsExponent (ending : List Char) (e : Int) : Prop :=
  ending = [] ∧ e = 0 ∨ ∃ ds, ending = 'e' :: ds ∧ readExponent? ds = some e

/-- A run of digits ends where no digit follows. -/
theorem span_digits {ds rest : List Char} (hds : ds.all Char.isDigit = true)
    (hrest : ∀ c ∈ rest.head?, c.isDigit = false) :
    (ds ++ rest).takeWhile Char.isDigit = ds ∧ (ds ++ rest).dropWhile Char.isDigit = rest := by
  have hds := List.all_eq_true.mp hds
  rw [List.takeWhile_append_of_pos hds, List.dropWhile_append_of_pos hds]
  cases rest with
  | nil => exact ⟨List.append_nil ds, rfl⟩
  | cons c cs =>
    have hc : ¬ c.isDigit = true := by
      rw [hrest c rfl]
      exact Bool.false_ne_true
    rw [List.takeWhile_cons_of_neg hc, List.dropWhile_cons_of_neg hc]
    exact ⟨List.append_nil ds, rfl⟩

/-- What stands behind the digits of a number starts with no digit. -/
theorem IsExponent.head {ending : List Char} {e : Int} (h : IsExponent ending e) :
    ∀ c ∈ ending.head?, c.isDigit = false ∧ c ≠ '.' := by
  rintro c hc
  rcases h with ⟨rfl, -⟩ | ⟨ds, rfl, -⟩
  · cases hc
  · obtain rfl := Option.some.inj hc
    decide

/-- Digits, a point with digits, and an exponent are read as what they say. -/
theorem readFinite?_append {whole pointed fraction ending : List Char} {e : Int}
    (hwhole : whole.all Char.isDigit = true) (hfraction : fraction.all Char.isDigit = true)
    (hne : whole ++ fraction ≠ []) (hpointed : IsFraction pointed fraction)
    (hending : IsExponent ending e) (negative : Bool) :
    readFinite? negative (whole ++ (pointed ++ ending)) =
      some (.finite negative (ofDigits (whole ++ fraction)) (e - fraction.length)) := by
  have hdigits : ∀ c ∈ (pointed ++ ending).head?, c.isDigit = false := by
    intro c hc
    rcases hpointed with rfl | ⟨rfl, rfl⟩
    · obtain rfl := Option.some.inj hc
      rfl
    · exact (hending.head c hc).1
  obtain ⟨htake, hdrop⟩ := span_digits hwhole hdigits
  obtain ⟨htake', hdrop'⟩ := span_digits hfraction fun c hc => (hending.head c hc).1
  unfold readFinite?
  dsimp only
  rw [htake, hdrop]
  rcases hpointed with rfl | ⟨rfl, rfl⟩
  · rw [List.cons_append]
    simp only [htake', hdrop', if_neg hne]
    rcases hending with ⟨rfl, rfl⟩ | ⟨ds, rfl, hds⟩
    · rfl
    · simp only [true_or, ↓reduceIte, hds, Option.map_some]
  · rcases hending with ⟨rfl, rfl⟩ | ⟨ds, rfl, hds⟩
    · simp only [List.append_nil] at hne ⊢
      rw [if_neg hne]
      rfl
    · rw [List.append_nil] at hne
      simp [hne, hds]

/-- Whether an unsigned text is read as a finite number of some magnitude, whatever sign stands
before it. -/
def Denotes (text : List Char) (q : ℚ) : Prop :=
  StartsUnsigned text ∧ ∀ negative, ∃ mantissa exponent,
    readFinite? negative text = some (.finite negative mantissa exponent) ∧
      Scaled.toRat ⟨mantissa, exponent⟩ = q

/-- What a text says after a sign. -/
theorem Denotes.read?_signText {text : List Char} {q : ℚ} (h : Denotes text q) (negative : Bool) :
    ∃ mantissa exponent, read? (signText negative ++ text) =
      some (.finite negative mantissa exponent) ∧ Scaled.toRat ⟨mantissa, exponent⟩ = q := by
  rw [Literal.read?_signText h.1]
  exact h.2 negative

/-- The number of a text that has a minus sign or none. -/
theorem Denotes.ratOf?_signText {text : List Char} {q : ℚ} (h : Denotes text q) (negative : Bool) :
    ratOf? (signText negative ++ text) = some (signed negative q) := by
  obtain ⟨mantissa, exponent, hread, rfl⟩ := h.read?_signText negative
  rw [ratOf?, hread]
  rfl

/-- The number of a text that has a plus sign. -/
theorem Denotes.ratOf?_plus {text : List Char} {q : ℚ} (h : Denotes text q) :
    ratOf? ('+' :: text) = some q := by
  have hplus : read? ('+' :: text) = read? (signText false ++ text) := by
    rw [Literal.read?_signText h.1]
    exact readUnsigned?_eq h.1 false
  rw [ratOf?, hplus]
  exact h.ratOf?_signText false

/-- Digits around a point, with an exponent behind them, say a decimal. -/
theorem denotes_of_parts {text : List Char} {q : ℚ} (whole pointed fraction ending : List Char)
    (e : Int) (htext : text = whole ++ (pointed ++ ending))
    (hq : Scaled.toRat ⟨ofDigits (whole ++ fraction), e - fraction.length⟩ = q)
    (hwhole : whole.all Char.isDigit = true) (hfraction : fraction.all Char.isDigit = true)
    (hne : whole ++ fraction ≠ []) (hpointed : IsFraction pointed fraction)
    (hending : IsExponent ending e) : Denotes text q := by
  subst htext hq
  refine ⟨?_, fun negative => ⟨_, _, readFinite?_append hwhole hfraction hne hpointed hending
    negative, rfl⟩⟩
  intro c hc
  cases whole with
  | cons d ds =>
    obtain rfl := Option.some.inj hc
    exact .inl (List.all_eq_true.mp hwhole _ List.mem_cons_self)
  | nil =>
    rcases hpointed with rfl | ⟨-, rfl⟩
    · obtain rfl := Option.some.inj hc
      exact .inr rfl
    · exact absurd rfl hne

end Literal

/-! ## Texts of decimals -/

/-- Whether an unsigned text consists of the digits `whole`, and of the digits `fraction` behind a
point. -/
structure IsUnsigned (text whole fraction : List Char) : Prop where
  parts : ∃ pointed, text = whole ++ pointed ∧ Literal.IsFraction pointed fraction
  whole_digits : whole.all Char.isDigit = true
  fraction_digits : fraction.all Char.isDigit = true
  ne_nil : whole ++ fraction ≠ []

/-- An unsigned decimal says its number. -/
theorem IsUnsigned.denotes {text whole fraction : List Char} (h : IsUnsigned text whole fraction) :
    Literal.Denotes text (Scaled.toRat ⟨ofDigits (whole ++ fraction), 0 - fraction.length⟩) := by
  obtain ⟨pointed, htext, hpointed⟩ := h.parts
  exact Literal.denotes_of_parts whole pointed fraction [] 0 (by rw [htext, List.append_nil]) rfl
    h.whole_digits h.fraction_digits h.ne_nil hpointed (.inl ⟨rfl, rfl⟩)

theorem IsUnsigned.mem {text whole fraction : List Char} (h : IsUnsigned text whole fraction)
    {c : Char} (hc : c ∈ text) : c.isDigit = true ∨ c = '.' := by
  obtain ⟨pointed, rfl, hpointed⟩ := h.parts
  rcases List.mem_append.mp hc with hc | hc
  · exact .inl (List.all_eq_true.mp h.whole_digits c hc)
  · rcases hpointed with rfl | ⟨rfl, -⟩
    · rcases List.mem_cons.mp hc with rfl | hc
      · exact .inr rfl
      · exact .inl (List.all_eq_true.mp h.fraction_digits c hc)
    · cases hc

theorem IsUnsigned.text_ne_nil {text whole fraction : List Char}
    (h : IsUnsigned text whole fraction) : text ≠ [] := by
  obtain ⟨pointed, rfl, hpointed⟩ := h.parts
  intro hnil
  obtain ⟨rfl, rfl⟩ := List.append_eq_nil_iff.mp hnil
  rcases hpointed with hpointed | ⟨-, rfl⟩
  · cases hpointed
  · exact h.ne_nil rfl

/-- Digits and points are no blanks. -/
theorem IsUnsigned.not_isBlank {text whole fraction : List Char}
    (h : IsUnsigned text whole fraction) {c : Char} (hc : c ∈ text) : Text.isBlank c = false := by
  rcases h.mem hc with hdigit | rfl
  · exact not_isBlank_of_isDigit hdigit
  · rfl

/-- A sign is no blank. -/
theorem not_isBlank_of_mem_signText {negative : Bool} {c : Char} (h : c ∈ signText negative) :
    Text.isBlank c = false := by
  cases negative with
  | false => cases h
  | true =>
    obtain rfl := List.mem_singleton.mp h
    rfl

/-- Zeros behind the digits of a decimal change nothing where the exponent counts them. -/
theorem Scaled.toRat_shift (m n : Nat) (e : Int) :
    Scaled.toRat ⟨10 ^ n * m, e - n⟩ = Scaled.toRat ⟨m, e⟩ := by
  unfold Scaled.toRat
  rw [zpow_sub₀ (by norm_num), zpow_natCast]
  push_cast
  have hpow : (10 : ℚ) ^ n ≠ 0 := by positivity
  field_simp

/-- A decimal written without an exponent has digits and a point only, and these say the decimal. -/
theorem Scaled.isUnsigned_positionalText (d : Scaled) (pointZero : Bool) :
    ∃ whole fraction, IsUnsigned (d.positionalText pointZero) whole fraction ∧
      Scaled.toRat ⟨ofDigits (whole ++ fraction), 0 - fraction.length⟩ = d.toRat := by
  have hdigits := all_isDigit_digits d.mantissa
  have hne := digits_ne_nil d.mantissa
  unfold positionalText
  dsimp only
  split
  · next hexponent =>
    -- a whole number: zeros up to the point
    obtain ⟨n, hn⟩ := Int.eq_ofNat_of_zero_le hexponent
    rw [hn, Int.toNat_natCast]
    have hwhole : (digits d.mantissa ++ List.replicate n '0').all Char.isDigit = true := by
      rw [List.all_append, hdigits, all_isDigit_replicate, Bool.true_and]
    have hwholeNe : digits d.mantissa ++ List.replicate n '0' ≠ [] :=
      List.append_ne_nil_of_left_ne_nil hne _
    have hvalue : Scaled.toRat ⟨10 ^ n * d.mantissa, 0⟩ = d.toRat := by
      rw [← toRat_shift d.mantissa n d.exponent, hn, Int.sub_self]
    cases pointZero with
    | false =>
      refine ⟨_, [], ⟨⟨[], rfl, .inr ⟨rfl, rfl⟩⟩, hwhole, rfl, ?_⟩, ?_⟩
      · rw [List.append_nil]
        exact hwholeNe
      · rw [List.append_nil, ofDigits_append, ofDigits_digits, ofDigits_replicate_zero,
          List.length_replicate]
        exact hvalue
    | true =>
      refine ⟨_, ['0'], ⟨⟨['.', '0'], rfl, .inl rfl⟩, hwhole, rfl, ?_⟩, ?_⟩
      · exact List.append_ne_nil_of_left_ne_nil hwholeNe _
      · rw [ofDigits_append, ofDigits_append, ofDigits_digits, ofDigits_replicate_zero,
          List.length_replicate, ← hvalue]
        exact toRat_shift _ 1 0
  · next hexponent =>
    obtain ⟨places, hplaces⟩ := Int.eq_ofNat_of_zero_le (show 0 ≤ -d.exponent by omega)
    rw [hplaces, Int.toNat_natCast, show d.toRat = Scaled.toRat ⟨d.mantissa, 0 - places⟩ by
      rw [← hplaces, Int.zero_sub, Int.neg_neg]]
    split
    · next hlt =>
      -- the point stands among the digits
      refine ⟨List.take _ _, List.drop _ _, ⟨⟨_, rfl, .inl rfl⟩, ?_, ?_, ?_⟩, ?_⟩
      · exact all_isDigit_of_subset hdigits (List.take_subset _ _)
      · exact all_isDigit_of_subset hdigits (List.drop_subset _ _)
      · rw [List.take_append_drop]
        exact hne
      · rw [List.take_append_drop, ofDigits_digits, List.length_drop, Nat.sub_sub_self hlt.le]
    · next hge =>
      -- zeros fill up the places between the point and the digits
      refine ⟨['0'], List.replicate _ '0' ++ digits d.mantissa,
        ⟨⟨_, rfl, .inl rfl⟩, rfl, ?_, List.cons_ne_nil _ _⟩, ?_⟩
      · rw [List.all_append, hdigits, all_isDigit_replicate, Bool.true_and]
      · rw [ofDigits_append, ofDigits_append, ofDigits_digits, ofDigits_replicate_zero,
          List.length_append, List.length_replicate, Nat.sub_add_cancel (by omega)]
        simp [ofDigits, Nat.ofDigitChars_cons]

/-- A signed exponent is read as what it is. -/
theorem Literal.readExponent?_signed (n : Int) :
    readExponent? ((if n < 0 then '-' else '+') :: digits n.natAbs) = some n := by
  split
  · next h =>
    simp only [readExponent?, readDigits?_digits]
    show some (-(n.natAbs : Int)) = some n
    rw [Int.ofNat_natAbs_of_nonpos h.le, Int.neg_neg]
  · next h =>
    simp only [readExponent?, readDigits?_digits, Option.map_some]
    congr 1
    exact Int.natAbs_of_nonneg (by omega)

/-- A decimal written with an exponent says the decimal. -/
theorem Scaled.denotes_exponentText (d : Scaled) :
    Literal.Denotes (d.exponentText ((digitCount d.mantissa : Int) + d.exponent - 1)) d.toRat := by
  have hdigits := all_isDigit_digits d.mantissa
  have hne := digits_ne_nil d.mantissa
  have hpos := digitCount_pos d.mantissa
  unfold exponentText
  dsimp only
  refine Literal.denotes_of_parts ((digits d.mantissa).take 1) _ ((digits d.mantissa).drop 1) _
    ((digitCount d.mantissa : Int) + d.exponent - 1) (List.append_assoc _ _ _) ?_ ?_ ?_ ?_ ?_
    (.inr ⟨_, rfl, Literal.readExponent?_signed _⟩)
  · rw [List.take_append_drop, ofDigits_digits, List.length_drop, length_digits]
    congr 2
    omega
  · exact all_isDigit_of_subset hdigits (List.take_subset _ _)
  · exact all_isDigit_of_subset hdigits (List.drop_subset _ _)
  · rw [List.take_append_drop]
    exact hne
  · split
    · next hone => exact .inr ⟨rfl, List.drop_eq_nil_of_le hone.le⟩
    · exact .inl rfl

/-! ## Numbers in a layout -/

namespace Binary64

/-- The shortest decimal of a number, as a rational number without its sign. -/
def shortestRat (x : Binary64) (tie : Tie) : ℚ := if x.isZero then 0 else (x.shortest tie).toRat

end Binary64

/-- The exponent of the leading digit. -/
def Scaled.lead (d : Scaled) : Int := (digitCount d.mantissa : Int) + d.exponent - 1

/-- A decimal written with an exponent has no blanks. -/
theorem Scaled.not_isBlank_of_mem_exponentText {d : Scaled} {lead : Int} {c : Char}
    (h : c ∈ d.exponentText lead) : Text.isBlank c = false := by
  have hdigits : ∀ {n : Nat}, c ∈ digits n → Text.isBlank c = false :=
    fun hc => not_isBlank_of_isDigit (isDigit_of_mem_digits hc)
  unfold exponentText at h
  dsimp only at h
  rw [List.mem_append, List.mem_append, List.mem_cons, List.mem_cons] at h
  rcases h with (h | h) | rfl | rfl | h
  · exact hdigits (List.mem_of_mem_take h)
  · split at h
    · cases h
    · rcases List.mem_cons.mp h with rfl | h
      · rfl
      · exact hdigits (List.mem_of_mem_drop h)
  · rfl
  · split <;> rfl
  · exact hdigits h

/-- What a text of a number looks like without its sign: it says the shortest decimal of the number,
it has no blanks, and it has digits and a point only unless there is an exponent. -/
structure IsText (unsigned : List Char) (q : ℚ) : Prop where
  denotes : Literal.Denotes unsigned q
  not_isBlank : ∀ c ∈ unsigned, Text.isBlank c = false
  plain : 'e' ∉ unsigned → ∃ whole fraction, IsUnsigned unsigned whole fraction

theorem IsUnsigned.isText {text whole fraction : List Char} (h : IsUnsigned text whole fraction) :
    IsText text (Scaled.toRat ⟨ofDigits (whole ++ fraction), 0 - fraction.length⟩) :=
  ⟨h.denotes, fun _ hc => h.not_isBlank hc, fun _ => ⟨whole, fraction, h⟩⟩

theorem Layout.exists_isText (layout : Layout) (x : Binary64) :
    ∃ unsigned, layout.render x = signText x.negative ++ unsigned ∧
      IsText unsigned (x.shortestRat layout.tie) := by
  unfold render Binary64.shortestRat
  dsimp only
  split
  · next hzero =>
    refine ⟨_, rfl, ?_⟩
    cases layout.pointZero with
    | false =>
      have hparts : IsUnsigned ['0'] ['0'] [] :=
        ⟨⟨[], rfl, .inr ⟨rfl, rfl⟩⟩, rfl, rfl, List.cons_ne_nil _ _⟩
      simpa [ofDigits, Nat.ofDigitChars_cons, Scaled.toRat] using hparts.isText
    | true =>
      have hparts : IsUnsigned ['0', '.', '0'] ['0'] ['0'] :=
        ⟨⟨['.', '0'], rfl, .inl rfl⟩, rfl, rfl, List.cons_ne_nil _ _⟩
      simpa [ofDigits, Nat.ofDigitChars_cons, Scaled.toRat] using hparts.isText
  · next hzero =>
    refine ⟨_, rfl, ?_⟩
    split
    · obtain ⟨whole, fraction, hparts, hvalue⟩ :=
        (x.shortest layout.tie).isUnsigned_positionalText layout.pointZero
      rw [← hvalue]
      exact hparts.isText
    · refine ⟨Scaled.denotes_exponentText _, fun _ => Scaled.not_isBlank_of_mem_exponentText, ?_⟩
      intro hexponent
      exact absurd (by simp [Scaled.exponentText]) hexponent

/-- A number is written with an exponent where the layout does not want its leading digit written in
its place. Zero has no leading digit. -/
theorem Layout.exponentMark_mem_render_iff (layout : Layout) (x : Binary64) :
    'e' ∈ layout.render x ↔
      x.isZero = false ∧ layout.positional (x.shortest layout.tie).lead = false := by
  have hsign : 'e' ∉ signText x.negative := by
    unfold signText
    split
    · decide
    · exact List.not_mem_nil
  unfold render
  dsimp only
  cases hzero : x.isZero with
  | true =>
    rw [if_pos rfl, ← signText, List.mem_append]
    simp only [hsign, false_or, Bool.true_eq_false, false_and, iff_false]
    split <;> decide
  | false =>
    rw [if_neg Bool.false_ne_true, ← signText, List.mem_append]
    simp only [hsign, false_or, true_and]
    rw [← Scaled.lead]
    cases hpositional : layout.positional (x.shortest layout.tie).lead with
    | true =>
      rw [if_pos rfl]
      obtain ⟨whole, fraction, hparts, -⟩ :=
        (x.shortest layout.tie).isUnsigned_positionalText layout.pointZero
      refine iff_of_false (fun hmem => ?_) Bool.false_ne_true.symm
      rcases hparts.mem hmem with hdigit | hpoint
      · exact absurd hdigit (by decide)
      · exact absurd hpoint (by decide)
    | false =>
      rw [if_neg Bool.false_ne_true]
      exact iff_of_true (by simp [Scaled.exponentText]) rfl

/-- The text of a number in a layout is read as its shortest decimal. -/
theorem Layout.read?_render (layout : Layout) (x : Binary64) : ∃ mantissa exponent,
    Literal.read? (layout.render x) = some (.finite x.negative mantissa exponent) ∧
      Scaled.toRat ⟨mantissa, exponent⟩ = x.shortestRat layout.tie := by
  obtain ⟨unsigned, hrender, htext⟩ := layout.exists_isText x
  rw [hrender]
  exact htext.denotes.read?_signText x.negative

/-- The text of a number has no blanks. -/
theorem Layout.trimChars_render (layout : Layout) (x : Binary64) :
    Text.trimChars (layout.render x) = layout.render x := by
  obtain ⟨unsigned, hrender, htext⟩ := layout.exists_isText x
  rw [hrender]
  apply Text.trimChars_of_not_isBlank
  intro c hc
  rcases List.mem_append.mp hc with hc | hc
  · exact not_isBlank_of_mem_signText hc
  · exact htext.not_isBlank c hc

/-- The text of a number in a layout is read as the number. -/
theorem Layout.toBinary64?_render (layout : Layout) (x : Binary64) :
    (Literal.read? (layout.render x)).bind Literal.toBinary64? = some x := by
  obtain ⟨mantissa, exponent, hread, hvalue⟩ := layout.read?_render x
  rw [hread, Option.bind_some, Literal.toBinary64?]
  unfold Binary64.shortestRat at hvalue
  split at hvalue
  · next hzero =>
    have hmantissa : mantissa = 0 := by
      have hpow : (10 : ℚ) ^ exponent ≠ 0 := (zpow_pos (by norm_num) _).ne'
      have := (mul_eq_zero.mp hvalue).resolve_right hpow
      exact_mod_cast this
    rw [Binary64.ofDecimal?, if_pos (.inl hmantissa), ← Binary64.eq_zero_of_isZero hzero]
  · next hzero =>
    have hx : x.significand ≠ 0 := by simpa [Binary64.isZero] using hzero
    have hcovers := Binary64.covers_shortest hx layout.tie
    rw [← hvalue] at hcovers
    exact Binary64.ofDecimal?_of_covers hx x.negative hcovers

end SoapClient.Decimal
