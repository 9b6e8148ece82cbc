import SoapClient.Proofs.Decimal.Nearest
import SoapClient.Proofs.Value.Decimals
import SoapClient.Proofs.Value.ReadBack

/-!
# Primitive values as texts

A primitive value is written as a text that does not tell its kind. Main statement: the text of a
value that its kind takes is read as the same value by this kind, but for the numbers that are
written with an exponent, which no decimal is: those with a leading digit far from the point
(`coerce_writtenText`).
-/

namespace SoapClient

open Decimal

variable {m : ServiceModel} {kind : PrimitiveKind} {v r : Json} {isOptional : Bool} {path : Path}

/-! ## The same value -/

/-- Whether a value is the floating point value of another one. That of a whole number is the
nearest one, and the special values have no blanks around them. -/
inductive Json.IsFloatOf : Json → Json → Prop
  | real (x : Binary64) : IsFloatOf (.real x) (.real x)
  | whole {n : Json.Whole} {x : Binary64} : x.IsNearest n.value → IsFloatOf (.whole n) (.real x)
  | special {s : String} : isSpecialFloat s = true → IsFloatOf (.str s) (.str (Text.trim s))

/-- Whether a value is the decimal number of another one. A number says the number that it is
written as; what is read is written without an exponent. A binary64 number that is read is the one
that was written. -/
structure Json.IsDecimalOf (v r : Json) : Prop where
  same : ∃ q, v.decimal? Json.numberLayout = some q ∧ r.decimal? .plain = some q
  real {x y : Binary64} : v = .real x → r = .real y → y = x

/-- Whether a value is the value of a kind that another one is. -/
def PrimitiveKind.IsSame : PrimitiveKind → Json → Json → Prop
  | .float, v, r | .double, v, r => v.IsFloatOf r
  | .decimal, v, r => v.IsDecimalOf r
  | _, v, r => r = v

/-- Whether what is written for a value is no text of its kind: a decimal has no exponent. -/
def PrimitiveKind.IsUnreadable : PrimitiveKind → Json → Prop
  | .decimal, .real x => 'e' ∈ (Json.realText x).toList
  | _, _ => False

/-- The numbers with an exponent are those whose leading digit stands more than five places behind
the point or more than sixteen before it. -/
theorem isUnreadable_real_iff {x : Binary64} :
    PrimitiveKind.decimal.IsUnreadable (.real x) ↔ x.isZero = false ∧
      ((x.shortest .toEven).lead < -5 ∨ 15 < (x.shortest .toEven).lead) := by
  have hlayout := Json.numberLayout.exponentMark_mem_render_iff x
  rw [PrimitiveKind.IsUnreadable, Json.realText, String.toList_ofList, hlayout]
  simp only [Json.numberLayout, Bool.and_eq_false_iff, decide_eq_false_iff_not, not_le]

/-- Only decimals can be unreadable, and only where they are numbers with an exponent. -/
theorem isUnreadable_iff : kind.IsUnreadable v ↔ kind = .decimal ∧ ∃ x, v = .real x ∧
    x.isZero = false ∧ ((x.shortest .toEven).lead < -5 ∨ 15 < (x.shortest .toEven).lead) := by
  constructor
  · intro h
    obtain ⟨rfl, x, rfl⟩ : kind = .decimal ∧ ∃ x, v = .real x := by
      cases kind <;> cases v <;> first | exact h.elim | exact ⟨rfl, _, rfl⟩
    exact ⟨rfl, x, rfl, isUnreadable_real_iff.mp h⟩
  · rintro ⟨rfl, x, rfl, h⟩
    exact isUnreadable_real_iff.mpr h

/-! ## Floating point values -/

/-- The special floating point values are no finite numbers. -/
theorem isSpecialFloat_of_read? {s : String} {negative : Bool} {mantissa : Nat} {exponent : Int}
    (h : Literal.read? (Text.trimChars s.toList) = some (.finite negative mantissa exponent)) :
    isSpecialFloat s = false := by
  rw [Bool.eq_false_iff]
  intro hspecial
  have hnone : ∀ special ∈ specialFloats,
      ∀ negative mantissa exponent,
        Literal.read? special.toList ≠ some (.finite negative mantissa exponent) := by
    intro special hmem negative mantissa exponent
    simp only [specialFloats, List.mem_cons, List.not_mem_nil, or_false] at hmem
    rcases hmem with rfl | rfl | rfl | rfl <;> exact nofun
  have hmem : Text.trim s ∈ specialFloats := by simpa [isSpecialFloat] using hspecial
  apply hnone _ hmem negative mantissa exponent
  rw [Text.trim, String.toList_ofList, h]

/-- The text of a number is read as this number. -/
theorem readFloat?_realText (x : Binary64) : readFloat? (Json.realText x) = some (.real x) := by
  have htrim : Text.trimChars (Json.realText x).toList = Json.numberLayout.render x := by
    rw [Json.realText, String.toList_ofList, Layout.trimChars_render]
  obtain ⟨mantissa, exponent, hread, -⟩ := Json.numberLayout.read?_render x
  have hspecial : isSpecialFloat (Json.realText x) = false := by
    rw [← htrim] at hread
    exact isSpecialFloat_of_read? hread
  rw [readFloat?, if_neg (by rw [hspecial]; exact Bool.false_ne_true), htrim,
    Layout.toBinary64?_render, Option.map_some]

/-- The text of a whole number is read as the nearest number. -/
theorem exists_readFloat?_wholeText (n : Json.Whole) :
    ∃ x, readFloat? (Json.wholeText n) = some (.real x) ∧ x.IsNearest n.value := by
  have htrim : Text.trimChars (Json.wholeText n).toList = (intText n.value).toList :=
    Text.trimChars_of_not_isBlank fun c hc => not_isBlank_of_mem_intText hc
  have hspecial : isSpecialFloat (Json.wholeText n) = false := by
    apply isSpecialFloat_of_read?
    rw [htrim, Literal.read?_intText]
  have hmagnitude : n.value.natAbs < 2 ^ 64 := by
    have hlower := n.lower
    have hupper := n.upper
    simp only [Range.int64, Range.nat64] at hlower hupper
    omega
  obtain ⟨x, hx⟩ := Binary64.exists_ofDecimal? (decide (n.value < 0)) hmagnitude
  refine ⟨x, ?_, ?_⟩
  · rw [readFloat?, if_neg (by rw [hspecial]; exact Bool.false_ne_true), htrim,
      Literal.read?_intText, Option.bind_some, Literal.toBinary64?, hx, Option.map_some]
  · have hnearest := Binary64.ofDecimal?_nearest (d := ⟨n.value.natAbs, 0⟩) hx
    rw [Scaled.toRat, zpow_zero, mul_one, signed_natAbs] at hnearest
    exact hnearest

/-! ## Decimals -/

/-- A text with a canonical form is read as the decimal that it says. -/
theorem exists_readDecimal? {s : String} (h : (canonical? s.toList).isSome) :
    ∃ r q, readDecimal? s = some r ∧ ratOf? (Text.trimChars s.toList) = some q ∧
      r.decimal? .plain = some q := by
  obtain ⟨canonical, hcanonical⟩ := Option.isSome_iff_exists.mp h
  have hread : readDecimal? s =
      some ((exactNumber? canonical).getD (.str (String.ofList canonical))) := by
    rw [readDecimal?, hcanonical, Option.map_some]
  obtain ⟨q, hq, hq'⟩ := decimal?_of_readDecimal? hread
  exact ⟨_, q, hread, hq, hq'⟩

/-- A number that is written like a canonical decimal is not zero, as zero is a whole number. -/
theorem IsExactly.isZero_eq_false {text canonical : List Char} {x : Binary64}
    (h : canonical? text = some canonical) (hx : IsExactly canonical (.real x)) :
    x.isZero = false := by
  cases hx with
  | real hwhole hrender =>
    rw [Bool.eq_false_iff]
    intro hzero
    have hself := canonical?_self h
    rw [← hrender, Binary64.eq_zero_of_isZero hzero] at hself
    cases hnegative : x.negative with
    | true =>
      rw [hnegative] at hself
      exact absurd hself (by decide)
    | false =>
      apply hwhole 0 (by decide)
      rw [← hrender, Binary64.eq_zero_of_isZero hzero, hnegative]
      rfl

/-- A number that the text of a number is read as is this number. -/
theorem eq_of_readDecimal?_realText {x y : Binary64}
    (h : readDecimal? (Json.realText x) = some (.real y)) : y = x := by
  obtain ⟨canonical, hcanonical, hreads⟩ := readsDecimal_of_readDecimal? h
  obtain ⟨q, hq, hq'⟩ := decimal?_of_readDecimal? h
  rw [Json.realText, String.toList_ofList, Layout.trimChars_render] at hq
  have hrat : ∀ (layout : Layout) (z : Binary64),
      ratOf? (layout.render z) = some (signed z.negative (z.shortestRat layout.tie)) := by
    intro layout z
    obtain ⟨mantissa, exponent, hread, hvalue⟩ := layout.read?_render z
    rw [ratOf?, hread, Option.bind_some, Literal.toRat?, hvalue]
  rw [hrat, Option.some.injEq] at hq
  rw [Json.decimal?, hrat, Option.some.injEq] at hq'
  cases hreads with
  | number hexact =>
    exact Binary64.eq_of_shortestRat (hexact.isZero_eq_false hcanonical) (hq'.trans hq.symm)

/-- A number that is written without an exponent is written as a decimal. -/
theorem isSome_canonical?_realText {x : Binary64} (h : 'e' ∉ (Json.realText x).toList) :
    (canonical? (Json.realText x).toList).isSome := by
  rw [Json.realText, String.toList_ofList] at h ⊢
  obtain ⟨unsigned, hrender, htext⟩ := Json.numberLayout.exists_isText x
  rw [hrender] at h ⊢
  obtain ⟨whole, fraction, hunsigned⟩ := htext.plain fun hmem => h (List.mem_append_right _ hmem)
  rw [hunsigned.canonical?_eq]
  rfl

/-- A number that is written with an exponent is written as no decimal. -/
theorem canonical?_realText_eq_none {x : Binary64} (h : 'e' ∈ (Json.realText x).toList) :
    canonical? (Json.realText x).toList = none := by
  rw [Option.eq_none_iff_forall_ne_some]
  intro canonical hcanonical
  obtain ⟨negative, unsigned, whole, fraction, hunsigned, htrim, -⟩ := canonical?_eq_some hcanonical
  rw [Json.realText, String.toList_ofList] at h htrim
  rw [Layout.trimChars_render] at htrim
  have hmem : 'e' ∈ unsigned := by
    rcases htrim with htrim | ⟨htrim, -⟩
    · rw [htrim, List.mem_append] at h
      refine h.resolve_left fun hsign => ?_
      cases negative with
      | false => cases hsign
      | true => exact absurd (List.mem_singleton.mp hsign) (by decide)
    · rw [htrim, List.mem_cons] at h
      exact h.resolve_left (by decide)
  rcases hunsigned.mem hmem with hdigit | hpoint
  · exact absurd hdigit (by decide)
  · exact absurd hpoint (by decide)

/-! ## All kinds -/

/-- The text that is written for a primitive value. -/
def Json.writtenText? : Json → Option String
  | .str s => some s
  | v => v.scalarText?

theorem ofValue_of_writtenText? {text : String} (h : v.writtenText? = some text)
    (isQualified : Bool) (name : String) :
    Envelope.ofValue isQualified name v = Envelope.textElement name text := by
  cases v with
  | null | arr | obj => cases h
  | _ =>
    obtain rfl := Option.some.inj h
    rfl

/-- A value fits a primitive kind that takes it. -/
theorem accepts_of_check (hnull : v ≠ .null)
    (h : check m v (.primitive kind) isOptional path = .ok ()) : kind.accepts v = true := by
  have hwhole : checkWhole v (.primitive kind) isOptional path = .ok () := by
    cases v with
    | null => exact absurd rfl hnull
    | arr items =>
      rw [← check_arr_of_ne (by simp)]
      exact h
    | obj members =>
      rw [← check_obj_of_ne (by simp)]
      exact h
    | _ => exact h
  obtain ⟨_, hkind, haccepts⟩ := exists_kind_of_checkWhole hwhole
  obtain rfl := TypeRef.primitive.inj hkind
  exact haccepts

/-- A floating point value is written as a text that is read as this value. -/
theorem exists_floatText (hnull : v ≠ .null) (h : PrimitiveKind.double.accepts v = true) :
    ∃ text r, v.writtenText? = some text ∧ readFloat? text = some r ∧ v.IsFloatOf r := by
  cases v with
  | null => exact absurd rfl hnull
  | bool | arr | obj => cases h
  | whole n =>
    obtain ⟨x, hread, hnearest⟩ := exists_readFloat?_wholeText n
    exact ⟨_, _, rfl, hread, .whole hnearest⟩
  | real x => exact ⟨_, _, rfl, readFloat?_realText x, .real x⟩
  | str s =>
    have hspecial : isSpecialFloat s = true := h
    exact ⟨s, _, rfl, by rw [readFloat?, if_pos hspecial], .special hspecial⟩

/-- A decimal without an exponent is written as a text that is read as this decimal. -/
theorem exists_decimalText (hnull : v ≠ .null) (h : PrimitiveKind.decimal.accepts v = true)
    (hreadable : ¬ PrimitiveKind.decimal.IsUnreadable v) :
    ∃ text r, v.writtenText? = some text ∧ readDecimal? text = some r ∧ v.IsDecimalOf r := by
  cases v with
  | null => exact absurd rfl hnull
  | bool | arr | obj => cases h
  | whole n =>
    have hcanonical : (canonical? (Json.wholeText n).toList).isSome := by
      rw [Json.wholeText, canonical?_intText]
      rfl
    obtain ⟨r, q, hread, hq, hr⟩ := exists_readDecimal? hcanonical
    have htrim : Text.trimChars (intText n.value).toList = (intText n.value).toList :=
      Text.trimChars_of_not_isBlank fun c hc => not_isBlank_of_mem_intText hc
    rw [Json.wholeText, htrim, ratOf?_intText] at hq
    exact ⟨_, r, rfl, hread, ⟨q, hq, hr⟩, fun hx => by cases hx⟩
  | real x =>
    obtain ⟨r, q, hread, hq, hr⟩ := exists_readDecimal? (isSome_canonical?_realText hreadable)
    rw [Json.realText, String.toList_ofList, Layout.trimChars_render] at hq
    refine ⟨_, r, rfl, hread, ⟨q, hq, hr⟩, fun {x' y} hx hy => ?_⟩
    obtain rfl := Json.real.inj hx
    subst hy
    exact eq_of_readDecimal?_realText hread
  | str s =>
    obtain ⟨r, q, hread, hq, hr⟩ := exists_readDecimal? h
    exact ⟨s, r, rfl, hread, ⟨q, hq, hr⟩, fun hx => by cases hx⟩

/-- What a kind takes is written as a text that the kind reads as the same value, where it is not
unreadable for the kind. -/
theorem exists_readText?_of_accepts (hkind : kind ≠ .anyType) (hnull : v ≠ .null)
    (h : kind.accepts v = true) (hreadable : ¬ kind.IsUnreadable v) :
    ∃ text r, v.writtenText? = some text ∧ kind.readText? text = some r ∧ kind.IsSame v r := by
  cases kind with
  | anyType => exact absurd rfl hkind
  | float =>
    have hdouble : PrimitiveKind.double.accepts v = true := by
      rw [← h]
      cases v <;> rfl
    exact exists_floatText hnull hdouble
  | double => exact exists_floatText hnull h
  | decimal => exact exists_decimalText hnull h hreadable
  | boolean =>
    cases v with
    | bool flag => exact ⟨_, _, rfl, readBoolean?_boolText flag, rfl⟩
    | _ => cases h
  | int =>
    cases v with
    | whole n => exact ⟨_, _, rfl, readWhole?_wholeText ⟨.int32, List.mem_cons_self, h⟩, rfl⟩
    | _ => cases h
  | long =>
    cases v with
    | whole n => exact ⟨_, _, rfl, readWhole?_wholeText n.holds, rfl⟩
    | _ => cases h
  | _ =>
    cases v with
    | str s => exact ⟨s, _, rfl, rfl, rfl⟩
    | _ => cases h

/-- What is written for a value that its kind takes is a single element with a text. The kind reads
the text as the same value, unless the value is a decimal and its text has an exponent, that is,
unless it is a number whose leading digit is too far from the point. -/
theorem coerce_writtenText (m : ServiceModel) {kind : PrimitiveKind} {v : Json} {isOptional : Bool}
    {path : Path} (hkind : kind ≠ .anyType) (hnull : v ≠ .null)
    (h : check m v (.primitive kind) isOptional path = .ok ()) :
    (∃ text, (∀ isQualified name,
        Envelope.ofValue isQualified name v = Envelope.textElement name text) ∧
      (¬ kind.IsUnreadable v →
        ∃ r, coerce m (.str text) (.primitive kind) = .ok r ∧ kind.IsSame v r) ∧
      (kind.IsUnreadable v →
        coerce m (.str text) (.primitive kind) =
          .error ⟨.ofStart "", .unreadable kind text⟩)) ∧
    (kind.IsUnreadable v ↔ kind = .decimal ∧ ∃ x, v = .real x ∧
      x.isZero = false ∧ ((x.shortest .toEven).lead < -5 ∨ 15 < (x.shortest .toEven).lead)) := by
  have haccepts := accepts_of_check hnull h
  refine ⟨?_, isUnreadable_iff⟩
  by_cases hreadable : kind.IsUnreadable v
  · obtain ⟨rfl, x, rfl, -⟩ := isUnreadable_iff.mp hreadable
    refine ⟨Json.realText x, fun _ _ => rfl, fun hnot => absurd hreadable hnot, fun _ => ?_⟩
    have hread : PrimitiveKind.decimal.readText? (Json.realText x) = none := by
      rw [PrimitiveKind.readText?, readDecimal?, canonical?_realText_eq_none hreadable,
        Option.map_none]
    have hstr : Json.str (Json.realText x) ≠ .null := by simp
    rw [coerce_primitive hstr, coercePrimitive, hread]
    rfl
  · obtain ⟨text, r, htext, hread, hsame⟩ :=
      exists_readText?_of_accepts hkind hnull haccepts hreadable
    refine ⟨text, ofValue_of_writtenText? htext, fun _ => ⟨r, ?_, hsame⟩,
      fun hunreadable => absurd hunreadable hreadable⟩
    exact coerceAt_str_primitive hread (.ofStart "")

/-- One half is written without an exponent, and is read as the same decimal. -/
theorem coerce_writtenText_half :
    let half : Json := .real ⟨false, 4503599627370496, 1021, by decide, by decide, by decide⟩
    ∃ text r, Envelope.ofValue false "price" half = Envelope.textElement "price" text ∧
      coerce ⟨none, [], []⟩ (.str text) (.primitive .decimal) = .ok r ∧
      PrimitiveKind.decimal.IsSame half r := by
  intro half
  have hchecked :
      check ⟨none, [], []⟩ half (.primitive .decimal) false (.ofStart "price") = .ok () := rfl
  have hreadable : ¬ PrimitiveKind.decimal.IsUnreadable half := by
    show 'e' ∉ (Json.realText _).toList
    decide +kernel
  have hkind : PrimitiveKind.decimal ≠ .anyType := nofun
  have hnull : half ≠ .null := nofun
  obtain ⟨⟨text, hwritten, hread, -⟩, -⟩ := coerce_writtenText _ hkind hnull hchecked
  obtain ⟨r, hr, hsame⟩ := hread hreadable
  exact ⟨text, r, hwritten false "price", hr, hsame⟩

/-- Ten to the sixteenth is a decimal that is sent with an exponent, and so is not read as one. And
a decimal that is read as a number may be written as another one: of two shortest decimals that are
equally near to the number, what is read is the upper one and what is written the even one. -/
theorem decimals_lost_in_texts :
    let model : ServiceModel := ⟨none, [], []⟩
    let power : Json := .real ⟨false, 5000000000000000, 1075, by decide, by decide, by decide⟩
    let price : Json := .str "1125899906842624.3"
    (check model power (.primitive .decimal) false (.ofStart "price") = .ok () ∧
      Envelope.ofValue false "price" power = Envelope.textElement "price" "1e+16" ∧
      coerce model (.str "1e+16") (.primitive .decimal) =
        .error ⟨.ofStart "", .unreadable .decimal "1e+16"⟩) ∧
    check model price (.primitive .decimal) false (.ofStart "price") = .ok () ∧
      Envelope.ofValue false "price" price = Envelope.textElement "price" "1125899906842624.3" ∧
      ∃ x, coerce model price (.primitive .decimal) = .ok (.real x) ∧
        Json.realText x = "1125899906842624.2" := by
  intro model power price
  have htext : Json.realText
      ⟨false, 5000000000000000, 1075, by decide, by decide, by decide⟩ = "1e+16" := by
    decide +kernel
  refine ⟨⟨rfl, ?_, by rfl⟩, rfl, rfl,
    ⟨false, 4503599627370497, 1072, by decide, by decide, by decide⟩, ?_, by decide +kernel⟩
  · rw [Envelope.ofValue, htext]
  · have hcanonical :
        canonical? "1125899906842624.3".toList = some "1125899906842624.3".toList := by
      decide
    have hwhole : wholeNumber? "1125899906842624.3".toList = none := rfl
    have hnumber : (Literal.read? "1125899906842624.3".toList).bind Literal.toBinary64? =
        some ⟨false, 4503599627370497, 1072, by decide, by decide, by decide⟩ := by
      decide +kernel
    have hplain : Layout.plain.render
        ⟨false, 4503599627370497, 1072, by decide, by decide, by decide⟩ =
          "1125899906842624.3".toList := by
      decide +kernel
    apply coerceAt_str_primitive
    rw [PrimitiveKind.readText?, readDecimal?, hcanonical, Option.map_some, exactNumber?_eq, hwhole,
      Option.none_or, hnumber, Option.bind_some, if_pos hplain, Option.getD_some]

end SoapClient
