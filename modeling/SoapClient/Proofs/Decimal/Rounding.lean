import Mathlib.Tactic.Linarith
import Mathlib.Tactic.NormNum
import Mathlib.Tactic.Ring
import SoapClient.Decimal.Shortest

/-!
# Rounding to binary64 numbers

Rounding a fraction ends at a number that no other one is nearer than (`ofUnits?_nearest`), and it
ends at a given number wherever the fraction lies in the interval around that number
(`ofUnits?_of_near`).
-/

namespace SoapClient.Decimal.Binary64

/-- The number with another sign. -/
def withSign (x : Binary64) (negative : Bool) : Binary64 := { x with negative }

@[simp] theorem withSign_self (x : Binary64) : x.withSign x.negative = x := rfl

/-- A number without a significand is one of the two zeros. -/
theorem eq_zero_of_isZero {x : Binary64} (h : x.isZero) : x = zero x.negative := by
  obtain ⟨negative, significand, scale, hlt, hle, hnormal⟩ := x
  simp only [isZero, decide_eq_true_eq] at h
  subst h
  have hscale : scale = 0 := hnormal.resolve_left (by decide)
  subst hscale
  rfl

/-! ## Rounded quotients -/

/-- A quotient is rounded down where its rest is below the half of the divisor, and up where it is
above. Where the rest is just the half, the even one of the two whole numbers is taken. -/
theorem roundQuotient_cases {n d : Nat} (hd : 0 < d) :
    ∃ p r, n = p * d + r ∧ r < d ∧
      (roundQuotient n d = p ∧ (2 * r < d ∨ 2 * r = d ∧ p % 2 = 0) ∨
        roundQuotient n d = p + 1 ∧ (d < 2 * r ∨ 2 * r = d ∧ p % 2 = 1)) := by
  refine ⟨n / d, n % d, ?_, Nat.mod_lt n hd, ?_⟩
  · rw [Nat.mul_comm]
    exact (Nat.div_add_mod n d).symm
  · simp only [roundQuotient]
    split
    · next hbelow => exact .inl ⟨rfl, .inl hbelow⟩
    · split
      · next habove => exact .inr ⟨rfl, .inl habove⟩
      · split
        · next heven => exact .inl ⟨rfl, .inr ⟨by omega, heven⟩⟩
        · exact .inr ⟨rfl, .inr ⟨by omega, by omega⟩⟩

/-- Different multiples are a whole divisor apart. -/
theorem mul_add_le_mul {a b : Nat} (h : a < b) (d : Nat) : a * d + d ≤ b * d := by
  rw [← Nat.succ_mul]
  exact Nat.mul_le_mul_right d h

/-- A quotient is rounded to a whole number that it is less than a half away from. It is also
rounded to one that it is just a half away from, where that is even. -/
theorem roundQuotient_eq_of_near {n d q : Nat} (hd : 0 < d) (hlow : 2 * (q * d) ≤ 2 * n + d)
    (hhigh : 2 * n ≤ 2 * (q * d) + d)
    (htie : q % 2 = 1 → 2 * (q * d) ≠ 2 * n + d ∧ 2 * n ≠ 2 * (q * d) + d) :
    roundQuotient n d = q := by
  obtain ⟨p, r, rfl, hr, hround⟩ := roundQuotient_cases (n := n) hd
  have hdown : p ≤ q := by
    by_contra hlt
    have := mul_add_le_mul (Nat.lt_of_not_le hlt) d
    omega
  have hup : q ≤ p + 1 := by
    by_contra hlt
    have := mul_add_le_mul (Nat.lt_of_not_le hlt) d
    rw [Nat.add_mul, Nat.one_mul] at this
    omega
  rcases Nat.lt_or_eq_of_le hdown with hlt | rfl
  · obtain rfl : q = p + 1 := by omega
    rw [Nat.add_mul, Nat.one_mul] at hlow htie
    omega
  · omega

/-- The rounded quotient is at most a half away. -/
theorem roundQuotient_near {n d : Nat} (hd : 0 < d) :
    2 * (roundQuotient n d * d) ≤ 2 * n + d ∧ 2 * n ≤ 2 * (roundQuotient n d * d) + d := by
  obtain ⟨p, r, hn, hr, ⟨hround, hrest⟩ | ⟨hround, hrest⟩⟩ := roundQuotient_cases (n := n) hd
  · rw [hround]
    omega
  · rw [hround, Nat.add_mul, Nat.one_mul]
    omega

/-- No whole number is nearer than the rounded quotient. -/
theorem roundQuotient_nearest {n d : Nat} (hd : 0 < d) (q : Nat) :
    |((roundQuotient n d * d : Nat) : Int) - n| ≤ |((q * d : Nat) : Int) - n| := by
  obtain ⟨hlow, hhigh⟩ := roundQuotient_near (n := n) hd
  rcases Nat.lt_trichotomy q (roundQuotient n d) with h | h | h
  · have hstep := mul_add_le_mul h d
    rw [Int.abs_eq_natAbs, Int.abs_eq_natAbs]
    omega
  · rw [h]
  · have hstep := mul_add_le_mul h d
    rw [Int.abs_eq_natAbs, Int.abs_eq_natAbs]
    omega

/-- Where another whole number is equally near, the rounded quotient is even. -/
theorem roundQuotient_even {n d q : Nat} (hd : 0 < d) (hq : q ≠ roundQuotient n d)
    (h : |((q * d : Nat) : Int) - n| = |((roundQuotient n d * d : Nat) : Int) - n|) :
    roundQuotient n d % 2 = 0 := by
  obtain ⟨p, r, hn, hr, ⟨hround, hrest⟩ | ⟨hround, hrest⟩⟩ := roundQuotient_cases (n := n) hd
  · rw [hround, Int.abs_eq_natAbs, Int.abs_eq_natAbs] at h
    rw [hround] at hq ⊢
    -- those below are farther away, and those above equally near only where the rest is the half
    rcases Nat.lt_or_gt_of_ne hq with hlt | hlt
    · have := mul_add_le_mul hlt d
      omega
    · have := mul_add_le_mul hlt d
      omega
  · rw [hround, Nat.add_mul, Nat.one_mul, Int.abs_eq_natAbs, Int.abs_eq_natAbs] at h
    rw [hround] at hq ⊢
    rcases Nat.lt_or_gt_of_ne hq with hlt | hlt
    · have := mul_add_le_mul hlt d
      rw [Nat.add_mul, Nat.one_mul] at this
      omega
    · have := mul_add_le_mul hlt d
      rw [Nat.add_mul, Nat.one_mul] at this
      omega

/-! ## The scale of a fraction -/

/-- The scale of a fraction is the one at which its quotient has 53 binary digits, or the smallest
one where it has fewer. -/
theorem scaleFor_div_eq {u den k : Nat} (hden : 0 < den) (hlow : 2 ^ 52 * (den * 2 ^ k) ≤ u ∨ k = 0)
    (hhigh : u < 2 ^ 53 * (den * 2 ^ k)) : scaleFor (u / den) = k := by
  have hupper : u / den < 2 ^ (53 + k) := by
    rw [Nat.div_lt_iff_lt_mul hden, Nat.pow_add]
    calc u < 2 ^ 53 * (den * 2 ^ k) := hhigh
      _ = 2 ^ 53 * 2 ^ k * den := by ring
  rw [scaleFor]
  rcases hlow with hlow | rfl
  · have hlower : 2 ^ (52 + k) ≤ u / den := by
      rw [Nat.le_div_iff_mul_le hden, Nat.pow_add]
      calc 2 ^ 52 * 2 ^ k * den = 2 ^ 52 * (den * 2 ^ k) := by ring
        _ ≤ u := hlow
    have hne : u / den ≠ 0 := by
      have := Nat.two_pow_pos (52 + k)
      omega
    have hle : 52 + k ≤ (u / den).log2 := (Nat.le_log2 hne).mpr hlower
    have hlt : (u / den).log2 < 53 + k := (Nat.log2_lt hne).mpr hupper
    omega
  · by_cases hzero : u / den = 0
    · rw [hzero]
      rfl
    · have hlt : (u / den).log2 < 53 := (Nat.log2_lt hzero).mpr hupper
      omega

/-! ## Numbers of rounded fractions -/

theorem normalized?_eq_some {x : Binary64} (negative : Bool) {significand scale : Nat}
    (le : significand ≤ Nat.pow 2 53) (normal : Nat.pow 2 52 ≤ significand ∨ scale = 0)
    (hsignificand : significand = x.significand) (hscale : scale = x.scale) :
    normalized? negative significand scale le normal = some (x.withSign negative) := by
  subst hsignificand hscale
  rw [normalized?, dif_neg (Nat.ne_of_lt x.significand_lt), dif_pos x.scale_le]
  rfl

/-- A significand that is rounded up to `2 ^ 53` is carried over to the next scale. -/
theorem normalized?_carry {x : Binary64} (negative : Bool) {significand scale : Nat}
    (le : significand ≤ Nat.pow 2 53) (normal : Nat.pow 2 52 ≤ significand ∨ scale = 0)
    (hsignificand : significand = 2 ^ 53) (hx : x.significand = 2 ^ 52)
    (hscale : scale + 1 = x.scale) :
    normalized? negative significand scale le normal = some (x.withSign negative) := by
  obtain ⟨sign, s, k, hlt, hle, hnormal⟩ := x
  simp only at hx hscale
  subst hsignificand hx hscale
  have hcarry : 2 ^ 53 = Nat.pow 2 53 := rfl
  rw [normalized?, dif_pos hcarry, dif_pos hle]
  rfl

/-- A fraction is rounded to the number of its scale and its rounded quotient. -/
theorem ofUnits?_eq_some {x : Binary64} (negative : Bool) {u den : Nat}
    (hscale : scaleFor (u / den) = x.scale)
    (hquotient : roundQuotient u (den * 2 ^ x.scale) = x.significand) :
    ofUnits? negative u den = some (x.withSign negative) := by
  unfold ofUnits?
  apply normalized?_eq_some
  · rw [hscale]
    exact hquotient
  · exact hscale

theorem ofUnits?_carry {x : Binary64} (negative : Bool) {u den k : Nat}
    (hscale : scaleFor (u / den) = k) (hquotient : roundQuotient u (den * 2 ^ k) = 2 ^ 53)
    (hx : x.significand = 2 ^ 52) (hk : k + 1 = x.scale) :
    ofUnits? negative u den = some (x.withSign negative) := by
  unfold ofUnits?
  apply normalized?_carry
  · rw [hscale]
    exact hquotient
  · exact hx
  · rw [hscale]
    exact hk

/-- A number comes from its significand and its scale, or from twice the significand at the scale
before, where the significand is even. -/
theorem eq_of_normalized? {x : Binary64} {negative : Bool} {significand scale : Nat}
    {le : significand ≤ Nat.pow 2 53} {normal : Nat.pow 2 52 ≤ significand ∨ scale = 0}
    (h : normalized? negative significand scale le normal = some x) :
    x.negative = negative ∧ x.units = significand * 2 ^ scale ∧
      (significand % 2 = 0 → x.significand % 2 = 0) := by
  rw [normalized?] at h
  split at h
  · next hcarry =>
    split at h
    · obtain rfl := Option.some.inj h
      refine ⟨rfl, ?_, fun _ => show Nat.pow 2 52 % 2 = 0 by decide⟩
      simp only [units, hcarry, Nat.pow_eq]
      ring
    · cases h
  · split at h
    · obtain rfl := Option.some.inj h
      exact ⟨rfl, rfl, id⟩
    · cases h

/-! ## The interval of a number -/

/-- The interval of a number ends half a unit of its last binary digit above it. -/
theorem fourHigh_mul (x : Binary64) (den : Nat) :
    x.fourHigh * den = 4 * (x.significand * (den * 2 ^ x.scale)) + 2 * (den * 2 ^ x.scale) := by
  rw [fourHigh, Nat.pow_eq]
  ring

/-- A number is the first one of its scale where it is a power of two. The number before it is then
only half as far as the one behind it. -/
def IsFirst (x : Binary64) : Prop := x.significand = Nat.pow 2 52 ∧ 0 < x.scale

/-- The interval of a number starts half a unit below it, for the first number of a scale only half
as far. -/
theorem fourLow_mul {x : Binary64} (hx : x.significand ≠ 0) (den : Nat) :
    (x.IsFirst ∧ x.fourLow * den + den * 2 ^ x.scale = 4 * (x.significand * (den * 2 ^ x.scale))) ∨
      (¬ x.IsFirst ∧
        x.fourLow * den + 2 * (den * 2 ^ x.scale) = 4 * (x.significand * (den * 2 ^ x.scale))) := by
  by_cases hfirst : x.IsFirst
  · refine .inl ⟨hfirst, ?_⟩
    obtain ⟨rest, hrest⟩ := Nat.exists_eq_add_of_le (show 1 ≤ 4 * x.significand by omega)
    have hlow : x.fourLow = rest * 2 ^ x.scale := by
      unfold IsFirst at hfirst
      rw [fourLow, if_pos hfirst, hrest, Nat.add_sub_cancel_left, Nat.pow_eq]
    calc x.fourLow * den + den * 2 ^ x.scale = (1 + rest) * (den * 2 ^ x.scale) := by
          rw [hlow]
          ring
      _ = 4 * (x.significand * (den * 2 ^ x.scale)) := by rw [← hrest, Nat.mul_assoc]
  · refine .inr ⟨hfirst, ?_⟩
    obtain ⟨rest, hrest⟩ := Nat.exists_eq_add_of_le (show 2 ≤ 4 * x.significand by omega)
    have hlow : x.fourLow = rest * 2 ^ x.scale := by
      unfold IsFirst at hfirst
      rw [fourLow, if_neg hfirst, hrest, Nat.add_sub_cancel_left, Nat.pow_eq]
    calc x.fourLow * den + 2 * (den * 2 ^ x.scale) = (2 + rest) * (den * 2 ^ x.scale) := by
          rw [hlow]
          ring
      _ = 4 * (x.significand * (den * 2 ^ x.scale)) := by rw [← hrest, Nat.mul_assoc]

/-- A fraction of units is rounded to a number where four times the fraction lies between the ends
of the interval of the number. The ends count where the significand is even. -/
theorem ofUnits?_of_near {x : Binary64} (hx : x.significand ≠ 0) (negative : Bool) {u den : Nat}
    (hden : 0 < den) (hlow : x.fourLow * den ≤ 4 * u) (hhigh : 4 * u ≤ x.fourHigh * den)
    (hodd : x.significand % 2 = 1 → x.fourLow * den ≠ 4 * u ∧ 4 * u ≠ x.fourHigh * den) :
    ofUnits? negative u den = some (x.withSign negative) := by
  have hlt : x.significand < 2 ^ 53 := x.significand_lt
  have hlower := fourLow_mul hx den
  rw [fourHigh_mul] at hhigh hodd
  by_cases hbelow : x.IsFirst ∧ u < x.significand * (den * 2 ^ x.scale)
  · -- just below a power of two the fraction has the scale before, and is rounded up
    obtain ⟨hfirst, hu⟩ := hbelow
    obtain ⟨-, hlower⟩ := hlower.resolve_right fun h => h.1 hfirst
    obtain ⟨k, hk⟩ : ∃ k, x.scale = k + 1 := Nat.exists_eq_succ_of_ne_zero (Nat.ne_of_gt hfirst.2)
    have hd : 0 < den * 2 ^ k := Nat.mul_pos hden (Nat.two_pow_pos _)
    have htwice : den * 2 ^ x.scale = 2 * (den * 2 ^ k) := by
      rw [hk, Nat.pow_succ]
      ring
    have hpower : x.significand = 2 ^ 52 := hfirst.1
    rw [htwice, hpower] at hlower hu
    generalize hdef : den * 2 ^ k = d at *
    have hscale : scaleFor (u / den) = k := by
      apply scaleFor_div_eq hden
      · left
        rw [hdef]
        omega
      · rw [hdef]
        omega
    refine ofUnits?_carry negative hscale ?_ hfirst.1 hk.symm
    rw [hdef]
    apply roundQuotient_eq_of_near hd
    · omega
    · omega
    · omega
  · -- otherwise the fraction has the scale of the number
    rw [not_and_or, Nat.not_lt] at hbelow
    have hd : 0 < den * 2 ^ x.scale := Nat.mul_pos hden (Nat.two_pow_pos _)
    have htop : (x.significand + 1) * (den * 2 ^ x.scale) ≤ 2 ^ 53 * (den * 2 ^ x.scale) :=
      Nat.mul_le_mul_right _ hlt
    have hscale : scaleFor (u / den) = x.scale := by
      apply scaleFor_div_eq hden
      · by_cases hzero : x.scale = 0
        · exact .inr hzero
        · left
          have hnormal : 2 ^ 52 ≤ x.significand := x.normal.resolve_right hzero
          have hbase := Nat.mul_le_mul_right (den * 2 ^ x.scale) hnormal
          rcases hbelow with hfirst | hu
          · -- the number is at least the one behind the first of its scale
            have hpower : x.significand ≠ 2 ^ 52 :=
              fun h => hfirst ⟨h, Nat.pos_of_ne_zero hzero⟩
            have hnext : (2 ^ 52 + 1) * (den * 2 ^ x.scale) ≤
                x.significand * (den * 2 ^ x.scale) := Nat.mul_le_mul_right _ (by omega)
            rw [Nat.add_mul] at hnext
            omega
          · exact hbase.trans hu
      · rw [Nat.add_mul] at htop
        omega
    refine ofUnits?_eq_some negative hscale ?_
    apply roundQuotient_eq_of_near hd
    · omega
    · omega
    · omega

/-! ## The nearest number -/

/-- A rounded fraction lies on the grid of its scale, at the rounded quotient. -/
theorem eq_of_ofUnits? {x : Binary64} {negative : Bool} {u den : Nat}
    (h : ofUnits? negative u den = some x) :
    x.negative = negative ∧
      x.units = roundQuotient u (den * 2 ^ scaleFor (u / den)) * 2 ^ scaleFor (u / den) ∧
      (roundQuotient u (den * 2 ^ scaleFor (u / den)) % 2 = 0 → x.significand % 2 = 0) := by
  unfold ofUnits? at h
  exact eq_of_normalized? h

/-- Numbers of smaller scales are not greater than the first one of a scale. -/
theorem units_le_of_scale_lt {x : Binary64} {k : Nat} (h : x.scale < k) :
    x.units ≤ 2 ^ 52 * 2 ^ k := by
  obtain ⟨j, rfl⟩ := Nat.exists_eq_add_of_lt h
  have hlt : x.significand ≤ 2 ^ 53 := x.significand_lt.le
  have hpow : 2 ^ x.scale ≤ 2 ^ (x.scale + j) := Nat.pow_le_pow_right (by decide) (by omega)
  calc x.units ≤ 2 ^ 53 * 2 ^ (x.scale + j) := Nat.mul_le_mul hlt hpow
    _ = 2 ^ 52 * 2 ^ (x.scale + j + 1) := by ring

/-- Every number has a point on the grid of a fraction's scale that is no farther away from the
fraction, and that is the number where it is equally far. -/
theorem exists_gridPoint {u den k : Nat} (hden : 0 < den) (z : Binary64)
    (hbase : Nat.pow 2 52 ≤ u / den / Nat.pow 2 k ∨ k = 0) :
    ∃ q : Nat, |((q * (den * 2 ^ k) : Nat) : Int) - u| ≤ |((z.units * den : Nat) : Int) - u| ∧
      (|((q * (den * 2 ^ k) : Nat) : Int) - u| = |((z.units * den : Nat) : Int) - u| →
        q * (den * 2 ^ k) = z.units * den) := by
  have hd : 0 < den * 2 ^ k := Nat.mul_pos hden (Nat.two_pow_pos _)
  by_cases hz : k ≤ z.scale
  · -- a number of this scale or a greater one lies on the grid
    have hgrid : z.significand * 2 ^ (z.scale - k) * (den * 2 ^ k) = z.units * den := by
      rw [units, Nat.pow_eq, ← Nat.sub_add_cancel hz, Nat.pow_add, Nat.add_sub_cancel]
      ring
    refine ⟨z.significand * 2 ^ (z.scale - k), ?_, fun _ => hgrid⟩
    rw [hgrid]
  · -- a number of a smaller scale is not above the first one of this scale
    rw [Nat.not_le] at hz
    have hlow : z.units * den ≤ 2 ^ 52 * (den * 2 ^ k) := by
      calc z.units * den
        _ ≤ 2 ^ 52 * 2 ^ k * den := Nat.mul_le_mul_right den (units_le_of_scale_lt hz)
        _ = 2 ^ 52 * (den * 2 ^ k) := by ring
    have hfirst : 2 ^ 52 * (den * 2 ^ k) ≤ u := by
      have hdiv := hbase.resolve_right (Nat.ne_of_gt (Nat.zero_lt_of_lt hz))
      rw [Nat.pow_eq, Nat.pow_eq, Nat.div_div_eq_div_mul] at hdiv
      exact (Nat.le_div_iff_mul_le hd).mp hdiv
    refine ⟨2 ^ 52, ?_, ?_⟩
    · rw [Int.abs_eq_natAbs, Int.abs_eq_natAbs]
      omega
    · rw [Int.abs_eq_natAbs, Int.abs_eq_natAbs]
      omega

/-- A fraction of units is rounded to a number with the given sign that no number is nearer than.
Where another one is equally near, the significand of the number is even. -/
theorem ofUnits?_nearest {x : Binary64} {negative : Bool} {u den : Nat} (hden : 0 < den)
    (h : ofUnits? negative u den = some x) :
    x.negative = negative ∧ ∀ z : Binary64,
      |((x.units * den : Nat) : Int) - u| ≤ |((z.units * den : Nat) : Int) - u| ∧
        (|((z.units * den : Nat) : Int) - u| = |((x.units * den : Nat) : Int) - u| →
          z.units ≠ x.units → x.significand % 2 = 0) := by
  obtain ⟨hsign, hunits, heven⟩ := eq_of_ofUnits? h
  have hbase := le_div_scaleFor (u / den)
  refine ⟨hsign, fun z => ?_⟩
  generalize scaleFor (u / den) = k at hunits hbase heven
  have hd : 0 < den * 2 ^ k := Nat.mul_pos hden (Nat.two_pow_pos _)
  have hx : x.units * den = roundQuotient u (den * 2 ^ k) * (den * 2 ^ k) := by
    rw [hunits]
    ring
  obtain ⟨q, hnear, hsame⟩ := exists_gridPoint hden z hbase
  have hnearest := roundQuotient_nearest (n := u) hd q
  rw [← hx] at hnearest
  refine ⟨hnearest.trans hnear, fun htie hne => heven ?_⟩
  -- the two are equally far away, and so is the point on the grid, which then is the number
  have hequal := le_antisymm (hnear.trans_eq htie) hnearest
  have hpoint := hsame (hequal.trans htie.symm)
  refine roundQuotient_even hd (q := q) ?_ (by rw [hequal, hx])
  rintro rfl
  rw [← hx] at hpoint
  exact hne (Nat.eq_of_mul_eq_mul_right hden hpoint).symm

end SoapClient.Decimal.Binary64
