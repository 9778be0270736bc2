import Abacus.Proofs.Decimal.Plain
import Abacus.Proofs.Numeric.Range
import Mathlib.Data.Sign.Basic

/-!
Remainders are exact.

What is left after whole multiples are taken away has no place below those of the operands and is
smaller than the divisor, and not greater than the dividend; so it never has more digits than one of
them, and rounding it changes nothing. This does not depend on the length of the integer quotient,
which has at most 84 digits. So the two ways of working out a remainder give the same.
-/
namespace Abacus

/-! ### Division that truncates -/

/-- The integer next to `v` on the side of zero. -/
def truncate (v : ℚ) : ℤ := if 0 ≤ v then ⌊v⌋ else ⌈v⌉

/-- `r` is what is left of `v` after taking away whole multiples of `w`. -/
structure IsRemainder (v w r : ℚ) : Prop where
  exact : r = v - truncate (v / w) * w
  smaller : |r| < |w|
  sign : r ≠ 0 → SignType.sign r = SignType.sign v

theorem truncate_of_nonneg {v : ℚ} (h : 0 ≤ v) : truncate v = (⌊v⌋₊ : ℤ) := by
  rw [truncate, if_pos h, Int.natCast_floor_eq_floor h]

theorem truncate_neg (v : ℚ) : truncate (-v) = -truncate v := by
  rcases lt_trichotomy v 0 with hneg | rfl | hpos
  · rw [truncate, truncate, if_pos (by linarith), if_neg (by linarith), Int.floor_neg]
  · simp [truncate]
  · rw [truncate, truncate, if_neg (by linarith), if_pos hpos.le, Int.ceil_neg]

/-- What is left of a magnitude. -/
theorem floor_rest_bounds (v : ℚ) {w : ℚ} (hw : w ≠ 0) :
    0 ≤ |v| - |w| * ⌊|v| / |w|⌋₊ ∧ |v| - |w| * ⌊|v| / |w|⌋₊ < |w| := by
  have hpos : 0 < |w| := abs_pos.mpr hw
  have hleast : (⌊|v| / |w|⌋₊ : ℚ) ≤ |v| / |w| := Nat.floor_le (by positivity)
  have hgreatest : |v| / |w| < ⌊|v| / |w|⌋₊ + 1 := Nat.lt_floor_add_one _
  rw [le_div_iff₀ hpos] at hleast
  rw [div_lt_iff₀ hpos] at hgreatest
  constructor <;> linarith

namespace Decimal

theorem value_ne_zero {x : Decimal} (h : x.isZero = false) : x.value ≠ 0 := by
  rw [ne_eq, value_eq_zero_iff, h]
  decide

/-- Truncation takes the signs apart from the magnitudes. -/
theorem truncate_mul_value (x y : Decimal) :
    (truncate (x.value / y.value) : ℚ) * y.value
      = sign x.negative * (|y.value| * ⌊|x.value| / |y.value|⌋₊) := by
  have hquotient : truncate (|x.value| / |y.value|) = (⌊|x.value| / |y.value|⌋₊ : ℤ) :=
    truncate_of_nonneg (by positivity)
  generalize ⌊|x.value| / |y.value|⌋₊ = n at hquotient ⊢
  rw [x.value_eq_sign_mul, y.value_eq_sign_mul]
  cases x.negative <;> cases y.negative <;>
    simp [sign, neg_div, div_neg, truncate_neg, hquotient, mul_comm]

theorem sign_signed (negative : Bool) {v : ℚ} (hv : 0 < v) :
    SignType.sign (sign negative * v) = SignType.sign (sign negative) := by
  rw [sign_mul, sign_pos hv, mul_one]

/-- What is left has the sign of the dividend and is smaller than the divisor. -/
theorem exactRest_isRemainder (x : Decimal) {y : Decimal} (hy : y.isZero = false) :
    IsRemainder x.value y.value (x.exactRest y).value := by
  obtain ⟨hleast, hgreatest⟩ := floor_rest_bounds x.value (value_ne_zero hy)
  have htruncate := truncate_mul_value x y
  have hrest := value_exactRest x y
  rw [wholeQuotient_eq] at hrest
  generalize ⌊|x.value| / |y.value|⌋₊ = n at hleast hgreatest htruncate hrest
  refine ⟨?_, ?_, fun hne => ?_⟩
  · rw [hrest, htruncate, mul_sub, ← x.value_eq_sign_mul]
  · have habs : |sign x.negative| = 1 := by cases x.negative <;> simp [sign]
    rwa [hrest, abs_mul, habs, one_mul, abs_of_nonneg hleast]
  · have hpos : 0 < |x.value| - |y.value| * n := by
      refine lt_of_le_of_ne hleast fun hzero => hne ?_
      rw [hrest, ← hzero, mul_zero]
    have hx : 0 < |x.value| := by
      have : 0 ≤ |y.value| * n := by positivity
      linarith
    calc SignType.sign (x.exactRest y).value
        = SignType.sign (sign x.negative) := by rw [hrest, sign_signed _ hpos]
      _ = SignType.sign (sign x.negative * |x.value|) := (sign_signed _ hx).symm
      _ = SignType.sign x.value := by rw [← x.value_eq_sign_mul]

/-! ### Digits of remainders and quotients -/

theorem digitCount_mono {m n : Nat} (h : m ≤ n) : digitCount m ≤ digitCount n :=
  (digitCount_le_iff (digitCount_pos n)).mpr (Nat.lt_of_le_of_lt h (lt_pow_digitCount n))

end Decimal

namespace Format

/-- A smaller coefficient with the same exponent fits as well. -/
theorem Fits.of_le {f : Format} {x y : Decimal} (h : f.Fits x)
    (hcoefficient : y.coefficient ≤ x.coefficient) (hexponent : y.exponent = x.exponent) :
    f.Fits y := by
  have hcount := Decimal.digitCount_mono hcoefficient
  have hgreatest := h.greatest
  simp only [Decimal.adjusted] at hgreatest
  refine ⟨Nat.le_trans hcount h.digits, hexponent ▸ h.least, ?_⟩
  simp only [Decimal.adjusted, hexponent]
  omega

end Format

namespace Decimal

open Format (calculator)

/-- What is left has the exponent of one operand and no greater coefficient. -/
theorem exactRest_fits {f : Format} {x y : Decimal} (hx : f.Fits x) (hy : f.Fits y)
    (hne : y.isZero = false) : f.Fits (x.exactRest y) := by
  rcases Int.le_total y.exponent x.exponent with hle | hle
  · refine hy.of_le ?_ (Int.min_eq_right hle)
    have haligned : y.alignedTo (min x.exponent y.exponent) = y.coefficient := by
      rw [Int.min_eq_right hle, alignedTo, Int.sub_self, Int.toNat_zero, Nat.pow_zero, Nat.mul_one]
    have hpos : 0 < y.coefficient := Nat.pos_of_ne_zero (by simpa [isZero] using hne)
    simp only [exactRest, haligned]
    exact (Nat.mod_lt _ hpos).le
  · refine hx.of_le ?_ (Int.min_eq_left hle)
    have haligned : x.alignedTo (min x.exponent y.exponent) = x.coefficient := by
      rw [Int.min_eq_left hle, alignedTo, Int.sub_self, Int.toNat_zero, Nat.pow_zero, Nat.mul_one]
    simp only [exactRest, haligned]
    exact Nat.mod_le _ _

/-- The greatest number divided by the least one has an integer part of 84 digits. -/
theorem digitCount_wholeQuotient_le {x y : Decimal} (hx : calculator.Fits x)
    (hy : calculator.Fits y) (hne : y.isZero = false) : digitCount (x.wholeQuotient y) ≤ 84 := by
  have hgreatest : x.exponent + digitCount x.coefficient - 1 ≤ 28 := hx.greatest
  have hleast : -55 ≤ y.exponent := hy.least
  let e := min x.exponent y.exponent
  have hdividend : x.alignedTo e
      < 10 ^ (digitCount x.coefficient + (x.exponent - e).toNat) := by
    rw [alignedTo, Nat.pow_add]
    exact Nat.mul_lt_mul_of_pos_right (lt_pow_digitCount _) (Nat.pow_pos (by decide))
  have hdivisor : 10 ^ (y.exponent - e).toNat ≤ y.alignedTo e :=
    Nat.le_mul_of_pos_left _ (Nat.pos_of_ne_zero (by simpa [isZero] using hne))
  rw [digitCount_le_iff (by decide)]
  refine Nat.div_lt_of_lt_mul (Nat.lt_of_lt_of_le hdividend ?_)
  calc 10 ^ (digitCount x.coefficient + (x.exponent - e).toNat)
      ≤ 10 ^ ((y.exponent - e).toNat + 84) := Nat.pow_le_pow_right (by decide) (by omega)
    _ = 10 ^ (y.exponent - e).toNat * 10 ^ 84 := Nat.pow_add ..
    _ ≤ y.alignedTo e * 10 ^ 84 := Nat.mul_le_mul_right _ hdivisor

end Decimal

namespace Numeric

open Format (calculator)

theorem fits_wide {x : Decimal} (h : calculator.Fits x) : wide.Fits x := by
  have hdigits : digitCount x.coefficient ≤ 28 := h.digits
  have hleast : -55 ≤ x.exponent := h.least
  have hgreatest : x.adjusted ≤ 28 := h.greatest
  refine ⟨Nat.le_trans hdigits (by decide), ?_, ?_⟩
  · exact Int.le_trans (by decide) hleast
  · exact Int.le_trans hgreatest (by decide)

/-- A remainder is not rounded in any format that both operands fit. -/
theorem rem_exact {f : Format} {x y : Decimal} (hx : f.Fits x) (hy : f.Fits y)
    (hne : y.isZero = false) :
    ∃ z, x.rem f y = some z ∧ z.value = (x.exactRest y).value :=
  Format.round_exact (Decimal.exactRest_fits hx hy hne) rfl

theorem narrow_exact {w r : Decimal} (hr : calculator.Fits r) (h : w.value = r.value) :
    ∃ z, narrow w = some z ∧ z.value = r.value := by
  refine Format.round_exact hr ?_
  split
  · next hzero => rw [Decimal.value_abs, ← h, Decimal.value_of_isZero hzero, abs_zero]
  · exact h

/-- Either way of working out a remainder leads to the same number. -/
theorem remainder_of_parts {x y z w u : Decimal} (hne : y.isZero = false)
    (hlength : digitCount (x.wholeQuotient y) ≤ wide.digits) (hz : x.rem calculator y = some z)
    (hw : x.rem wide y = some w) (hu : narrow w = some u) (h : u.value = z.value) :
    ∃ r, remainder x y = .ok r ∧ r.value = z.value := by
  by_cases hshort : digitCount (x.wholeQuotient y) ≤ calculator.digits
  · exact ⟨z, by simp [remainder, hne, hshort, hz, check], rfl⟩
  · exact ⟨u, by simp [remainder, hne, hshort, hlength, hw, hu, check], h⟩

/-- The remainder of two numbers of the calculator is exact and a number of the calculator, whether
the calculator's format is used or the wide one, which is long enough for every integer quotient. A
division by zero has no remainder. -/
theorem remainder_is_exact :
    (∀ x y : Decimal, calculator.Fits x → calculator.Fits y → y.isZero = false →
      (∃ z, remainder x y = .ok z ∧ calculator.Fits z ∧
        IsRemainder x.value y.value z.value) ∧
      (∃ z, x.rem calculator y = some z ∧ IsRemainder x.value y.value z.value) ∧
      digitCount (x.wholeQuotient y) ≤ wide.digits ∧
      ∃ w z, x.rem wide y = some w ∧ IsRemainder x.value y.value w.value ∧
        narrow w = some z ∧ z.value = w.value) ∧
    ∀ x y : Decimal, y.isZero = true → remainder x y = .error .zeroDivision := by
  refine ⟨fun x y hx hy hne => ?_, fun x y hzero => if_pos hzero⟩
  have hrest := Decimal.exactRest_isRemainder x hne
  have hlength : digitCount (x.wholeQuotient y) ≤ wide.digits :=
    Nat.le_trans (Decimal.digitCount_wholeQuotient_le hx hy hne) (by decide)
  obtain ⟨z, hz, hzvalue⟩ := rem_exact hx hy hne
  obtain ⟨w, hw, hwvalue⟩ := rem_exact (fits_wide hx) (fits_wide hy) hne
  obtain ⟨u, hu, huvalue⟩ := narrow_exact (Decimal.exactRest_fits hx hy hne) hwvalue
  obtain ⟨r, hr, hrvalue⟩ := remainder_of_parts hne hlength hz hw hu (huvalue.trans hzvalue.symm)
  refine ⟨⟨r, hr, remainder_inRange x y r hr, ?_⟩, ⟨z, hz, ?_⟩, hlength, w, u, hw, ?_, hu, ?_⟩
  · rwa [hrvalue, hzvalue]
  · rwa [hzvalue]
  · rwa [hwvalue]
  · rw [huvalue, hwvalue]

/-- The integer quotient has 83 digits, too many for the calculator's format. -/
theorem remainder_is_exact_with_wide_quotient :
    let x : Decimal := ⟨false, 1, 28⟩
    let y : Decimal := ⟨true, 7, -55⟩
    let z : Decimal := ⟨false, 5, -55⟩
    calculator.Fits x ∧ calculator.Fits y ∧ y.isZero = false ∧
      calculator.digits < digitCount (x.wholeQuotient y) ∧ remainder x y = .ok z ∧
      IsRemainder x.value y.value z.value ∧ remainder x .zero = .error .zeroDivision := by
  intro x y z
  have hx : calculator.Fits x :=
    Format.calculator_fits_iff.mpr ⟨by decide, by decide, by decide +kernel⟩
  have hy : calculator.Fits y :=
    Format.calculator_fits_iff.mpr ⟨by decide, by decide, by decide +kernel⟩
  have hz : remainder x y = .ok z := by decide +kernel
  obtain ⟨⟨⟨r, hr, -, hremainder⟩, -⟩, hzero⟩ :=
    And.imp_left (fun h => h x y hx hy rfl) remainder_is_exact
  obtain rfl : r = z := Except.ok.inj (hr.symm.trans hz)
  exact ⟨hx, hy, rfl, by decide +kernel, hz, hremainder, hzero x .zero rfl⟩

end Numeric

end Abacus
