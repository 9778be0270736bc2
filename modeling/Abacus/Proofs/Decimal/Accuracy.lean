import Abacus.Proofs.Decimal.Nearest
import Mathlib.Algebra.Order.Archimedean.Basic

/-!
How far rounding moves a number.

A number is rounded on a grid whose unit is a fixed part of the number's leading power of ten, or
the least value of the format. So there is one result of rounding, a number of the format is not
moved, and any other number is moved by no more than half a unit of its last digit or half the least
value. Differences, products and quotients that fit the format are exact.
-/
namespace Abacus

theorem RoundsAt.unique {e : ℤ} {v w w' : ℚ} (h : RoundsAt e v w) (h' : RoundsAt e v w') :
    w = w' := by
  obtain ⟨n, rfl, hn⟩ := h
  obtain ⟨m, rfl, hm⟩ := h'
  rw [hn.unique hm]

theorem RoundsAt.error_le {e : ℤ} {v w : ℚ} (h : RoundsAt e v w) : |w - v| ≤ 10 ^ e / 2 := by
  obtain ⟨n, rfl, hn⟩ := h
  have hunit := ten_zpow_pos e
  have hscaled : (n : ℚ) * 10 ^ e - v = -((v / 10 ^ e - n) * 10 ^ e) := by
    rw [sub_mul, div_mul_cancel₀ v hunit.ne', neg_sub]
  calc |(n : ℚ) * 10 ^ e - v| = |v / 10 ^ e - n| * 10 ^ e := by
        rw [hscaled, abs_neg, abs_mul, abs_of_pos hunit]
    _ ≤ 1 / 2 * 10 ^ e := mul_le_mul_of_nonneg_right hn.near hunit.le
    _ = 10 ^ e / 2 := one_div_mul_eq_div 2 _

namespace Format

variable {f : Format} {v w w' : ℚ}

/-- Every number has its grid: the unit is the least value of the format, or no more than one unit
of the last digit. -/
theorem exists_grid (f : Format) (v : ℚ) :
    ∃ e : ℤ, (e = f.tiny ∨ (10 : ℚ) ^ e ≤ 10 ^ (1 - f.digits : ℤ) * |v|) ∧
      ∀ w, f.Rounded v w → RoundsAt e v w := by
  by_cases hsmall : |v| < 10 ^ f.minExponent
  · exact ⟨f.tiny, .inl rfl, fun w h => h.subnormal hsmall⟩
  have hleast : 10 ^ f.minExponent ≤ |v| := not_lt.mp hsmall
  have hpos : 0 < |v| := (ten_zpow_pos f.minExponent).trans_le hleast
  obtain ⟨a, hle, hlt⟩ := exists_mem_Ico_zpow hpos (show (1 : ℚ) < 10 by norm_num)
  have ha : f.minExponent ≤ a := by
    have := ten_zpow_lt_iff.mp (hleast.trans_lt hlt)
    omega
  refine ⟨a + 1 - f.digits, .inr ?_, fun w h => h.normal a ha hle hlt⟩
  rw [show a + 1 - (f.digits : ℤ) = (1 - f.digits) + a by ring, zpow_add₀ (by norm_num)]
  exact mul_le_mul_of_nonneg_left hle (ten_zpow_pos _).le

theorem Rounded.unique (h : f.Rounded v w) (h' : f.Rounded v w') : w = w' := by
  obtain ⟨e, -, hgrid⟩ := f.exists_grid v
  exact (hgrid w h).unique (hgrid w' h')

/-- Half a unit of the last digit, or half the least value. -/
theorem Rounded.error_le (h : f.Rounded v w) :
    |w - v| ≤ 10 ^ (1 - f.digits : ℤ) / 2 * |v| + 10 ^ f.tiny / 2 := by
  obtain ⟨e, hunit, hgrid⟩ := f.exists_grid v
  have herror := (hgrid w h).error_le
  have hdigit : (0 : ℚ) ≤ 10 ^ (1 - f.digits : ℤ) * |v| :=
    mul_nonneg (ten_zpow_pos _).le (abs_nonneg v)
  have hleast := ten_zpow_pos f.tiny
  rcases hunit with rfl | hunit <;> linarith

/-- A number of the format is not moved. -/
theorem RoundsOnce.exact (hf : f.Ample) {o : Option Decimal} (h : f.RoundsOnce v o) {x : Decimal}
    (hx : f.Fits x) (hv : x.value = v) : ∃ z, o = some z ∧ z.value = v := by
  subst hv
  obtain ⟨y, hy, hvalue⟩ := round_exact hx rfl
  have hround := round_roundsOnce hf x
  have hrounded := hround.some_value y hy
  have hsmall : ¬f.threshold ≤ |x.value| := by
    rw [← hround.none_iff, hy]
    simp
  cases o with
  | none => exact absurd (h.none_iff.mp rfl) hsmall
  | some z => exact ⟨z, rfl, ((h.some_value z rfl).unique hrounded).trans hvalue⟩

theorem Fits.abs_value_lt {x : Decimal} (h : f.Fits x) : |x.value| < 10 ^ (f.maxExponent + 1) := by
  have hgreatest := h.greatest
  rw [← not_le, ← Decimal.lt_adjusted_iff]
  · exact Int.not_lt.mpr hgreatest
  · intro hzero
    have hcoefficient : x.coefficient = 0 := by simpa [Decimal.isZero] using hzero
    rw [Decimal.adjusted, hcoefficient, digitCount_zero] at hgreatest
    omega

end Format

/-! ### Exact results -/

namespace Decimal

variable {f : Format} {x y w : Decimal}

/-- A difference that fits is not rounded. -/
theorem sub_exact (hw : f.Fits w) (h : x.value - y.value = w.value) :
    ∃ z, x.sub f y = some z ∧ z.value = w.value := by
  refine Format.round_exact (x := x.exactSum y.neg) hw ?_
  rw [value_exactSum, value_neg, ← sub_eq_add_neg, h]

/-- A product that fits is not rounded. -/
theorem mul_exact (hw : f.Fits w) (h : x.value * y.value = w.value) :
    ∃ z, x.mul f y = some z ∧ z.value = w.value :=
  Format.round_exact hw ((value_exactProduct x y).trans h)

/-- A quotient that fits is not rounded. -/
theorem div_exact (hf : f.Ample) (hy : y.isZero = false) (hw : f.Fits w)
    (h : x.value / y.value = w.value) : ∃ z, x.div f y = some z ∧ z.value = w.value := by
  obtain ⟨z, hz, hvalue⟩ := (div_roundsOnce hf x hy).exact hf hw h.symm
  exact ⟨z, hz, hvalue.trans h⟩

end Decimal

end Abacus
