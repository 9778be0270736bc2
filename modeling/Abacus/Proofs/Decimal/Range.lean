import Abacus.Decimal.Arithmetic
import Abacus.Decimal.Display

/-!
Decimals that fit a format, and what rounding and display make of them.

A decimal fits if it has no more digits than the format, no place below the least one and no leading
digit above the greatest one. Whatever is rounded into a format fits it, also when the rounding has
carried to a new leading digit or has left only a zero. A decimal that fits the calculator's format
can be shown with any number of places.
-/
namespace Abacus

/-! ### Counting digits -/

theorem digitCount_pos (n : Nat) : 0 < digitCount n := by
  unfold digitCount
  split
  · exact Nat.one_pos
  · exact Nat.succ_pos _

theorem digitCount_of_lt {n : Nat} (h : n < 10) : digitCount n = 1 := by
  rw [digitCount, if_pos h]

@[simp]
theorem digitCount_zero : digitCount 0 = 1 := digitCount_of_lt (by decide)

theorem digitCount_le_succ_iff (n k : Nat) : digitCount n ≤ k + 1 ↔ n < 10 ^ (k + 1) := by
  induction k generalizing n with
  | zero =>
    have hpos := digitCount_pos (n / 10)
    unfold digitCount
    split <;> omega
  | succ k ih =>
    have hdiv : n / 10 < 10 ^ (k + 1) ↔ n < 10 ^ (k + 2) := by
      rw [Nat.div_lt_iff_lt_mul (by decide), ← Nat.pow_succ]
    have hten : 10 ≤ 10 ^ (k + 2) := by
      have := Nat.pow_le_pow_right (show 0 < 10 by decide) (show 1 ≤ k + 2 by omega)
      omega
    rw [digitCount]
    split
    · omega
    · rw [← hdiv, ← ih (n / 10)]
      omega

/-- A number with at most `k` digits is one below `10 ^ k`. -/
theorem digitCount_le_iff {n k : Nat} (hk : 0 < k) : digitCount n ≤ k ↔ n < 10 ^ k := by
  obtain ⟨j, rfl⟩ := Nat.exists_eq_succ_of_ne_zero (by omega : k ≠ 0)
  exact digitCount_le_succ_iff n j

theorem lt_pow_digitCount (n : Nat) : n < 10 ^ digitCount n :=
  (digitCount_le_iff (digitCount_pos n)).mp (Nat.le_refl _)

theorem digitCount_mul_ten {n : Nat} (hn : n ≠ 0) : digitCount (n * 10) = digitCount n + 1 := by
  rw [digitCount, if_neg (by omega), Nat.mul_div_cancel n (by decide)]

/-- Zeros at the end of a number other than zero are digits of it. -/
theorem digitCount_mul_pow {n : Nat} (hn : n ≠ 0) (k : Nat) :
    digitCount (n * 10 ^ k) = digitCount n + k := by
  induction k with
  | zero => simp
  | succ k ih =>
    have hne : n * 10 ^ k ≠ 0 := by
      have := Nat.pow_pos (n := k) (show 0 < 10 by decide)
      exact Nat.mul_ne_zero hn (by omega)
    rw [Nat.pow_succ, ← Nat.mul_assoc, digitCount_mul_ten hne, ih]
    omega

theorem digitCount_mul_pow_le (n k : Nat) : digitCount (n * 10 ^ k) ≤ digitCount n + k := by
  by_cases hn : n = 0
  · subst hn
    simp
  · exact Nat.le_of_eq (digitCount_mul_pow hn k)

/-! ### Rounding -/

theorem roundDiv_le_succ (n d : Nat) : roundDiv n d ≤ n / d + 1 := by
  unfold roundDiv
  simp only
  split
  · omega
  split
  · omega
  · omega

/-- Rounding `n / (d · 10 ^ drop)` leaves at most the digits that are not dropped, or a power of
ten. -/
theorem roundDiv_le_pow {n d drop k : Nat} (h : digitCount (n / d) ≤ drop + k) :
    roundDiv n (d * 10 ^ drop) ≤ 10 ^ k := by
  have hquotient : n / d < 10 ^ k * 10 ^ drop := by
    rw [← Nat.pow_add, Nat.add_comm]
    exact Nat.lt_of_lt_of_le (lt_pow_digitCount _) (Nat.pow_le_pow_right (by decide) h)
  have hdrop : n / (d * 10 ^ drop) < 10 ^ k := by
    rw [← Nat.div_div_eq_div_mul]
    exact (Nat.div_lt_iff_lt_mul (Nat.pow_pos (by decide))).mpr hquotient
  have := roundDiv_le_succ n (d * 10 ^ drop)
  omega

namespace Format

/-- The decimals of a format. -/
structure Fits (f : Format) (x : Decimal) : Prop where
  digits : digitCount x.coefficient ≤ f.digits
  least : f.tiny ≤ x.exponent
  greatest : x.adjusted ≤ f.maxExponent

theorem Fits.abs {f : Format} {x : Decimal} (h : f.Fits x) : f.Fits x.abs :=
  ⟨h.digits, h.least, h.greatest⟩

/-- The formats that have a decimal. -/
structure Proper (f : Format) : Prop where
  digits : 0 < f.digits
  range : f.tiny ≤ f.maxExponent

theorem calculator_proper : calculator.Proper := ⟨by decide, by decide⟩

theorem calculator_fits_iff {x : Decimal} :
    calculator.Fits x ↔ x.coefficient < 10 ^ (28 : Nat) ∧ -55 ≤ x.exponent ∧ x.adjusted ≤ 28 := by
  have hdigits := digitCount_le_iff (n := x.coefficient) (show 0 < 28 by decide)
  constructor
  · rintro ⟨hd, hl, hg⟩
    exact ⟨hdigits.mp hd, hl, hg⟩
  · rintro ⟨hd, hl, hg⟩
    exact ⟨hdigits.mpr hd, hl, hg⟩

theorem carry_digits {f : Format} (hf : f.Proper) {x : Decimal}
    (h : x.coefficient ≤ 10 ^ f.digits) : digitCount (f.carry x).coefficient ≤ f.digits := by
  unfold carry
  split
  · have hpos := Nat.pow_pos (n := f.digits) (show 0 < 10 by decide)
    exact (digitCount_le_iff hf.digits).mpr (by simp only; omega)
  · omega

theorem le_carry_exponent (f : Format) (x : Decimal) : x.exponent ≤ (f.carry x).exponent := by
  unfold carry
  split
  · simp only
    omega
  · exact Int.le_refl _

theorem settle_fits {f : Format} (hf : f.Proper) {negative : Bool} {n d : Nat} {e : Int}
    {x : Decimal} (h : f.settle negative n d e = some x) : f.Fits x := by
  unfold settle at h
  split at h
  · cases h
    have hdigits := hf.digits
    have hrange := hf.range
    refine ⟨?_, ?_, ?_⟩
    · simp only [digitCount_zero]
      omega
    · simp only
      omega
    · simp only [Decimal.adjusted, digitCount_zero]
      omega
  simp only at h
  split at h
  · -- nothing is dropped
    split at h
    · cases h
    next hgreatest =>
      cases h
      exact ⟨by simp only; omega, by simp only; omega, by omega⟩
  · split at h
    · cases h
    next hgreatest =>
      cases h
      refine ⟨carry_digits hf (roundDiv_le_pow (by omega)), ?_, by omega⟩
      refine Int.le_trans ?_ (le_carry_exponent f _)
      simp only
      omega

theorem round_fits {f : Format} (hf : f.Proper) {x y : Decimal} (h : f.round x = some y) :
    f.Fits y := settle_fits hf h

end Format

/-! ### Display -/

namespace Decimal

/-- Rounding to some decimal places leaves few enough digits. -/
theorem digitCount_quantize_le {x : Decimal} (h : Format.calculator.Fits x) (places : Nat) :
    (digitCount (x.quantize places).coefficient : Int) ≤ displayDigits places := by
  have hdigits : digitCount x.coefficient ≤ 28 := h.digits
  have hgreatest : x.adjusted ≤ 28 := h.greatest
  have hshown : displayDigits places = 56 + places := rfl
  rw [hshown]
  unfold quantize
  simp only
  split
  · have hle := digitCount_mul_pow_le x.coefficient (x.exponent - -(places : Int)).toNat
    simp only [adjusted] at hgreatest
    simp only [alignedTo]
    omega
  · have hround : roundDiv x.coefficient (10 ^ (-(places : Int) - x.exponent).toNat) ≤ 10 ^ 28 := by
      rw [← Nat.one_mul (10 ^ (-(places : Int) - x.exponent).toNat)]
      exact roundDiv_le_pow (by rw [Nat.div_one]; omega)
    have hle := (digitCount_le_iff (show 0 < 29 by decide)).mpr
      (Nat.lt_of_le_of_lt hround (by decide))
    simp only
    omega

theorem display?_of_fits {x : Decimal} (h : Format.calculator.Fits x) (places : Nat) :
    ∃ text, x.display? places = some text := by
  have hle := digitCount_quantize_le h places
  unfold display?
  simp only
  rw [if_neg (by omega)]
  split
  · exact ⟨_, rfl⟩
  · exact ⟨_, rfl⟩

end Decimal

end Abacus
