import Abacus.Proofs.Decimal.Range
import Mathlib.Data.Rat.Floor
import Mathlib.Tactic.FieldSimp
import Mathlib.Tactic.Linarith
import Mathlib.Tactic.Positivity
import Mathlib.Tactic.Ring

/-!
The numbers that decimals stand for.

Decimals with the same value differ in trailing zeros, and if the value is zero also in the sign and
in the exponent. None of the operations on decimals can tell them apart: the value of the result
depends on the values of the operands only.
-/
namespace Abacus

/-! ### Powers of ten -/

theorem ten_zpow_of_le {e e' : Int} (h : e' ≤ e) :
    (10 : ℚ) ^ e = ((10 ^ (e - e').toNat : Nat) : ℚ) * 10 ^ e' := by
  have hsplit : e = ((e - e').toNat : Int) + e' := by omega
  conv_lhs => rw [hsplit]
  rw [zpow_add₀ (by norm_num), zpow_natCast]
  push_cast
  rfl

theorem ten_zpow_pos (e : Int) : (0 : ℚ) < 10 ^ e := zpow_pos (by norm_num) e

namespace Decimal

/-- The sign of a decimal as a factor. -/
def sign (negative : Bool) : ℚ := if negative then -1 else 1

theorem sign_ne_zero (negative : Bool) : sign negative ≠ 0 := by
  unfold sign
  split <;> norm_num

/-- The number that a decimal stands for. -/
def value (x : Decimal) : ℚ := sign x.negative * ((x.coefficient : ℚ) * 10 ^ x.exponent)

theorem value_of_isZero {x : Decimal} (h : x.isZero = true) : x.value = 0 := by
  have hzero : x.coefficient = 0 := by simpa [isZero] using h
  simp [value, hzero]

theorem value_eq_zero_iff {x : Decimal} : x.value = 0 ↔ x.isZero = true := by
  refine ⟨fun h => ?_, value_of_isZero⟩
  have hten := (ten_zpow_pos x.exponent).ne'
  simpa [value, isZero, hten, sign_ne_zero] using h

@[simp]
theorem value_neg (x : Decimal) : x.neg.value = -x.value := by
  simp only [value, neg]
  cases x.negative <;> simp [sign]

@[simp]
theorem value_abs (x : Decimal) : x.abs.value = |x.value| := by
  have hpos : (0 : ℚ) ≤ (x.coefficient : ℚ) * 10 ^ x.exponent :=
    mul_nonneg (Nat.cast_nonneg _) (ten_zpow_pos _).le
  simp only [value, abs]
  cases x.negative <;> simp [sign, abs_of_nonneg hpos]

theorem abs_value (x : Decimal) : |x.value| = x.coefficient * 10 ^ x.exponent := by
  rw [← value_abs]
  exact one_mul _

theorem value_neg_iff {x : Decimal} (h : x.isZero = false) : x.value < 0 ↔ x.negative = true := by
  have hne : x.coefficient ≠ 0 := by simpa [isZero] using h
  have hpos : (0 : ℚ) < (x.coefficient : ℚ) * 10 ^ x.exponent :=
    mul_pos (by exact_mod_cast Nat.pos_of_ne_zero hne) (ten_zpow_pos _)
  unfold value
  cases x.negative with
  | true => simpa [sign] using hpos
  | false => simpa [sign] using hpos.le

/-! ### Trailing zeros -/

/-- The same value written with `k` trailing zeros more. -/
def pad (k : Nat) (x : Decimal) : Decimal := ⟨x.negative, x.coefficient * 10 ^ k, x.exponent - k⟩

theorem value_pad (k : Nat) (x : Decimal) : (x.pad k).value = x.value := by
  have hten := ten_zpow_of_le (show x.exponent - k ≤ x.exponent by omega)
  rw [show (x.exponent - (x.exponent - k)).toNat = k by omega] at hten
  simp only [value, pad, hten, Nat.cast_mul, mul_assoc]

theorem adjusted_pad (k : Nat) {x : Decimal} (hx : x.isZero = false) :
    (x.pad k).adjusted = x.adjusted := by
  have hcount := digitCount_mul_pow (show x.coefficient ≠ 0 by simpa [isZero] using hx) k
  simp only [adjusted, pad, hcount]
  omega

theorem isZero_pad (k : Nat) (x : Decimal) : (x.pad k).isZero = x.isZero := by
  simp [pad, isZero]

theorem isZero_eq {x y : Decimal} (h : x.value = y.value) : x.isZero = y.isZero := by
  rw [Bool.eq_iff_iff, ← value_eq_zero_iff, ← value_eq_zero_iff, h]

theorem negative_eq {x y : Decimal} (h : x.value = y.value) (hx : x.isZero = false) :
    x.negative = y.negative := by
  rw [Bool.eq_iff_iff, ← value_neg_iff hx, ← value_neg_iff (isZero_eq h ▸ hx), h]

theorem eq_pad_of_le {x y : Decimal} (h : x.value = y.value) (hx : x.isZero = false)
    (hle : y.exponent ≤ x.exponent) : y = x.pad (x.exponent - y.exponent).toNat := by
  have hsign := negative_eq h hx
  have hten := ten_zpow_of_le hle
  have hcancel : (x.coefficient : ℚ) * ((10 ^ (x.exponent - y.exponent).toNat : Nat) : ℚ)
      = y.coefficient := by
    rw [value, value, hsign] at h
    have hscaled := mul_left_cancel₀ (sign_ne_zero _) h
    rw [hten, ← mul_assoc] at hscaled
    exact mul_right_cancel₀ (ten_zpow_pos y.exponent).ne' hscaled
  have hcoefficient : x.coefficient * 10 ^ (x.exponent - y.exponent).toNat = y.coefficient := by
    exact_mod_cast hcancel
  have hexponent : x.exponent - ((x.exponent - y.exponent).toNat : Int) = y.exponent := by omega
  rw [pad, hsign, hcoefficient, hexponent]

/-- Of two decimals with the same value other than zero one is the other with some zeros more. -/
theorem exists_pad {x y : Decimal} (h : x.value = y.value) (hx : x.isZero = false) :
    ∃ k, y = x.pad k ∨ x = y.pad k := by
  rcases Int.le_total y.exponent x.exponent with hle | hle
  · exact ⟨_, .inl (eq_pad_of_le h hx hle)⟩
  · exact ⟨_, .inr (eq_pad_of_le h.symm (isZero_eq h ▸ hx) hle)⟩

/-- What cannot tell zeros apart, and does not see trailing zeros, depends on the value only. -/
theorem congr_of_pad {α : Type} (g : Decimal → α)
    (hzero : ∀ x y, x.isZero = true → y.isZero = true → g x = g y)
    (hpad : ∀ k x, x.isZero = false → g (x.pad k) = g x) {x y : Decimal} (h : x.value = y.value) :
    g x = g y := by
  cases hx : x.isZero with
  | true => exact hzero x y hx (isZero_eq h ▸ hx)
  | false =>
    obtain ⟨k, rfl | rfl⟩ := exists_pad h hx
    · exact (hpad k x hx).symm
    · exact hpad k y (isZero_eq h ▸ hx)

/-! ### Shortest representations -/

theorem value_strip (limit : Nat) (x : Decimal) : (x.strip limit).value = x.value := by
  induction limit generalizing x with
  | zero => rfl
  | succ limit ih =>
    unfold strip
    split
    · next h =>
      rw [ih]
      have hx : x = pad 1 ⟨x.negative, x.coefficient / 10, x.exponent + 1⟩ := by
        have hcoefficient : x.coefficient / 10 * 10 ^ 1 = x.coefficient := by omega
        have hexponent : x.exponent + 1 - ((1 : Nat) : Int) = x.exponent := by omega
        rw [pad, hcoefficient, hexponent]
      conv_rhs => rw [hx]
      exact (value_pad _ _).symm
    · rfl

@[simp]
theorem value_reduce (x : Decimal) : x.reduce.value = x.value := by
  unfold reduce
  split
  · next h =>
    rw [value_of_isZero h]
    exact value_of_isZero rfl
  · exact value_strip _ x

/-- All trailing zeros are removed if the limit allows for as many as there are digits. -/
theorem strip_mod_ten {limit : Nat} {x : Decimal} (hx : x.coefficient ≠ 0)
    (hlimit : digitCount x.coefficient ≤ limit) : (x.strip limit).coefficient % 10 ≠ 0 := by
  induction limit generalizing x with
  | zero =>
    have := digitCount_pos x.coefficient
    omega
  | succ limit ih =>
    unfold strip
    split
    · next h =>
      have hcount : digitCount x.coefficient = digitCount (x.coefficient / 10) + 1 := by
        rw [digitCount, if_neg (by omega)]
      exact ih (by simp only; omega) (by simp only; omega)
    · next h => omega

/-- There is one shortest representation of a value. -/
theorem reduce_eq {x y : Decimal} (h : x.value = y.value) : x.reduce = y.reduce := by
  cases hx : x.isZero with
  | true => simp [reduce, hx, ← isZero_eq h]
  | false =>
    have hy : y.isZero = false := isZero_eq h ▸ hx
    have hshort : ∀ z : Decimal, z.isZero = false → z.reduce.coefficient % 10 ≠ 0 := by
      intro z hz
      rw [reduce, if_neg (by simp [hz])]
      exact strip_mod_ten (by simpa [isZero] using hz) (Nat.le_refl _)
    have hvalue : x.reduce.value = y.reduce.value := by rw [value_reduce, value_reduce, h]
    have hzero : x.reduce.isZero = false := by rw [isZero_eq (value_reduce x), hx]
    have hpadded : ∀ (k : Nat) (z : Decimal), (z.pad k).coefficient % 10 ≠ 0 → z.pad k = z := by
      intro k z hz
      cases k with
      | zero => simp [pad]
      | succ k =>
        simp only [pad, Nat.pow_succ, ← Nat.mul_assoc, Nat.mul_mod_left] at hz
        exact absurd rfl hz
    obtain ⟨k, hk | hk⟩ := exists_pad hvalue hzero
    · rw [hk, hpadded k _ (hk ▸ hshort y hy)]
    · rw [hk, hpadded k _ (hk ▸ hshort x hx)]

/-! ### Order -/

theorem value_alignedTo {x : Decimal} {e : Int} (h : e ≤ x.exponent) :
    |x.value| = (x.alignedTo e : ℚ) * 10 ^ e := by
  rw [abs_value, alignedTo, Nat.cast_mul, mul_assoc, ← ten_zpow_of_le h]

theorem value_signedAt {x : Decimal} {e : Int} (h : e ≤ x.exponent) :
    x.value = (x.signedAt e : ℚ) * 10 ^ e := by
  have hscaled : (x.coefficient : ℚ) * 10 ^ x.exponent = (x.alignedTo e : ℚ) * 10 ^ e := by
    rw [alignedTo, Nat.cast_mul, mul_assoc, ← ten_zpow_of_le h]
  rw [value, hscaled, signedAt]
  cases x.negative <;> simp [sign]

theorem lt_eq (x y : Decimal) : x.lt y = decide (x.value < y.value) := by
  rw [lt, value_signedAt (Int.min_le_left x.exponent y.exponent),
    value_signedAt (Int.min_le_right x.exponent y.exponent), decide_eq_decide,
    mul_lt_mul_iff_left₀ (ten_zpow_pos _), Int.cast_lt]

theorem eqv_eq (x y : Decimal) : x.eqv y = decide (x.value = y.value) := by
  rw [eqv, value_signedAt (Int.min_le_left x.exponent y.exponent),
    value_signedAt (Int.min_le_right x.exponent y.exponent), decide_eq_decide,
    mul_left_inj' (ten_zpow_pos _).ne', Int.cast_inj]

section Comparisons

variable {x x' y y' : Decimal}

theorem lt_congr (hx : x.value = x'.value) (hy : y.value = y'.value) : x.lt y = x'.lt y' := by
  rw [lt_eq, lt_eq, hx, hy]

theorem le_congr (hx : x.value = x'.value) (hy : y.value = y'.value) : x.le y = x'.le y' := by
  rw [le, le, lt_congr hy hx]

theorem eqv_congr (hx : x.value = x'.value) (hy : y.value = y'.value) : x.eqv y = x'.eqv y' := by
  rw [eqv_eq, eqv_eq, hx, hy]

end Comparisons

end Decimal

/-! ### Rounding -/

theorem roundDiv_mul_right (n d : Nat) {m : Nat} (hm : 0 < m) :
    roundDiv (n * m) (d * m) = roundDiv n d := by
  have hlt : 2 * (n % d * m) < d * m ↔ 2 * (n % d) < d := by
    rw [← Nat.mul_assoc, Nat.mul_lt_mul_right hm]
  have hgt : d * m < 2 * (n % d * m) ↔ d < 2 * (n % d) := by
    rw [← Nat.mul_assoc, Nat.mul_lt_mul_right hm]
  simp only [roundDiv, Nat.mul_div_mul_right _ _ hm, Nat.mul_mod_mul_right, hlt, hgt]

theorem roundDiv_of_dvd (q : Nat) {d : Nat} (hd : 0 < d) : roundDiv (q * d) d = q := by
  have h := roundDiv_mul_right q 1 hd
  rw [Nat.one_mul] at h
  rw [h]
  simp [roundDiv, Nat.mod_one]

namespace Format

open Decimal (value pad)

/-- A common factor of numerator and denominator does not matter. -/
theorem settle_mul_right (f : Format) (negative : Bool) (n d : Nat) (e : Int) {m : Nat}
    (hm : 0 < m) : f.settle negative (n * m) (d * m) e = f.settle negative n d e := by
  have hzero : n * m = 0 ↔ n = 0 := by simp [hm.ne']
  have hround : ∀ k, roundDiv (n * m) (d * m * 10 ^ k) = roundDiv n (d * 10 ^ k) := by
    intro k
    rw [Nat.mul_right_comm, roundDiv_mul_right _ _ hm]
  simp only [settle, hzero, Nat.mul_div_mul_right _ _ hm, hround]

/-- Digits that a decimal has too many for the format. -/
def excess (f : Format) (x : Decimal) : Int :=
  max (digitCount x.coefficient - f.digits) (f.tiny - x.exponent)

/-- A decimal other than zero without its excess digits, however large it is. -/
def rounded (f : Format) (x : Decimal) : Decimal :=
  if f.excess x ≤ 0 then x
  else
    f.carry ⟨x.negative, roundDiv x.coefficient (10 ^ (f.excess x).toNat), x.exponent + f.excess x⟩

theorem round_eq (f : Format) {x : Decimal} (hx : x.isZero = false) :
    f.round x
      = if f.maxExponent < (f.rounded x).adjusted then none else some (f.rounded x) := by
  have hne : x.coefficient ≠ 0 := by simpa [Decimal.isZero] using hx
  simp only [round, settle, hne, if_false, Nat.div_one, Nat.one_mul]
  rfl

theorem excess_pad (f : Format) (k : Nat) {x : Decimal} (hx : x.isZero = false) :
    f.excess (x.pad k) = f.excess x + k := by
  have hcount := digitCount_mul_pow (show x.coefficient ≠ 0 by simpa [Decimal.isZero] using hx) k
  simp only [excess, pad, hcount]
  omega

theorem rounded_pad (f : Format) (k : Nat) {x : Decimal} (hx : x.isZero = false) :
    ∃ j, f.rounded (x.pad k) = (f.rounded x).pad j ∧ (j = 0 ∨ (f.rounded x).isZero = false) := by
  have hexcess := f.excess_pad k hx
  by_cases hnone : f.excess (x.pad k) ≤ 0
  · refine ⟨k, ?_, .inr ?_⟩
    · rw [rounded, rounded, if_pos hnone, if_pos (by omega)]
    · rw [rounded, if_pos (by omega), hx]
  by_cases hsome : f.excess x ≤ 0
  · -- the zeros are digits too many, but `x` itself has none: some of them are dropped again
    have hpow : x.coefficient * 10 ^ k
        = x.coefficient * 10 ^ (-f.excess x).toNat * 10 ^ (f.excess x + k).toNat := by
      rw [Nat.mul_assoc, ← Nat.pow_add]
      congr 2
      omega
    have hexponent : x.exponent - k + (f.excess x + k) = x.exponent - ((-f.excess x).toNat : Int) :=
      by omega
    have hfits : ¬f.digits < digitCount (x.pad (-f.excess x).toNat).coefficient := by
      have hcount := digitCount_mul_pow
        (show x.coefficient ≠ 0 by simpa [Decimal.isZero] using hx) (-f.excess x).toNat
      have hle : (digitCount x.coefficient - f.digits : Int) ≤ f.excess x := Int.le_max_left ..
      simp only [pad, hcount]
      omega
    refine ⟨(-f.excess x).toNat, ?_, .inr ?_⟩
    · rw [rounded, rounded, if_neg hnone, if_pos hsome, hexcess]
      simp only [pad, hpow, roundDiv_of_dvd _ (Nat.pow_pos (show 0 < 10 by decide)), hexponent]
      exact if_neg hfits
    · rw [rounded, if_pos hsome, hx]
  · have hpow : 10 ^ (f.excess x + k).toNat = 10 ^ (f.excess x).toNat * 10 ^ k := by
      rw [← Nat.pow_add]
      congr 1
      omega
    have hexponent : x.exponent - k + (f.excess x + k) = x.exponent + f.excess x := by omega
    refine ⟨0, ?_, .inl rfl⟩
    rw [rounded, rounded, if_neg hnone, if_neg hsome, hexcess]
    simp only [pad, hpow, roundDiv_mul_right _ _ (Nat.pow_pos (show 0 < 10 by decide)), hexponent]
    simp

theorem round_pad (f : Format) (k : Nat) {x : Decimal} (hx : x.isZero = false) :
    (f.round (x.pad k)).map value = (f.round x).map value := by
  obtain ⟨j, hrounded, hj⟩ := f.rounded_pad k hx
  have hadjusted : ((f.rounded x).pad j).adjusted = (f.rounded x).adjusted := by
    rcases hj with rfl | hj
    · simp [pad]
    · exact Decimal.adjusted_pad j hj
  rw [f.round_eq ((Decimal.isZero_pad k x).trans hx), f.round_eq hx, hrounded, hadjusted]
  split
  · rfl
  · simp [Decimal.value_pad]

/-- The value that is rounded decides on the value that it is rounded to. -/
theorem round_congr (f : Format) {x y : Decimal} (h : x.value = y.value) :
    (f.round x).map value = (f.round y).map value := by
  refine Decimal.congr_of_pad (fun x => (f.round x).map value) ?_ (fun k x => f.round_pad k) h
  intro x y hx hy
  have hzero : ∀ z : Decimal, z.isZero = true → (f.round z).map value = some 0 := by
    intro z hz
    have hcoefficient : z.coefficient = 0 := by simpa [Decimal.isZero] using hz
    simp [round, settle, hcoefficient, value]
  rw [hzero x hx, hzero y hy]

end Format

/-! ### Arithmetic -/

namespace Decimal

/-- A decimal with the sign of an integer, however a zero is signed. -/
theorem value_ofSigned (s : Int) (b : Bool) (e : Int) :
    value ⟨if s = 0 then b else decide (s < 0), s.natAbs, e⟩ = s * 10 ^ e := by
  by_cases hs : s = 0
  · simp [value, hs]
  · rw [value, if_neg hs]
    by_cases hneg : s < 0
    · have hcast : ((s.natAbs : Nat) : ℚ) = -s := by
        rw [Nat.cast_natAbs, abs_of_neg hneg, Int.cast_neg]
      simp [sign, hneg, hcast]
    · have hcast : ((s.natAbs : Nat) : ℚ) = s := by
        rw [Nat.cast_natAbs, abs_of_nonneg (Int.not_lt.mp hneg)]
      simp [sign, hneg, hcast]

/-- The exact sum. -/
def exactSum (x y : Decimal) : Decimal :=
  let e := min x.exponent y.exponent
  let s := x.signedAt e + y.signedAt e
  ⟨if s = 0 then x.negative && y.negative else decide (s < 0), s.natAbs, e⟩

theorem value_exactSum (x y : Decimal) : (x.exactSum y).value = x.value + y.value := by
  rw [exactSum, value_ofSigned, Int.cast_add, add_mul,
    ← value_signedAt (Int.min_le_left x.exponent y.exponent),
    ← value_signedAt (Int.min_le_right x.exponent y.exponent)]

/-- The exact product. -/
def exactProduct (x y : Decimal) : Decimal :=
  ⟨x.negative != y.negative, x.coefficient * y.coefficient, x.exponent + y.exponent⟩

theorem value_exactProduct (x y : Decimal) : (x.exactProduct y).value = x.value * y.value := by
  have hsign : sign (x.negative != y.negative) = sign x.negative * sign y.negative := by
    cases x.negative <;> cases y.negative <;> simp [sign]
  simp only [value, exactProduct, hsign, Nat.cast_mul]
  rw [zpow_add₀ (by norm_num)]
  ring

theorem wholeQuotient_eq (x y : Decimal) : x.wholeQuotient y = ⌊|x.value| / |y.value|⌋₊ := by
  rw [value_alignedTo (Int.min_le_left x.exponent y.exponent),
    value_alignedTo (Int.min_le_right x.exponent y.exponent),
    mul_div_mul_right _ _ (ten_zpow_pos _).ne', Rat.natFloor_natCast_div_natCast, wholeQuotient]

/-- What is left after whole multiples are taken away. -/
def exactRest (x y : Decimal) : Decimal :=
  let e := min x.exponent y.exponent
  ⟨x.negative, x.alignedTo e % y.alignedTo e, e⟩

theorem value_exactRest (x y : Decimal) :
    (x.exactRest y).value = sign x.negative * (|x.value| - |y.value| * x.wholeQuotient y) := by
  have hmod : ∀ a b : Nat, ((a % b : Nat) : ℚ) = a - b * (a / b : Nat) := by
    intro a b
    have hdivision : ((b * (a / b) + a % b : Nat) : ℚ) = a := by rw [Nat.div_add_mod]
    push_cast at hdivision
    linarith
  rw [value_alignedTo (Int.min_le_left x.exponent y.exponent),
    value_alignedTo (Int.min_le_right x.exponent y.exponent)]
  simp only [value, exactRest, wholeQuotient, hmod]
  ring

section Operations

variable (f : Format) {x x' y y' : Decimal}

theorem add_congr (hx : x.value = x'.value) (hy : y.value = y'.value) :
    (x.add f y).map value = (x'.add f y').map value := by
  have hsum : (x.exactSum y).value = (x'.exactSum y').value := by
    rw [value_exactSum, value_exactSum, hx, hy]
  exact f.round_congr hsum

theorem sub_congr (hx : x.value = x'.value) (hy : y.value = y'.value) :
    (x.sub f y).map value = (x'.sub f y').map value :=
  add_congr f hx (by rw [value_neg, value_neg, hy])

theorem mul_congr (hx : x.value = x'.value) (hy : y.value = y'.value) :
    (x.mul f y).map value = (x'.mul f y').map value := by
  have hproduct : (x.exactProduct y).value = (x'.exactProduct y').value := by
    rw [value_exactProduct, value_exactProduct, hx, hy]
  exact f.round_congr hproduct

theorem rem_congr (hx : x.value = x'.value) (hy : y.value = y'.value) :
    (x.rem f y).map value = (x'.rem f y').map value := by
  have hrest : (x.exactRest y).value = (x'.exactRest y').value := by
    rw [value_exactRest, value_exactRest, wholeQuotient_eq, wholeQuotient_eq, ← hy, ← hx]
    cases hzero : x.isZero with
    | true => simp [value_of_isZero hzero]
    | false => rw [negative_eq hx hzero]
  exact f.round_congr hrest

/-- The quotient `± (n / d) · 10 ^ e`, exact if it can be. -/
def quotient (f : Format) (negative : Bool) (n d : Nat) (e : Int) : Option Decimal :=
  if n % d = 0 then f.round ⟨negative, n / d, e⟩ else f.settle negative n d e

theorem quotient_mul_right (negative : Bool) (n d : Nat) (e : Int) {m : Nat} (hm : 0 < m) :
    quotient f negative (n * m) (d * m) e = quotient f negative n d e := by
  have hmod : n * m % (d * m) = 0 ↔ n % d = 0 := by
    rw [Nat.mul_mod_mul_right]
    simp [hm.ne']
  simp only [quotient, hmod, Nat.mul_div_mul_right _ _ hm, f.settle_mul_right _ _ _ _ hm]

/-- A dividend that is no longer than the format is only ever scaled up. -/
theorem div_map_value (y : Decimal) (hx : x.isZero = false)
    (hdigits : digitCount x.coefficient ≤ f.digits) :
    let shift := digitCount y.coefficient + (f.digits + 1 - digitCount x.coefficient)
    (x.div f y).map value = (quotient f (x.negative != y.negative) (x.coefficient * 10 ^ shift)
      y.coefficient (x.exponent - y.exponent - shift)).map value := by
  intro shift
  have hshift : (digitCount y.coefficient - digitCount x.coefficient + f.digits + 1 : Int)
      = shift := by omega
  have hnone : (-(shift : Int)).toNat = 0 := by omega
  simp only [div, hx, Bool.false_eq_true, if_false, hshift, Int.toNat_natCast, hnone, Nat.pow_zero,
    Nat.mul_one, quotient]
  split
  · exact f.round_congr (value_strip _ _)
  · rfl

theorem div_congr_left (y : Decimal) (hx : x.value = x'.value)
    (hdigits : digitCount x.coefficient ≤ f.digits)
    (hdigits' : digitCount x'.coefficient ≤ f.digits) :
    (x.div f y).map value = (x'.div f y).map value := by
  have hpad : ∀ (k : Nat) (x : Decimal), x.isZero = false →
      digitCount (x.pad k).coefficient ≤ f.digits →
      ((x.pad k).div f y).map value = (x.div f y).map value := by
    intro k x hx hdigits
    have hcount := digitCount_mul_pow (show x.coefficient ≠ 0 by simpa [isZero] using hx) k
    have hdigits : digitCount x.coefficient + k ≤ f.digits := by rwa [pad, hcount] at hdigits
    rw [div_map_value f y ((isZero_pad k x).trans hx) (by rwa [pad, hcount]),
      div_map_value f y hx (by omega)]
    simp only [pad, hcount]
    congr 2
    · rw [Nat.mul_assoc, ← Nat.pow_add]
      congr 2
      omega
    · omega
  cases hzero : x.isZero with
  | true =>
    have hzero' : x'.isZero = true := isZero_eq hx ▸ hzero
    simp [div, hzero, hzero', Format.settle, value]
  | false =>
    obtain ⟨k, rfl | rfl⟩ := exists_pad hx hzero
    · exact (hpad k x hzero hdigits').symm
    · exact hpad k x' (isZero_eq hx ▸ hzero) hdigits

theorem div_congr_right (hdigits : digitCount x.coefficient ≤ f.digits) (hy : y.value = y'.value)
    (hy₀ : y.isZero = false) : (x.div f y).map value = (x.div f y').map value := by
  have hpad : ∀ (k : Nat) (y : Decimal), y.isZero = false →
      (x.div f (y.pad k)).map value = (x.div f y).map value := by
    intro k y hy
    cases hzero : x.isZero with
    | true => simp [div, hzero, Format.settle, value]
    | false =>
      have hcount := digitCount_mul_pow (show y.coefficient ≠ 0 by simpa [isZero] using hy) k
      rw [div_map_value f _ hzero hdigits, div_map_value f y hzero hdigits]
      simp only [pad, hcount]
      rw [← quotient_mul_right f _ _ y.coefficient _ (Nat.pow_pos (show 0 < 10 by decide) (n := k))]
      congr 2
      · rw [Nat.mul_assoc, ← Nat.pow_add]
        congr 2
        omega
      · omega
  obtain ⟨k, rfl | rfl⟩ := exists_pad hy hy₀
  · exact (hpad k y hy₀).symm
  · exact hpad k y' (isZero_eq hy ▸ hy₀)

theorem div_congr (hx : x.value = x'.value) (hdigits : digitCount x.coefficient ≤ f.digits)
    (hdigits' : digitCount x'.coefficient ≤ f.digits) (hy : y.value = y'.value)
    (hy₀ : y.isZero = false) : (x.div f y).map value = (x'.div f y').map value :=
  (div_congr_left f y hx hdigits hdigits').trans (div_congr_right f hdigits' hy hy₀)

end Operations

/-! ### Decimal places -/

theorem quantize_of_le {places : Int} {x : Decimal} (h : -places ≤ x.exponent) :
    x.quantize places = ⟨x.negative, x.alignedTo (-places), -places⟩ := if_pos h

theorem quantize_of_lt {places : Int} {x : Decimal} (h : x.exponent < -places) :
    x.quantize places
      = ⟨x.negative, roundDiv x.coefficient (10 ^ (-places - x.exponent).toNat), -places⟩ :=
  if_neg (by omega)

theorem quantize_pad (places : Int) (k : Nat) (x : Decimal) :
    (x.pad k).quantize places = x.quantize places := by
  have hexponent : (x.pad k).exponent = x.exponent - k := rfl
  rcases Int.lt_or_le (x.pad k).exponent (-places) with hlt | hle
  · rw [quantize_of_lt hlt]
    rcases Int.lt_or_le x.exponent (-places) with hlt' | hle'
    · have hpow : 10 ^ (-places - (x.exponent - k)).toNat
          = 10 ^ (-places - x.exponent).toNat * 10 ^ k := by
        rw [← Nat.pow_add]
        congr 1
        omega
      rw [quantize_of_lt hlt']
      simp only [pad, hpow, roundDiv_mul_right _ _ (Nat.pow_pos (show 0 < 10 by decide))]
    · -- what is dropped are zeros that have been added
      have hpow : x.coefficient * 10 ^ k = x.coefficient * 10 ^ (x.exponent - -places).toNat
          * 10 ^ (-places - (x.exponent - k)).toNat := by
        rw [Nat.mul_assoc, ← Nat.pow_add]
        congr 2
        omega
      rw [quantize_of_le hle']
      simp only [pad, hpow, roundDiv_of_dvd _ (Nat.pow_pos (show 0 < 10 by decide)), alignedTo]
  · rw [quantize_of_le hle, quantize_of_le (by omega)]
    simp only [pad, alignedTo]
    rw [Nat.mul_assoc, ← Nat.pow_add]
    congr 3
    omega

theorem quantize_of_isZero (places : Int) {x : Decimal} (hx : x.isZero = true) :
    x.quantize places = ⟨x.negative, 0, -places⟩ := by
  have hcoefficient : x.coefficient = 0 := by simpa [isZero] using hx
  simp [quantize, alignedTo, hcoefficient, roundDiv]

theorem quantize_congr (places : Int) {x y : Decimal} (h : x.value = y.value) :
    (x.quantize places).value = (y.quantize places).value := by
  refine congr_of_pad (fun x => (x.quantize places).value) ?_ ?_ h
  · intro x y hx hy
    simp [quantize_of_isZero, hx, hy, value]
  · intro k x _
    simp only [quantize_pad]

theorem value_nearestInteger (x : Decimal) : x.nearestInteger.value = (x.quantize 0).value := by
  unfold nearestInteger quantize
  simp only [neg_zero]
  split
  · next h =>
    rw [value, value, alignedTo, Nat.cast_mul, mul_assoc, ← ten_zpow_of_le h]
  · simp

theorem nearestInteger_congr {x y : Decimal} (h : x.value = y.value) :
    x.nearestInteger.value = y.nearestInteger.value := by
  rw [value_nearestInteger, value_nearestInteger, quantize_congr 0 h]

/-- Decimals with the same value are shown by the same text. -/
theorem display?_congr (places : Int) {x y : Decimal} (h : x.value = y.value) :
    x.display? places = y.display? places := by
  refine congr_of_pad (fun x => x.display? places) ?_ ?_ h
  · intro x y hx hy
    simp only [display?, quantize_of_isZero places hx, quantize_of_isZero places hy, isZero]
    rfl
  · intro k x _
    simp only [display?, quantize_pad]

/-! ### Fractions -/

theorem abs_value_eq (x : Decimal) : |x.value| = (x.numerator : ℚ) / x.denominator := by
  have hpos : (0 : ℚ) < (x.denominator : ℚ) := by
    exact_mod_cast Nat.pow_pos (n := (-x.exponent).toNat) (show 0 < 10 by decide)
  rw [eq_div_iff hpos.ne', abs_value, numerator, denominator, Nat.cast_mul, mul_assoc]
  congr 1
  rcases Int.le_total 0 x.exponent with he | he
  · rw [ten_zpow_of_le he, show (-x.exponent).toNat = 0 by omega, Int.sub_zero]
    simp
  · have hten := ten_zpow_of_le he
    rw [Int.zero_sub, zpow_zero] at hten
    rw [show x.exponent.toNat = 0 by omega, mul_comm, ← hten]
    simp

theorem isIntegral_eq (x : Decimal) :
    x.isIntegral = decide ((⌊|x.value|⌋₊ : ℚ) = |x.value|) := by
  have hpos : 0 < x.denominator := Nat.pow_pos (by decide)
  have hne : (x.denominator : ℚ) ≠ 0 := by exact_mod_cast hpos.ne'
  rw [abs_value_eq, Rat.natFloor_natCast_div_natCast, isIntegral, beq_eq_decide, decide_eq_decide,
    eq_div_iff hne]
  have hdivision := Nat.div_add_mod' x.numerator x.denominator
  norm_cast
  omega

theorem isIntegral_congr {x y : Decimal} (h : x.value = y.value) :
    x.isIntegral = y.isIntegral := by
  rw [isIntegral_eq, isIntegral_eq, h]

end Decimal

end Abacus
