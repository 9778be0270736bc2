import Abacus.Proofs.Decimal.Value
import Abacus.Proofs.Script.Lexemes
import Mathlib.Algebra.Group.Int.Even

/-!
The plain form of decimals, and the way back.

A decimal is shown by the number of the wanted decimal places that is nearest to it. The text has a
sign, digits and a point, and the digits stand for exactly that number. It is a number of the
calculator again, also when the text is longer than any coefficient, when the leading digit has been
carried, and below the least normal number: reading the digits and turning the sign around do not
round.
-/
namespace Abacus

/-! ### Nearest numbers -/

/-- No integer is nearer to `v` than `n`, and `n` is even if another one is as near. -/
structure NearestEven (v : ℚ) (n : ℤ) : Prop where
  near : |v - n| ≤ 1 / 2
  even : |v - n| = 1 / 2 → Even n

/-- `w` is `v` rounded to a number of decimal places, ties to even. -/
def RoundsTo (places : Nat) (v w : ℚ) : Prop :=
  ∃ n : ℤ, w = n / 10 ^ places ∧ NearestEven (v * 10 ^ places) n

theorem nearestEven_intCast (n : ℤ) : NearestEven n n := by
  refine ⟨by simp, fun h => ?_⟩
  norm_num at h

theorem NearestEven.neg {v : ℚ} {n : ℤ} (h : NearestEven v n) : NearestEven (-v) (-n) := by
  have habs : |-v - ((-n : ℤ) : ℚ)| = |v - n| := by
    rw [← abs_neg]
    push_cast
    congr 1
    ring
  exact ⟨habs ▸ h.near, fun htie => (h.even (habs ▸ htie)).neg⟩

theorem NearestEven.signed {v : ℚ} {n : ℤ} (h : NearestEven v n) (negative : Bool) :
    NearestEven (Decimal.sign negative * v) (if negative then -n else n) := by
  cases negative with
  | true => simpa [Decimal.sign] using h.neg
  | false => simpa [Decimal.sign] using h

/-- Rounding goes up or down, whichever is less far. -/
theorem roundDiv_cases (n : Nat) {d : Nat} (hd : 0 < d) :
    (roundDiv n d = n / d ∧ (2 * (n % d) < d ∨ 2 * (n % d) = d ∧ Even (roundDiv n d))) ∨
      (roundDiv n d = n / d + 1 ∧ (d < 2 * (n % d) ∨ 2 * (n % d) = d ∧ Even (roundDiv n d))) := by
  have hlt := Nat.mod_lt n hd
  rw [Nat.even_iff]
  unfold roundDiv
  simp only
  split
  · omega
  split
  · omega
  · omega

theorem natCast_div_eq (n : Nat) {d : Nat} (hd : 0 < d) :
    (n : ℚ) / d = (n / d : Nat) + ((n % d : Nat) : ℚ) / d := by
  have hne : (d : ℚ) ≠ 0 := by exact_mod_cast hd.ne'
  have hdivision : (n : ℚ) = d * (n / d : Nat) + (n % d : Nat) := by
    exact_mod_cast (Nat.div_add_mod n d).symm
  rw [hdivision]
  field_simp

theorem roundDiv_nearestEven (n : Nat) {d : Nat} (hd : 0 < d) :
    NearestEven ((n : ℚ) / d) (roundDiv n d : Nat) := by
  have hpos : (0 : ℚ) < d := by exact_mod_cast hd
  have hsplit := natCast_div_eq n hd
  have hle : ((n % d : Nat) : ℚ) / d ≤ 1 := by
    rw [div_le_one hpos]
    exact_mod_cast (Nat.mod_lt n hd).le
  have hnonneg : (0 : ℚ) ≤ ((n % d : Nat) : ℚ) / d := by positivity
  have hhalf : ((n % d : Nat) : ℚ) / d < 1 / 2 ↔ 2 * (n % d) < d := by
    rw [div_lt_div_iff₀ hpos (by norm_num), one_mul, mul_comm]
    exact_mod_cast Iff.rfl
  have hhalf' : 1 / 2 < ((n % d : Nat) : ℚ) / d ↔ d < 2 * (n % d) := by
    rw [div_lt_div_iff₀ (by norm_num) hpos, one_mul, mul_comm]
    exact_mod_cast Iff.rfl
  rcases roundDiv_cases n hd with ⟨hround, hdown⟩ | ⟨hround, hup⟩
  · have hdistance : |(n : ℚ) / d - ((roundDiv n d : Nat) : ℤ)| = ((n % d : Nat) : ℚ) / d := by
      rw [hsplit, hround, Int.cast_natCast, add_sub_cancel_left, abs_of_nonneg hnonneg]
    refine ⟨?_, fun htie => ?_⟩
    · rw [hdistance, ← not_lt, hhalf']
      omega
    · rw [hdistance] at htie
      rcases hdown with hlt | ⟨-, heven⟩
      · exact absurd htie (hhalf.mpr hlt).ne
      · exact_mod_cast heven
  · have hdistance : |(n : ℚ) / d - ((roundDiv n d : Nat) : ℤ)| = 1 - ((n % d : Nat) : ℚ) / d := by
      rw [hsplit, hround, Int.cast_natCast, Nat.cast_succ, add_sub_add_left_eq_sub, abs_sub_comm,
        abs_of_nonneg (by linarith)]
    refine ⟨?_, fun htie => ?_⟩
    · have hge : ¬((n % d : Nat) : ℚ) / d < 1 / 2 := by
        rw [hhalf]
        omega
      rw [hdistance]
      linarith
    · rw [hdistance] at htie
      rcases hup with hlt | ⟨-, heven⟩
      · have := hhalf'.mpr hlt
        linarith
      · exact_mod_cast heven

/-! ### Rounding what fits -/

namespace Format

open Decimal (value)

theorem Fits.neg {f : Format} {x : Decimal} (h : f.Fits x) : f.Fits x.neg :=
  ⟨h.digits, h.least, h.greatest⟩

theorem round_of_fits {f : Format} {x : Decimal} (h : f.Fits x) :
    (f.round x).map value = some x.value := by
  cases hx : x.isZero with
  | true =>
    have hcoefficient : x.coefficient = 0 := by simpa [Decimal.isZero] using hx
    simp [round, settle, hcoefficient, value]
  | false =>
    have hdigits := h.digits
    have hleast := h.least
    have hexcess : f.excess x ≤ 0 := by
      unfold excess
      omega
    have hrounded : f.rounded x = x := if_pos hexcess
    rw [f.round_eq hx, hrounded, if_neg (Int.not_lt.mpr h.greatest)]
    rfl

/-- A value that fits is not changed by rounding, however it is written. -/
theorem round_exact {f : Format} {x w : Decimal} (hw : f.Fits w) (h : x.value = w.value) :
    ∃ y, f.round x = some y ∧ y.value = w.value := by
  have hround := (f.round_congr h).trans (round_of_fits hw)
  simpa using hround

end Format

namespace Numeric

open Format (calculator)

theorem literal_exact {whole fraction : List Char} {w : Decimal} (hw : calculator.Fits w)
    (h : (Decimal.ofDigits whole fraction).value = w.value) :
    ∃ y, literal whole fraction = .ok y ∧ y.value = w.value := by
  obtain ⟨y, hround, hy⟩ := Format.round_exact hw h
  exact ⟨y, by rw [literal, hround, check], hy⟩

theorem negate_exact {x w : Decimal} (hw : calculator.Fits w) (h : x.value = w.value) :
    ∃ y, negate x = .ok y ∧ y.value = -w.value := by
  have hproduct : (x.exactProduct .minusOne).value = w.neg.value := by
    rw [Decimal.value_exactProduct, Decimal.value_neg, h]
    simp [Decimal.value, Decimal.minusOne, Decimal.sign]
  obtain ⟨y, hround, hy⟩ := Format.round_exact hw.neg hproduct
  refine ⟨y, ?_, hy.trans (Decimal.value_neg w)⟩
  rw [negate, multiply, show x.mul calculator .minusOne = some y from hround, check]

theorem signed_exact {x w : Decimal} (hw : calculator.Fits w) (h : x.value = w.value)
    (negative : Bool) :
    ∃ y, (if negative then negate x else .ok x) = .ok y ∧
      y.value = Decimal.sign negative * w.value := by
  cases negative with
  | true =>
    obtain ⟨y, hnegate, hy⟩ := negate_exact hw h
    exact ⟨y, hnegate, by rw [hy, Decimal.sign, if_pos rfl, neg_one_mul]⟩
  | false => exact ⟨x, rfl, by rw [h, Decimal.sign, if_neg (by decide), one_mul]⟩

end Numeric

namespace Decimal

open Format (calculator)

theorem value_eq_sign_mul (x : Decimal) : x.value = sign x.negative * |x.value| := by
  rw [abs_value, value]

/-! ### Decimal places -/

theorem exponent_quantize (places : Int) (x : Decimal) :
    (x.quantize places).exponent = -places := by
  unfold quantize
  simp only
  split <;> rfl

@[simp]
theorem quantize_quantize (places : Int) (x : Decimal) :
    (x.quantize places).quantize places = x.quantize places := by
  have hexponent := exponent_quantize places x
  rw [quantize_of_le hexponent.ge, alignedTo, hexponent, Int.sub_self, Int.toNat_zero, Nat.pow_zero,
    Nat.mul_one, ← hexponent]

theorem value_quantize_of_le {places : Int} {x : Decimal} (h : -places ≤ x.exponent) :
    (x.quantize places).value = x.value := by
  rw [quantize_of_le h, value, value, alignedTo, Nat.cast_mul, mul_assoc, ← ten_zpow_of_le h]

theorem quantize_roundsTo (places : Nat) (x : Decimal) :
    RoundsTo places x.value (x.quantize places).value := by
  have hten : (10 : ℚ) ^ (-(places : Int)) * 10 ^ places = 1 := by
    rw [zpow_neg, zpow_natCast, inv_mul_cancel₀ (by positivity)]
  rcases Int.lt_or_le x.exponent (-places) with hlt | hle
  · have hscale : x.value * 10 ^ places
        = sign x.negative
          * ((x.coefficient : ℚ) / (10 ^ (-(places : Int) - x.exponent).toNat : Nat)) := by
      rw [value, mul_assoc, mul_assoc, div_eq_mul_inv]
      congr 2
      refine eq_inv_of_mul_eq_one_left ?_
      rw [← hten, ten_zpow_of_le hlt.le]
      ring
    have hcast : ∀ n : Nat, ((if x.negative then -(n : ℤ) else n : ℤ) : ℚ)
        = sign x.negative * n := by
      intro n
      cases x.negative <;> simp [sign]
    refine ⟨_, ?_, hscale ▸ (roundDiv_nearestEven x.coefficient (Nat.pow_pos (by decide))).signed
      x.negative⟩
    rw [quantize_of_lt hlt, value, hcast, zpow_neg, zpow_natCast, ← div_eq_mul_inv, mul_div_assoc]
  · -- nothing is dropped
    refine ⟨x.signedAt (-places), ?_, ?_⟩
    · rw [value_quantize_of_le hle, value_signedAt hle, zpow_neg, zpow_natCast, div_eq_mul_inv]
    · rw [value_signedAt hle, mul_assoc, hten, mul_one]
      exact nearestEven_intCast _

/-- What a number of the calculator is rounded to is a number of the calculator. -/
theorem exists_fits_quantize {x : Decimal} (h : calculator.Fits x) (places : Nat) :
    ∃ w, calculator.Fits w ∧ w.value = (x.quantize places).value := by
  rcases Int.lt_or_le x.exponent (-places) with hlt | hle
  · have hdigits : digitCount x.coefficient ≤ 28 := h.digits
    have hleast : -55 ≤ x.exponent := h.least
    have hround : roundDiv x.coefficient (10 ^ (-(places : Int) - x.exponent).toNat)
        ≤ 10 ^ (27 : Nat) := by
      rw [← Nat.one_mul (10 ^ (-(places : Int) - x.exponent).toNat)]
      exact roundDiv_le_pow (by rw [Nat.div_one]; omega)
    have hcoefficient := Nat.lt_of_le_of_lt hround (show 10 ^ 27 < 10 ^ 28 by decide)
    have hcount := (digitCount_le_iff (show 0 < 28 by decide)).mpr hcoefficient
    refine ⟨_, Format.calculator_fits_iff.mpr ?_, rfl⟩
    rw [quantize_of_lt hlt]
    refine ⟨hcoefficient, by simp only; omega, ?_⟩
    simp only [adjusted]
    omega
  · exact ⟨x, h, (value_quantize_of_le hle).symm⟩

/-! ### Digits -/

theorem natOfDigits_concat (ds : List Char) (c : Char) :
    natOfDigits (ds ++ [c]) = 10 * natOfDigits ds + (c.toNat - '0'.toNat) := by
  rw [natOfDigits, List.foldl_append]
  rfl

theorem natOfDigits_zeros (k : Nat) (ds : List Char) :
    natOfDigits (List.replicate k '0' ++ ds) = natOfDigits ds := by
  induction k with
  | zero => rfl
  | succ k ih => exact ih

theorem digitChar_spec :
    ∀ d < 10, d.digitChar.isDigit = true ∧ d.digitChar.toNat - '0'.toNat = d := by
  decide

/-- The digits of a number are read as that number. -/
theorem digitsOf_spec (n : Nat) :
    (∀ c ∈ digitsOf n, c.isDigit = true) ∧ natOfDigits (digitsOf n) = n := by
  induction n using Nat.strongRecOn with
  | ind n ih =>
    rw [digitsOf]
    split
    · next hn =>
      obtain ⟨hdigit, hvalue⟩ := digitChar_spec n hn
      refine ⟨by simpa using hdigit, ?_⟩
      rw [← List.nil_append [_], natOfDigits_concat, hvalue]
      exact Nat.zero_add n
    · next hn =>
      obtain ⟨hdigits, hvalue⟩ := ih (n / 10) (by omega)
      obtain ⟨hdigit, hlast⟩ := digitChar_spec (n % 10) (Nat.mod_lt n (by decide))
      refine ⟨fun c hc => ?_, ?_⟩
      · rcases List.mem_append.mp hc with hc | hc
        · exact hdigits c hc
        · rwa [List.mem_singleton.mp hc]
      · rw [natOfDigits_concat, hvalue, hlast, Nat.div_add_mod]

theorem padded_spec (width n : Nat) :
    (∀ c ∈ padded width n, c.isDigit = true) ∧ natOfDigits (padded width n) = n ∧
      width ≤ (padded width n).length := by
  obtain ⟨hdigits, hvalue⟩ := digitsOf_spec n
  refine ⟨fun c hc => ?_, (natOfDigits_zeros _ _).trans hvalue, ?_⟩
  · rcases List.mem_append.mp hc with hc | hc
    · rw [List.eq_of_mem_replicate hc]
      decide
    · exact hdigits c hc
  · simp only [padded, List.length_append, List.length_replicate]
    omega

/-- The text of a decimal is its sign before a numeral that stands for its magnitude. -/
theorem plainText_spec (x : Decimal) :
    ∃ whole fraction, x.plainText = String.ofList (signText x.negative ++ numeral whole fraction) ∧
      whole ≠ [] ∧ (∀ c ∈ whole ++ fraction, c.isDigit = true) ∧
      (ofDigits whole fraction).value = |x.value| := by
  by_cases he : 0 ≤ x.exponent
  · obtain ⟨hdigits, hvalue⟩ := digitsOf_spec (x.coefficient * 10 ^ x.exponent.toNat)
    refine ⟨_, [], ?_, ?_, by simpa using hdigits, ?_⟩
    · simp only [plainText, he, if_true, numeral, List.isEmpty_nil]
    · rw [← List.length_pos_iff, length_digitsOf]
      exact digitCount_pos _
    · rw [value_alignedTo he, ofDigits, List.append_nil, hvalue, alignedTo, Int.sub_zero]
      simp [value, sign]
  · obtain ⟨hdigits, hvalue, hlength⟩ := padded_spec (x.exponent.natAbs + 1) x.coefficient
    let ds := padded (x.exponent.natAbs + 1) x.coefficient
    let front := ds.length - x.exponent.natAbs
    have hlength : x.exponent.natAbs + 1 ≤ ds.length := hlength
    have hfraction : (ds.drop front).length = x.exponent.natAbs := by
      rw [List.length_drop]
      omega
    refine ⟨ds.take front, ds.drop front, ?_, ?_, ?_, ?_⟩
    · have hpoint : (ds.drop front).isEmpty = false := by
        rw [← Bool.not_eq_true, List.isEmpty_iff_length_eq_zero, hfraction]
        omega
      have hplaces : x.exponent.natAbs ≠ 0 := by omega
      simp only [plainText, he, if_false, pointed, hplaces, numeral, hpoint, Bool.false_eq_true]
      rfl
    · rw [← List.length_pos_iff, List.length_take]
      omega
    · rwa [List.take_append_drop]
    · have hexponent : -(x.exponent.natAbs : Int) = x.exponent := by omega
      rw [ofDigits, List.take_append_drop, hfraction, hexponent, ← value_abs, abs]
      exact congrArg (fun n => value ⟨false, n, x.exponent⟩) hvalue

/-- The text that a number of the calculator is shown by. -/
theorem display?_eq {x : Decimal} (h : calculator.Fits x) (places : Nat) :
    x.display? places = some (x.quantize places).reduce.plainText := by
  have hle := digitCount_quantize_le h places
  rw [display?, if_neg (Int.not_lt.mpr hle)]
  split
  · next hzero =>
    rw [reduce, if_pos hzero]
    decide +kernel
  · rfl

/-- What has been rounded is shown in the same way again. -/
theorem display?_of_rounded {x y : Decimal} {places : Int}
    (h : y.value = (x.quantize places).value) : y.display? places = x.display? places := by
  rw [display?_congr places h, display?, display?, quantize_quantize]

/-- The text of a number of the calculator is a numeral with a sign. What it is rounded to for the
text is what both are read as. -/
theorem display?_numeral {x : Decimal} (hx : calculator.Fits x) (places : Nat) :
    ∃ negative whole fraction y z,
      x.display? places = some (String.ofList (signText negative ++ numeral whole fraction)) ∧
      whole ≠ [] ∧ (∀ c ∈ whole ++ fraction, c.isDigit = true) ∧
      Numeric.literal whole fraction = .ok y ∧
      (if negative then Numeric.negate y else .ok y) = .ok z ∧
      z.value = (x.quantize places).value := by
  let r := (x.quantize places).reduce
  have hr : r.value = (x.quantize places).value := value_reduce _
  obtain ⟨w, hw, hvalue⟩ := exists_fits_quantize hx places
  obtain ⟨whole, fraction, htext, hwhole, hdigits, hmagnitude⟩ := r.plainText_spec
  have habs : |r.value| = w.abs.value := by rw [value_abs, hr, hvalue]
  obtain ⟨y, hliteral, hy⟩ := Numeric.literal_exact hw.abs (hmagnitude.trans habs)
  obtain ⟨z, hz, hzvalue⟩ := Numeric.signed_exact hw.abs hy r.negative
  rw [← habs, ← r.value_eq_sign_mul, hr] at hzvalue
  refine ⟨r.negative, whole, fraction, y, z, ?_, hwhole, hdigits, hliteral, hz, hzvalue⟩
  rw [display?_eq hx, htext]

end Decimal

end Abacus
