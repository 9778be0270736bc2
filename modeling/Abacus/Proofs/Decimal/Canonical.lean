import Abacus.Proofs.Decimal.Plain
import Abacus.Proofs.Numeric.Range
import Mathlib.Computability.RegularExpressions
import Mathlib.Tactic.IntervalCases

/-!
The canonical numerals by which numbers are shown.

A canonical numeral has no exponent, no leading zero but the one before the point, no trailing zero
behind the point and no point without a digit behind it; zero has no sign. The text that shows a
number of the calculator is the canonical numeral of the number rounded to the wanted decimal
places, so numbers are shown alike exactly if they are rounded to the same number.
-/
namespace Abacus

/-! ### There is one nearest number -/

/-- Two integers that are nearest to the same number would be neighbours, and only one of two
neighbours is even. -/
theorem NearestEven.unique {v : ℚ} {m n : ℤ} (hm : NearestEven v m) (hn : NearestEven v n) :
    m = n := by
  by_contra hne
  have hleast : (1 : ℚ) ≤ |(m : ℚ) - n| := by
    exact_mod_cast Int.one_le_abs (sub_ne_zero.mpr hne)
  have hgap : |(m : ℚ) - n| ≤ |v - m| + |v - n| := by
    rw [abs_sub_comm v m]
    exact abs_sub_le _ _ _
  obtain ⟨a, rfl⟩ := hm.even (by linarith [hm.near, hn.near])
  obtain ⟨b, rfl⟩ := hn.even (by linarith [hm.near, hn.near])
  have hclose : |(a + a) - (b + b)| ≤ 1 := by
    exact_mod_cast (show |((a + a : ℤ) : ℚ) - (b + b : ℤ)| ≤ 1 by linarith [hm.near, hn.near])
  have hbounds := abs_le.mp hclose
  omega

theorem RoundsTo.unique {places : Nat} {v w w' : ℚ} (h : RoundsTo places v w)
    (h' : RoundsTo places v w') : w = w' := by
  obtain ⟨n, rfl, hn⟩ := h
  obtain ⟨m, rfl, hm⟩ := h'
  rw [hn.unique hm]

/-! ### Numerals as texts -/

namespace Numeral

open Decimal (natOfDigits ofDigits signText)
open RegularExpression (char)

/-- One of some characters. -/
def anyOf (cs : List Char) : RegularExpression Char := cs.foldr (fun c r => char c + r) 0

def digit : RegularExpression Char := anyOf "0123456789".toList

def nonzero : RegularExpression Char := anyOf "123456789".toList

/-- `-?(0|[1-9][0-9]*)(\.[0-9]*[1-9])?` -/
def canonical : RegularExpression Char :=
  (1 + char '-') * (char '0' + nonzero * digit.star) * (1 + char '.' * (digit.star * nonzero))

/-- The digits behind the point. -/
def decimals (cs : List Char) : List Char := (cs.dropWhile (· ≠ '.')).tail

/-- The number that digits, with or without a point, stand for. -/
def magnitude (cs : List Char) : ℚ := natOfDigits (cs.filter (· ≠ '.')) / 10 ^ (decimals cs).length

/-- The number that a text of digits stands for, with or without a point and a minus sign. -/
def denoted (text : String) : ℚ :=
  match text.toList with
  | '-' :: cs => -magnitude cs
  | cs => magnitude cs

theorem mem_anyOf {cs : List Char} {c : Char} (h : c ∈ cs) : [c] ∈ (anyOf cs).matches' := by
  induction cs with
  | nil => simp at h
  | cons d cs ih =>
    rw [anyOf, List.foldr_cons, RegularExpression.matches'_add, Language.mem_add]
    rcases List.mem_cons.mp h with rfl | h
    · exact .inl rfl
    · exact .inr (ih h)

theorem mem_digits {c : Char} (h : c.isDigit = true) : c ∈ "0123456789".toList := by
  have hrange : 48 ≤ c.toNat ∧ c.toNat ≤ 57 := by
    simpa [Char.isDigit, UInt32.le_iff_toNat_le] using h
  rw [← Char.ofNat_toNat c]
  obtain ⟨hleast, hgreatest⟩ := hrange
  generalize c.toNat = n at hleast hgreatest ⊢
  interval_cases n <;> decide

theorem mem_digit {c : Char} (h : c.isDigit = true) : [c] ∈ digit.matches' :=
  mem_anyOf (mem_digits h)

theorem mem_nonzero {c : Char} (h : c.isDigit = true) (hne : c ≠ '0') : [c] ∈ nonzero.matches' := by
  refine mem_anyOf ?_
  have hc : c ∈ '0' :: "123456789".toList := mem_digits h
  exact (List.mem_cons.mp hc).resolve_left hne

theorem mem_star {ds : List Char} (h : ∀ c ∈ ds, c.isDigit = true) : ds ∈ digit.star.matches' := by
  rw [RegularExpression.matches'_star, Language.mem_kstar]
  refine ⟨ds.map ([·]), ?_, fun y hy => ?_⟩
  · rw [← List.flatMap_def, List.flatMap_singleton']
  · obtain ⟨c, hc, rfl⟩ := List.mem_map.mp hy
    exact mem_digit (h c hc)

/-- A sign before a whole part without leading zeros and a fraction without trailing ones. -/
theorem mem_canonical (negative : Bool) {whole fraction : List Char}
    (hwhole : whole = ['0'] ∨ ∃ c ds, whole = c :: ds ∧ c ≠ '0')
    (hfraction : fraction = [] ∨ ∃ ds c, fraction = ds ++ [c] ∧ c ≠ '0')
    (hdigits : ∀ c ∈ whole ++ fraction, c.isDigit = true) :
    signText negative ++ numeral whole fraction ∈ canonical.matches' := by
  have hsign : signText negative ∈ (1 + char '-').matches' := by
    cases negative with
    | false => exact .inl rfl
    | true => exact .inr rfl
  have hfront : whole ∈ (char '0' + nonzero * digit.star).matches' := by
    rcases hwhole with rfl | ⟨c, ds, rfl, hc⟩
    · exact .inl rfl
    · refine .inr (Language.mem_mul.mpr ⟨[c], mem_nonzero (hdigits c (by simp)) hc, ds, ?_, rfl⟩)
      exact mem_star fun d hd => hdigits d (by simp [hd])
  have hsigned : signText negative ++ whole
      ∈ ((1 + char '-') * (char '0' + nonzero * digit.star)).matches' :=
    Language.mem_mul.mpr ⟨_, hsign, _, hfront, rfl⟩
  rw [canonical, RegularExpression.matches'_mul]
  rcases hfraction with rfl | ⟨ds, c, rfl, hc⟩
  · refine Language.mem_mul.mpr ⟨_, hsigned, [], .inl rfl, ?_⟩
    simp [numeral]
  · have hback : '.' :: (ds ++ [c]) ∈ (1 + char '.' * (digit.star * nonzero)).matches' := by
      refine .inr (Language.mem_mul.mpr ⟨['.'], rfl, ds ++ [c], Language.mem_mul.mpr ?_, rfl⟩)
      exact ⟨ds, mem_star fun d hd => hdigits d (by simp [hd]), [c],
        mem_nonzero (hdigits c (by simp)) hc, rfl⟩
    refine Language.mem_mul.mpr ⟨_, hsigned, _, hback, ?_⟩
    simp [numeral]

theorem ne_of_isDigit {c d : Char} (hc : c.isDigit = true) (hd : d.isDigit = false) : c ≠ d := by
  rintro rfl
  simp [hc] at hd

theorem decimals_signText (negative : Bool) (cs : List Char) :
    decimals (signText negative ++ cs) = decimals cs := by
  cases negative with
  | false => rfl
  | true => rfl

section Value

variable {whole fraction : List Char} (h : ∀ c ∈ whole ++ fraction, c.isDigit = true)
include h

/-- The point separates the fraction from the rest. -/
theorem decimals_numeral : decimals (numeral whole fraction) = fraction := by
  have hwhole : ∀ c ∈ whole, decide (c ≠ '.') = true := fun c hc =>
    decide_eq_true (ne_of_isDigit (h c (by simp [hc])) (by decide))
  rw [decimals, numeral]
  split
  · next hnone =>
    rw [List.dropWhile_eq_nil_iff.mpr hwhole, List.isEmpty_iff.mp hnone, List.tail_nil]
  · rw [List.dropWhile_append_of_pos hwhole]
    simp

theorem magnitude_numeral :
    magnitude (numeral whole fraction) = (ofDigits whole fraction).value := by
  have hdigits : (numeral whole fraction).filter (· ≠ '.') = whole ++ fraction := by
    have hpoint : (whole ++ fraction).filter (· ≠ '.') = whole ++ fraction :=
      List.filter_eq_self.mpr fun c hc => decide_eq_true (ne_of_isDigit (h c hc) (by decide))
    rw [List.filter_append] at hpoint
    rw [numeral]
    split
    · next hnone => simpa [List.isEmpty_iff.mp hnone] using hpoint
    · rwa [List.filter_append, List.filter_cons_of_neg (by decide)]
  rw [magnitude, decimals_numeral h, hdigits, ofDigits, Decimal.value, zpow_neg, zpow_natCast,
    div_eq_mul_inv]
  exact (one_mul _).symm

/-- A numeral stands for what its digits are read as, and a sign before it for the opposite. -/
theorem denoted_numeral (hne : whole ≠ []) (negative : Bool) :
    denoted (String.ofList (signText negative ++ numeral whole fraction))
      = Decimal.sign negative * (ofDigits whole fraction).value := by
  have hmagnitude := magnitude_numeral h
  cases negative with
  | true =>
    rw [denoted, String.toList_ofList, ← hmagnitude]
    exact (neg_one_mul _).symm
  | false =>
    obtain ⟨c, ds, rfl⟩ := List.exists_cons_of_ne_nil hne
    obtain ⟨cs, hcs⟩ : ∃ cs, numeral (c :: ds) fraction = c :: cs := by
      unfold numeral
      split
      · exact ⟨ds, rfl⟩
      · exact ⟨ds ++ '.' :: fraction, rfl⟩
    have hc : c ≠ '-' := ne_of_isDigit (h c (by simp)) (by decide)
    rw [← hmagnitude, hcs, denoted, String.toList_ofList]
    simp [signText, Decimal.sign, hc]

end Value

end Numeral

namespace Decimal

open Format (calculator)
open Numeral

/-! ### Digits of numbers -/

theorem digitChar_ne_zero : ∀ d < 10, d ≠ 0 → d.digitChar ≠ '0' := by decide

/-- A number other than zero is written without a leading zero. -/
theorem digitsOf_head {n : Nat} (hn : n ≠ 0) : ∃ c ds, digitsOf n = c :: ds ∧ c ≠ '0' := by
  induction n using Nat.strongRecOn with
  | ind n ih =>
    rw [digitsOf]
    split
    · next hlt => exact ⟨_, [], rfl, digitChar_ne_zero n hlt hn⟩
    · next hge =>
      obtain ⟨c, ds, hds, hc⟩ := ih (n / 10) (by omega) (by omega)
      exact ⟨c, _, by rw [hds, List.cons_append], hc⟩

theorem digitsOf_whole (n : Nat) : digitsOf n = ['0'] ∨ ∃ c ds, digitsOf n = c :: ds ∧ c ≠ '0' := by
  by_cases hn : n = 0
  · subst hn
    exact .inl (by decide +kernel)
  · exact .inr (digitsOf_head hn)

theorem padded_one (n : Nat) : padded 1 n = digitsOf n := by
  have hpos := digitCount_pos n
  rw [padded, length_digitsOf, show 1 - digitCount n = 0 by omega, List.replicate_zero,
    List.nil_append]

/-- The last digit stands apart. -/
theorem padded_succ (width n : Nat) :
    padded (width + 2) n = padded (width + 1) (n / 10) ++ [(n % 10).digitChar] := by
  by_cases hn : n < 10
  · have hzero : digitsOf (n / 10) = ['0'] := by
      rw [Nat.div_eq_of_lt hn]
      decide +kernel
    have hdigit : digitsOf n = [n.digitChar] := by rw [digitsOf, if_pos hn]
    have hzeros : List.replicate (width + 1) '0' = List.replicate width '0' ++ ['0'] :=
      List.replicate_succ'
    simp [padded, hzero, hdigit, hzeros, Nat.mod_eq_of_lt hn]
  · have hdigits : digitsOf n = digitsOf (n / 10) ++ [(n % 10).digitChar] := by
      rw [digitsOf, if_neg hn]
    simp [padded, hdigits]

/-- Leading zeros fill up the whole part to one digit at most. -/
theorem padded_split (k n : Nat) :
    ∃ fraction, padded (k + 1) n = digitsOf (n / 10 ^ k) ++ fraction ∧ fraction.length = k := by
  induction k generalizing n with
  | zero => exact ⟨[], by simp [padded_one], rfl⟩
  | succ k ih =>
    obtain ⟨fraction, hpadded, hlength⟩ := ih (n / 10)
    refine ⟨fraction ++ [(n % 10).digitChar], ?_, by simp [hlength]⟩
    rw [padded_succ, hpadded, Nat.div_div_eq_div_mul, ← Nat.pow_succ', List.append_assoc]

/-- The digits on both sides of the point. -/
theorem pointed_split (k n : Nat) :
    ∃ fraction, pointed (k + 1) n
        = digitsOf (n / 10 ^ (k + 1)) ++ '.' :: (fraction ++ [(n % 10).digitChar]) ∧
      fraction.length = k ∧
      ∀ c ∈ digitsOf (n / 10 ^ (k + 1)) ++ (fraction ++ [(n % 10).digitChar]),
        c.isDigit = true := by
  obtain ⟨fraction, hpadded, hlength⟩ := padded_split k (n / 10)
  have hsplit : padded (k + 2) n
      = digitsOf (n / 10 ^ (k + 1)) ++ (fraction ++ [(n % 10).digitChar]) := by
    rw [padded_succ, hpadded, Nat.div_div_eq_div_mul, ← Nat.pow_succ', List.append_assoc]
  have hfront : (padded (k + 2) n).length - (k + 1) = (digitsOf (n / 10 ^ (k + 1))).length := by
    rw [hsplit]
    simp [hlength]
  refine ⟨fraction, ?_, hlength, hsplit ▸ (padded_spec (k + 2) n).1⟩
  rw [pointed, if_neg (Nat.succ_ne_zero k)]
  simp only
  rw [hfront, hsplit, List.take_left, List.drop_left]

/-! ### The text of a shortest representation -/

theorem reduce_least (x : Decimal) : min x.exponent 0 ≤ x.reduce.exponent := by
  unfold reduce
  split
  · exact Int.min_le_right _ _
  · exact Int.le_trans (Int.min_le_left _ _) (Numeric.strip_exponent _ x).1

theorem reduce_last {x : Decimal} (h : x.reduce.exponent < 0) : x.reduce.coefficient % 10 ≠ 0 := by
  unfold reduce at h ⊢
  split at h
  · simp [zero] at h
  · next hx =>
    rw [if_neg hx]
    exact strip_mod_ten (by simpa [isZero] using hx) (Nat.le_refl _)

/-- A representation without trailing zeros behind the point has a canonical text, with as many
decimal places as it has itself. -/
theorem plainText_canonical {x : Decimal} (h : x.exponent < 0 → x.coefficient % 10 ≠ 0) :
    x.plainText.toList ∈ canonical.matches' ∧
      (decimals x.plainText.toList).length = (-x.exponent).toNat := by
  rw [plainText, String.toList_ofList, decimals_signText]
  by_cases he : 0 ≤ x.exponent
  · let n := x.coefficient * 10 ^ x.exponent.toNat
    have hdigits : ∀ c ∈ digitsOf n ++ [], c.isDigit = true := by
      simpa using (digitsOf_spec n).1
    have hdecimals := decimals_numeral hdigits
    simp only [if_pos he]
    refine ⟨mem_canonical x.negative (digitsOf_whole n) (.inl rfl) hdigits, ?_⟩
    rw [show decimals (digitsOf n) = [] from hdecimals, List.length_nil]
    omega
  · obtain ⟨k, hk⟩ := Nat.exists_eq_succ_of_ne_zero (show x.exponent.natAbs ≠ 0 by omega)
    obtain ⟨fraction, hpointed, hlength, hdigits⟩ := pointed_split k x.coefficient
    have hlast : (x.coefficient % 10).digitChar ≠ '0' :=
      digitChar_ne_zero _ (Nat.mod_lt _ (by decide)) (h (by omega))
    have hnumeral : pointed x.exponent.natAbs x.coefficient
        = numeral (digitsOf (x.coefficient / 10 ^ (k + 1)))
          (fraction ++ [(x.coefficient % 10).digitChar]) := by
      rw [hk, hpointed]
      simp [numeral]
    simp only [if_neg he, hnumeral]
    refine ⟨mem_canonical x.negative (digitsOf_whole _) (.inr ⟨_, _, rfl, hlast⟩) hdigits, ?_⟩
    rw [decimals_numeral hdigits, List.length_append, hlength, List.length_singleton]
    omega

theorem denoted_plainText (x : Decimal) : denoted x.plainText = x.value := by
  obtain ⟨whole, fraction, htext, hwhole, hdigits, hvalue⟩ := x.plainText_spec
  rw [htext, denoted_numeral hdigits hwhole, hvalue, ← value_eq_sign_mul]

/-- Zero is shown without a sign. -/
theorem plainText_reduce_ne (x : Decimal) : x.reduce.plainText ≠ "-0" := by
  intro h
  have hvalue : x.value = 0 := by
    rw [← value_reduce, ← denoted_plainText, h]
    simp [denoted, magnitude, natOfDigits]
  rw [reduce, if_pos (value_eq_zero_iff.mp hvalue)] at h
  revert h
  decide +kernel

/-- The text that shows a number of the calculator is canonical and stands for the number rounded to
the wanted places, ties to even; and two numbers are shown by the same text exactly if they are
rounded to the same number. -/
theorem display_is_canonical (places : Nat) :
    (∀ x : Decimal, calculator.Fits x → ∃ text, x.display? places = some text ∧
      text.toList ∈ canonical.matches' ∧ text ≠ "-0" ∧ (decimals text.toList).length ≤ places ∧
      RoundsTo places x.value (denoted text)) ∧
    ∀ x y : Decimal, calculator.Fits x → calculator.Fits y →
      (x.display? places = y.display? places ↔
        ∃ w, RoundsTo places x.value w ∧ RoundsTo places y.value w) := by
  have hrounds : ∀ x : Decimal,
      RoundsTo places x.value (denoted (x.quantize places).reduce.plainText) := by
    intro x
    rw [denoted_plainText, value_reduce]
    exact quantize_roundsTo places x
  refine ⟨fun x hx => ⟨_, display?_eq hx places, ?_⟩, fun x y hx hy => ?_⟩
  · obtain ⟨hcanonical, hdecimals⟩ := plainText_canonical (@reduce_last (x.quantize places))
    refine ⟨hcanonical, plainText_reduce_ne _, ?_, hrounds x⟩
    have hleast := reduce_least (x.quantize places)
    rw [exponent_quantize] at hleast
    omega
  · rw [display?_eq hx, display?_eq hy, Option.some_inj]
    constructor
    · intro htext
      exact ⟨_, hrounds x, htext ▸ hrounds y⟩
    · rintro ⟨w, hxw, hyw⟩
      have hvalue : (x.quantize places).value = (y.quantize places).value := by
        rw [(quantize_roundsTo places x).unique hxw, (quantize_roundsTo places y).unique hyw]
      rw [reduce_eq hvalue]

/-- A tie that is carried into a new digit, and another number that is shown alike. -/
theorem display_is_canonical_on_carry :
    let x : Decimal := ⟨true, 9995, -3⟩
    let y : Decimal := ⟨true, 10001, -3⟩
    calculator.Fits x ∧ calculator.Fits y ∧ x.display? 2 = some "-10" ∧
      "-10".toList ∈ canonical.matches' ∧ RoundsTo 2 x.value (denoted "-10") ∧
      ∃ w, RoundsTo 2 x.value w ∧ RoundsTo 2 y.value w := by
  intro x y
  have hx : calculator.Fits x :=
    Format.calculator_fits_iff.mpr ⟨by decide, by decide, by decide +kernel⟩
  have hy : calculator.Fits y :=
    Format.calculator_fits_iff.mpr ⟨by decide, by decide, by decide +kernel⟩
  have hshown : x.display? 2 = some "-10" := by decide +kernel
  have hsame : x.display? 2 = y.display? 2 := by decide +kernel
  obtain ⟨hcanonical, hequal⟩ := display_is_canonical 2
  obtain ⟨text, htext, hmatches, -, -, hrounds⟩ := hcanonical x hx
  obtain rfl : text = "-10" := Option.some.inj (htext.symm.trans hshown)
  exact ⟨hx, hy, hshown, hmatches, hrounds, (hequal x y hx hy).mp hsame⟩

end Decimal

end Abacus
