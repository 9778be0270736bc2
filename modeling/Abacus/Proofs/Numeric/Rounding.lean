import Abacus.Proofs.Decimal.Nearest

/-!
Checked arithmetic rounds once and fails at one threshold.

A sum, a difference, a product, a quotient and a number literal of any length are the exact rational
number, rounded once to 28 significant digits, or to a multiple of the least positive number if the
exact one is smaller than any normal number. They fail if and only if the exact number is at least
`10 ^ 29 - 5`, half a unit of the last place above the greatest number. Turning the sign around and
taking the magnitude are exact.
-/
namespace Abacus.Numeric

open Format (calculator calculator_ample)

/-- `w` is `v` with 28 significant digits, the first of them with an exponent of -28 or more, or
else the nearest multiple of `10 ^ (-55)`; ties to even in both cases. -/
structure Rounded (v w : ℚ) : Prop where
  normal : ∀ a : ℤ, -28 ≤ a → 10 ^ a ≤ |v| → |v| < 10 ^ (a + 1) → RoundsAt (a - 27) v w
  subnormal : |v| < 10 ^ (-28 : ℤ) → RoundsAt (-55) v w

/-- A computation whose exact result is `v` gives this number rounded once. It fails, with the kind
that is given, exactly if the number is too large. -/
structure Computes (kind : ErrorKind) (v : ℚ) (result : Checked) : Prop where
  fails_iff : result = .error kind ↔ 10 ^ 29 - 5 ≤ |v|
  rounds : |v| < 10 ^ 29 - 5 → ∃ z, result = .ok z ∧ calculator.Fits z ∧ Rounded v z.value

theorem threshold_calculator : calculator.threshold = 10 ^ 29 - 5 := by
  norm_num [Format.threshold, calculator]

theorem rounded_calculator {v w : ℚ} (h : calculator.Rounded v w) : Rounded v w := by
  refine ⟨fun a ha hle hlt => ?_, h.subnormal⟩
  have hplace : a + 1 - (calculator.digits : ℤ) = a - 27 := by
    have hdigits : (calculator.digits : ℤ) = 28 := rfl
    omega
  exact hplace ▸ h.normal a ha hle hlt

theorem computes_check {kind : ErrorKind} {v : ℚ} {o : Option Decimal}
    (h : calculator.RoundsOnce v o) (hfits : InRange (check kind o)) :
    Computes kind v (check kind o) := by
  have hnone := h.none_iff
  rw [threshold_calculator] at hnone
  cases o with
  | none =>
    have hlarge := hnone.mp rfl
    exact ⟨iff_of_true rfl hlarge, fun hsmall => absurd hlarge (not_le.mpr hsmall)⟩
  | some z =>
    have hsmall : ¬10 ^ 29 - 5 ≤ |v| := fun hlarge => by simpa using hnone.mpr hlarge
    refine ⟨iff_of_false (by simp [check]) hsmall, fun _ => ⟨z, rfl, hfits z rfl, ?_⟩⟩
    exact rounded_calculator (h.some_value z rfl)

theorem add_computes (x y : Decimal) : Computes .math (x.value + y.value) (add x y) :=
  computes_check (Decimal.add_roundsOnce calculator_ample x y) (add_inRange x y)

theorem subtract_computes (x y : Decimal) : Computes .math (x.value - y.value) (subtract x y) :=
  computes_check (Decimal.sub_roundsOnce calculator_ample x y) (subtract_inRange x y)

theorem multiply_computes (x y : Decimal) : Computes .math (x.value * y.value) (multiply x y) :=
  computes_check (Decimal.mul_roundsOnce calculator_ample x y) (multiply_inRange x y)

theorem divide_computes (x : Decimal) {y : Decimal} (hy : y.isZero = false) :
    Computes .math (x.value / y.value) (divide x y) := by
  have hfits := divide_inRange x y
  simp only [divide, hy, Bool.false_eq_true, if_false] at hfits ⊢
  exact computes_check (Decimal.div_roundsOnce calculator_ample x hy) hfits

theorem divide_eq_zeroDivision_iff (x y : Decimal) :
    divide x y = .error .zeroDivision ↔ y.isZero = true := by
  unfold divide
  cases y.isZero with
  | true => exact iff_of_true rfl rfl
  | false => cases x.div calculator y <;> simp [check]

/-! ### Literals -/

theorem value_ofDigits (whole fraction : List Char) :
    (Decimal.ofDigits whole fraction).value
      = Decimal.natOfDigits (whole ++ fraction) / 10 ^ fraction.length := by
  simp [Decimal.ofDigits, Decimal.value, Decimal.sign, zpow_neg, div_eq_mul_inv]

theorem literal_computes (whole fraction : List Char) :
    Computes .invalidNumber
      (Decimal.natOfDigits (whole ++ fraction) / 10 ^ fraction.length) (literal whole fraction) :=
  value_ofDigits whole fraction ▸
    computes_check (Format.round_roundsOnce calculator_ample _) (literal_inRange whole fraction)

theorem spanDigits_append {ds rest : List Char} (hds : ∀ c ∈ ds, c.isDigit = true)
    (hrest : ∀ c ∈ rest.head?, c.isDigit = false) :
    Decimal.spanDigits (ds ++ rest) = (ds, rest) := by
  have hstop : rest.takeWhile Char.isDigit = [] ∧ rest.dropWhile Char.isDigit = rest := by
    cases rest with
    | nil => exact ⟨rfl, rfl⟩
    | cons c rest =>
      have hc := hrest c rfl
      exact ⟨List.takeWhile_cons_of_neg (by simp [hc]), List.dropWhile_cons_of_neg (by simp [hc])⟩
  rw [Decimal.spanDigits, List.takeWhile_append_of_pos hds, List.dropWhile_append_of_pos hds,
    hstop.1, hstop.2, List.append_nil]

/-- A numeral is read as text in the same way as its digits are. -/
theorem ofText?_numeral {whole fraction : List Char} (hwhole : whole ≠ [])
    (hdigits : ∀ c ∈ whole ++ fraction, c.isDigit = true) :
    Decimal.ofText? (String.ofList (numeral whole fraction))
      = some (Decimal.ofDigits whole fraction) := by
  obtain ⟨c, ds, rfl⟩ := List.exists_cons_of_ne_nil hwhole
  have hwhole : ∀ d ∈ c :: ds, d.isDigit = true := fun d hd =>
    hdigits d (List.mem_append_left _ hd)
  have hfraction : ∀ d ∈ fraction, d.isDigit = true := fun d hd =>
    hdigits d (List.mem_append_right _ hd)
  have hsign : c ≠ '-' := by
    rintro rfl
    exact absurd (hwhole '-' (by simp)) (by decide)
  have hread : ∀ rest, (∀ d ∈ rest.head?, d.isDigit = false) →
      Decimal.spanDigits (c :: (ds ++ rest)) = (c :: ds, rest) := fun rest =>
    spanDigits_append hwhole
  unfold Decimal.ofText?
  rw [String.toList_ofList, numeral]
  cases fraction with
  | nil =>
    have hspan := hread [] (by simp)
    rw [List.append_nil] at hspan
    simp [hsign, hspan, Decimal.exponentOfText?, Decimal.ofDigits]
  | cons d fraction =>
    have hspan := hread ('.' :: d :: fraction) (by simp)
    have hback := (congrArg Decimal.spanDigits (List.append_nil _)).symm.trans
      (spanDigits_append hfraction (by simp))
    simp [hsign, hspan, hback, Decimal.exponentOfText?, Decimal.ofDigits]

theorem ofText_numeral {whole fraction : List Char} (hwhole : whole ≠ [])
    (hdigits : ∀ c ∈ whole ++ fraction, c.isDigit = true) :
    ofText (String.ofList (numeral whole fraction)) = literal whole fraction := by
  rw [ofText, ofText?_numeral hwhole hdigits, Option.bind_some, literal]

/-! ### Signs -/

theorem negate_fits {x : Decimal} (hx : calculator.Fits x) :
    ∃ z, negate x = .ok z ∧ calculator.Fits z ∧ z.value = -x.value := by
  obtain ⟨z, hz, hvalue⟩ := negate_exact hx rfl
  exact ⟨z, hz, multiply_inRange x .minusOne z hz, hvalue⟩

/-- All operands and literals: the exact result is rounded once, or there is none because of its
size. Only a division by zero is an error of its own. -/
theorem arithmetic_rounds_once :
    (∀ x y : Decimal,
      Computes .math (x.value + y.value) (add x y) ∧
      Computes .math (x.value - y.value) (subtract x y) ∧
      Computes .math (x.value * y.value) (multiply x y) ∧
      (y.value ≠ 0 → Computes .math (x.value / y.value) (divide x y)) ∧
      (divide x y = .error .zeroDivision ↔ y.value = 0)) ∧
    (∀ whole fraction : List Char, whole ≠ [] → (∀ c ∈ whole ++ fraction, c.isDigit = true) →
      Computes .invalidNumber (Decimal.natOfDigits (whole ++ fraction) / 10 ^ fraction.length)
        (literal whole fraction) ∧
      ofText (String.ofList (numeral whole fraction)) = literal whole fraction) ∧
    ∀ x : Decimal, calculator.Fits x →
      (∃ z, negate x = .ok z ∧ calculator.Fits z ∧ z.value = -x.value) ∧
      calculator.Fits (absolute x) ∧ (absolute x).value = |x.value| := by
  refine ⟨fun x y => ⟨add_computes x y, subtract_computes x y, multiply_computes x y, ?_, ?_⟩,
    fun whole fraction hwhole hdigits => ?_, fun x hx => ?_⟩
  · intro hy
    rw [ne_eq, Decimal.value_eq_zero_iff, Bool.not_eq_true] at hy
    exact divide_computes x hy
  · rw [divide_eq_zeroDivision_iff, Decimal.value_eq_zero_iff]
  · exact ⟨literal_computes whole fraction, ofText_numeral hwhole hdigits⟩
  · exact ⟨negate_fits hx, hx.abs, Decimal.value_abs x⟩

/-- A sum that is the threshold, in the middle between the greatest number and the next power of
ten, and a literal just below it, which is rounded down to the greatest number. -/
theorem arithmetic_rounds_once_at_threshold :
    let x : Decimal := ⟨false, 9999999999999999999999999999, 1⟩
    let y : Decimal := ⟨false, 5, 0⟩
    let whole := "99999999999999999999999999994".toList
    let fraction := "999".toList
    add x y = .error .math ∧ (10 : ℚ) ^ 29 - 5 ≤ |x.value + y.value| ∧
      y.value ≠ 0 ∧ Computes .math (x.value / y.value) (divide x y) ∧
      whole ≠ [] ∧ (∀ c ∈ whole ++ fraction, c.isDigit = true) ∧
      literal whole fraction = .ok x ∧
      Computes .invalidNumber (Decimal.natOfDigits (whole ++ fraction) / 10 ^ fraction.length)
        (literal whole fraction) ∧
      calculator.Fits x ∧ ∃ z, negate x = .ok z ∧ z.value = -x.value := by
  intro x y whole fraction
  have hx : calculator.Fits x :=
    Format.calculator_fits_iff.mpr ⟨by decide, by decide, by decide +kernel⟩
  have hy : y.value ≠ 0 := by
    rw [ne_eq, Decimal.value_eq_zero_iff]
    decide
  have hwhole : whole ≠ [] := by decide
  have hdigits : ∀ c ∈ whole ++ fraction, c.isDigit = true := List.all_eq_true.mp (by decide)
  have hadd : add x y = .error .math := by decide +kernel
  obtain ⟨hpairs, hliterals, hsigns⟩ := arithmetic_rounds_once
  obtain ⟨hsum, -, -, hquotient, -⟩ := hpairs x y
  obtain ⟨⟨z, hz, -, hvalue⟩, -⟩ := hsigns x hx
  exact ⟨hadd, hsum.fails_iff.mp hadd, hy, hquotient hy, hwhole, hdigits, by decide +kernel,
    (hliterals whole fraction hwhole hdigits).1, hx, z, hz, hvalue⟩

end Abacus.Numeric
