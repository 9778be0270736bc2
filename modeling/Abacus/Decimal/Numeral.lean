import Abacus.Decimal.Basic

/-!
Decimals as text: the scientific form that shows a representation exactly, and its reader.
-/
namespace Abacus.Decimal

/-- Digits of `n`, most significant first. -/
def digitsOf (n : Nat) : List Char :=
  if n < 10 then [n.digitChar] else digitsOf (n / 10) ++ [(n % 10).digitChar]
termination_by n
decreasing_by omega

@[simp]
theorem length_digitsOf (n : Nat) : (digitsOf n).length = digitCount n := by
  induction n using Nat.strongRecOn with
  | _ n ih =>
    unfold digitsOf digitCount
    split
    · rfl
    · rename_i h
      simp [ih (n / 10) (by omega)]

/-- `n` written with at least `width` digits. -/
def padded (width n : Nat) : List Char :=
  let ds := digitsOf n
  List.replicate (width - ds.length) '0' ++ ds

/-- The digits of `n` with a point before the last `places` of them. -/
def pointed (places n : Nat) : List Char :=
  if places = 0 then digitsOf n
  else
    let ds := padded (places + 1) n
    ds.take (ds.length - places) ++ '.' :: ds.drop (ds.length - places)

def signText (negative : Bool) : List Char := if negative then ['-'] else []

/-- A signed exponent; the sign is always written. -/
def exponentText (e : Int) : List Char :=
  'E' :: (if e < 0 then '-' else '+') :: digitsOf e.natAbs

/-- Positional notation while the exponent is not positive and the leading digit stands at the
sixth decimal place or before it; scientific notation otherwise. -/
def toText (x : Decimal) : String :=
  let body :=
    if x.exponent ≤ 0 ∧ -6 ≤ x.adjusted then pointed x.exponent.natAbs x.coefficient
    else
      let ds := digitsOf x.coefficient
      pointed (ds.length - 1) x.coefficient ++ exponentText x.adjusted
  String.ofList (signText x.negative ++ body)

/-- The number that a list of decimal digits denotes. -/
def natOfDigits (ds : List Char) : Nat :=
  ds.foldl (fun n c => 10 * n + (c.toNat - '0'.toNat)) 0

/-- `digits[.digits]` as an exact decimal with as many places as are written. -/
def ofDigits (whole fraction : List Char) : Decimal :=
  ⟨false, natOfDigits (whole ++ fraction), -(fraction.length : Int)⟩

/-- A run of decimal digits at the front of `cs`, and the rest. -/
def spanDigits (cs : List Char) : List Char × List Char :=
  (cs.takeWhile Char.isDigit, cs.dropWhile Char.isDigit)

/-- Reads the exponent part `E±digits`, or nothing at the end of the text. -/
def exponentOfText? : List Char → Option Int
  | [] => some 0
  | e :: cs =>
    if e ≠ 'E' ∧ e ≠ 'e' then none
    else
      let (negative, ds) :=
        match cs with
        | '-' :: ds => (true, ds)
        | '+' :: ds => (false, ds)
        | ds => (false, ds)
      if ds.isEmpty || !ds.all Char.isDigit then none
      else some (if negative then -(natOfDigits ds : Int) else natOfDigits ds)

/-- Reads `[-]digits[.digits][E±digits]` without rounding. -/
def ofText? (text : String) : Option Decimal :=
  let (negative, cs) :=
    match text.toList with
    | '-' :: cs => (true, cs)
    | cs => (false, cs)
  let (whole, rest) := spanDigits cs
  let (fraction, rest) :=
    match rest with
    | '.' :: rest => spanDigits rest
    | rest => ([], rest)
  if whole.isEmpty && fraction.isEmpty then none
  else
    (exponentOfText? rest).map fun e =>
      let x := ofDigits whole fraction
      ⟨negative, x.coefficient, x.exponent + e⟩

end Abacus.Decimal
