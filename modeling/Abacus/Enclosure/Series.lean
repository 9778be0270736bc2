import Abacus.Enclosure.Basic

/-!
Power series with an enclosure of the terms left out.

Each series is a loop over a term recurrence. Its arguments are kept so small that the terms
shrink at least by half, so all terms that are left out together are at most twice the first of
them.
-/
namespace Abacus.Enclosure

/-- A partial sum with the bound on its tail. -/
def withTail (sum next : Enclosure) : Enclosure := sum.widen (2 * next.magnitude + 1)

/-- Sum of `z · t ^ i / (2 i + 1)` from `i = k` on, `power` being `z · t ^ k`. -/
def arcSum (s : Nat) (t : Enclosure) : Nat → Nat → Enclosure → Enclosure → Enclosure
  | 0, _, power, sum => withTail sum power
  | n + 1, k, power, sum =>
    arcSum s t n (k + 1) (mul s power t) (sum.add (power.divNat (2 * k + 1)))

/-- Inverse hyperbolic tangent of `z`, `|z| ≤ 1/3`. -/
def artanh (s : Nat) (z : Enclosure) : Enclosure :=
  arcSum s (square s z) (s.log2 / 3 + 2) 0 z ⟨0, 0⟩

/-- Inverse tangent of `z`, `|z| ≤ 1/3`. -/
def arctanSmall (s : Nat) (z : Enclosure) : Enclosure :=
  arcSum s (square s z).neg (s.log2 / 3 + 2) 0 z ⟨0, 0⟩

/-- Sum of `y ^ i / i!` from `i = k` on, `term` being `y ^ k / k!`. -/
def expSum (s : Nat) (y : Enclosure) : Nat → Nat → Enclosure → Enclosure → Enclosure
  | 0, _, term, sum => withTail sum term
  | n + 1, k, term, sum =>
    expSum s y n (k + 1) ((mul s term y).divNat (k + 1)) (sum.add term)

/-- Exponential of `y`, `|y| ≤ 1/256`. -/
def expSmall (s : Nat) (y : Enclosure) : Enclosure :=
  expSum s y (s.log2 / 8 + 2) 0 (ofInt s 1) ⟨0, 0⟩

/-- Sum of the alternating terms `r ^ j / j!` for every second `j`, `square` being `r ^ 2`. -/
def waveSum (s : Nat) (square : Enclosure) : Nat → Nat → Enclosure → Enclosure → Enclosure
  | 0, _, term, sum => withTail sum term
  | n + 1, j, term, sum =>
    waveSum s square n (j + 2) ((mul s term square).neg.divNat ((j + 1) * (j + 2))) (sum.add term)

/-- Number of terms after which the sine series of an argument below one is at its limit. -/
def waveTerms (s : Nat) : Nat := s.log2 / 6 + 8

/-- Sine of `r`, `|r| ≤ 1`. -/
def sinSmall (s : Nat) (r : Enclosure) : Enclosure :=
  waveSum s (square s r) (waveTerms s) 1 r ⟨0, 0⟩

/-- Cosine of `r`, `|r| ≤ 1`. -/
def cosSmall (s : Nat) (r : Enclosure) : Enclosure :=
  waveSum s (square s r) (waveTerms s) 0 (ofInt s 1) ⟨0, 0⟩

end Abacus.Enclosure
