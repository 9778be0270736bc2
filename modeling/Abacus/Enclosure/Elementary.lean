import Abacus.Enclosure.Series

/-!
Elementary functions of fractions.

Arguments are reduced until the series apply: logarithms by powers of two, exponentials by
repeated halving, angles by quarter turns, inverse tangents by halving the angle.
-/
namespace Abacus.Enclosure

/-- The scale that keeps `places` decimal places. -/
def scale (places : Nat) : Nat := 10 ^ places

def ln2 (s : Nat) : Enclosure := (artanh s (ofRatio s 1 3)).times 2

/-- Natural logarithm of `n / d`, both positive: with `n / d = 2 ^ j · m` and `m` between a half
and two, it is `j ln 2 + 2 artanh ((m - 1) / (m + 1))`. -/
def ln (s n d : Nat) : Enclosure :=
  let up := d.log2 - n.log2
  let down := n.log2 - d.log2
  let p := n * 2 ^ up
  let q := d * 2 ^ down
  let j : Int := down - up
  ((ln2 s).times j).add ((artanh s (ofRatio s ((p : Int) - q) (p + q))).times 2)

/-- Squares an enclosure again and again. -/
def squarings (s : Nat) : Nat → Enclosure → Enclosure
  | 0, a => a
  | n + 1, a => squarings s n (square s a)

/-- Halvings that bring an argument below 1000 down to less than 1/256. -/
def expHalvings : Nat := 18

/-- Exponential of `n / d`, for a fraction below 1000 in magnitude. -/
def exp (s : Nat) (n : Int) (d : Nat) : Enclosure :=
  squarings s expHalvings (expSmall s (ofRatio s n (d * 2 ^ expHalvings)))

def pi (s : Nat) : Enclosure :=
  ((arctanSmall s (ofRatio s 1 5)).times 16).sub ((arctanSmall s (ofRatio s 1 239)).times 4)

/-- An angle `n / d` as a number of quarter turns and what is left, at most about an eighth of a
turn either way. -/
def quarterTurns (s : Nat) (n : Int) (d : Nat) : Int × Enclosure :=
  let x := ofRatio s n d
  let quarter := (pi s).divNat 2
  let turns := (2 * x.lo + quarter.lo) / (2 * quarter.lo)
  (turns, x.sub (quarter.times turns))

def sin (s : Nat) (n : Int) (d : Nat) : Enclosure :=
  let (turns, r) := quarterTurns s n d
  match turns % 4 with
  | 0 => sinSmall s r
  | 1 => cosSmall s r
  | 2 => (sinSmall s r).neg
  | _ => (cosSmall s r).neg

def cos (s : Nat) (n : Int) (d : Nat) : Enclosure :=
  let (turns, r) := quarterTurns s n d
  match turns % 4 with
  | 0 => cosSmall s r
  | 1 => (sinSmall s r).neg
  | 2 => (cosSmall s r).neg
  | _ => sinSmall s r

/-- Tangent, unless the cosine cannot be told from zero at this scale. -/
def tan? (s : Nat) (n : Int) (d : Nat) : Option Enclosure :=
  let a := sin s n d
  let b := cos s n d
  if b.hi < 0 then div? s a.neg b.neg else div? s a b

/-- Tangent of half the angle whose tangent is `t`. -/
def halfAngle (s : Nat) (t : Enclosure) : Option Enclosure :=
  div? s t ((ofInt s 1).add (sqrt s ((ofInt s 1).add (square s t))))

/-- Inverse tangent: four halvings of the angle leave a tangent below 1/10. -/
def arctan (s : Nat) (t : Enclosure) : Option Enclosure := do
  let t ← halfAngle s t
  let t ← halfAngle s t
  let t ← halfAngle s t
  let t ← halfAngle s t
  return (arctanSmall s t).times 16

/-- Inverse sine of `x = n / d`, at most one in magnitude: twice the inverse tangent of
`x / (1 + √(1 - x²))`. -/
def arcsin (s : Nat) (n : Int) (d : Nat) : Option Enclosure := do
  let x := ofRatio s n d
  let root := sqrt s ((ofInt s 1).sub (square s x))
  let t ← div? s x ((ofInt s 1).add root)
  return (← arctan s t).times 2

def arccos (s : Nat) (n : Int) (d : Nat) : Option Enclosure := do
  return ((pi s).divNat 2).sub (← arcsin s n d)

end Abacus.Enclosure
