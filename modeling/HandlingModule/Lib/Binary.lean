import Mathlib.Data.Rat.Floor

/-!
# Binary floating point, by its values

A finite binary float is a rational, and an operation on floats is the exact
operation followed by one rounding. `roundTo p` rounds to `p` significant bits, to
the nearest such value and to even on a tie. Exponents are unbounded here: the
programs this serves stay far from underflow and overflow.
-/

namespace Binary

/-- `2 ^ e` -/
def twoPow (e : Int) : Rat :=
  if 0 ≤ e then ((2 ^ e.toNat : Nat) : Rat) else mkRat 1 (2 ^ (-e).toNat)

/-- The exponent of the binade a non-zero rational lies in. -/
def exponent (q : Rat) : Int :=
  let k : Int := (q.num.natAbs.log2 : Int) - q.den.log2
  if twoPow k ≤ |q| then k else k - 1

/-- The nearest integer, the even one on a tie. -/
def nearestEven (q : Rat) : Int :=
  let n := q.floor
  let r := q - n
  if r < 1 / 2 then n else if 1 / 2 < r then n + 1 else if n % 2 = 0 then n else n + 1

/-- Round to `p` significant bits. -/
def roundTo (p : Nat) (q : Rat) : Rat :=
  if q = 0 then 0
  else
    let ulp := twoPow (exponent q - p + 1)
    ulp * nearestEven (q / ulp)

/-- Rounding to `float`. -/
def float (q : Rat) : Rat := roundTo 24 q

/-- Rounding to `double`. -/
def double (q : Rat) : Rat := roundTo 53 q

/--
A 64 bit double given by its bits, rounded towards zero and clamped to the range
of a signed 64 bit integer; zero for a value that is not a number.
-/
def truncSat (bits : UInt64) : Int :=
  let e := (bits.toNat / 2 ^ 52) % 2 ^ 11
  let frac := bits.toNat % 2 ^ 52
  let sign : Int := if bits.toNat / 2 ^ 63 = 0 then 1 else -1
  if e = 2 ^ 11 - 1 ∧ frac ≠ 0 then 0
  else
    -- below one for the subnormal numbers, which lack the leading bit
    let magnitude : Nat := if e = 0 then 0 else (2 ^ 52 + frac) * 2 ^ (e - 1075) / 2 ^ (1075 - e)
    max (-2 ^ 63) (min (2 ^ 63 - 1) (sign * magnitude))

end Binary
