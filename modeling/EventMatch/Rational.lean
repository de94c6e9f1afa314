/-!
# Rational arithmetic

Powers with integer exponents, and rounding to an integer.
-/

namespace EventMatch

/-- A natural number to an integer power. -/
def power (base : Nat) (e : Int) : Rat :=
  if 0 ≤ e then ((Nat.pow base e.toNat : Nat) : Rat)
  else 1 / ((Nat.pow base (-e).toNat : Nat) : Rat)

/-- The nearest integer; a half goes to the even neighbour. -/
def roundHalfEven (x : Rat) : Int :=
  let below := x.floor
  let part := x - (below : Rat)
  if part < 1 / 2 then below
  else if 1 / 2 < part then below + 1
  else if below % 2 = 0 then below else below + 1

/-- The floor of the binary logarithm of a positive rational. The logarithms of
numerator and denominator give it, or one too much. -/
def floorLog2 (x : Rat) : Int :=
  let k : Int := (x.num.natAbs.log2 : Int) - (x.den.log2 : Int)
  if power 2 k ≤ x then k else k - 1

end EventMatch
