import EventMatch.Numeral.Basic

/-!
# Binary floating point, exactly

The values of the binary64 format as exact numbers. Every operation is the
exact operation on rationals followed by one rounding to the nearest value of
the format, a half going to the even significand (`Binary64.ofRat`). Nothing
here depends on the machine's own floating point.
-/

namespace EventMatch

/-- A value of the binary64 format. A finite one is the significand times two to
the exponent, with a sign that zero has too. -/
inductive Binary64 where
  | finite (negative : Bool) (significand : Nat) (exponent : Int)
  | infinite (negative : Bool)
  | nan
deriving DecidableEq, Repr

namespace Binary64

/-- Significands have at most this many bits. -/
def precision : Int := 53

/-- The leading bit of a significand that has all its bits, two to the 52. -/
def hidden : Nat := 0x10000000000000

/-- The smallest exponent of a finite value. -/
def minExponent : Int := -1074

/-- The largest exponent of a finite value. -/
def maxExponent : Int := 971

/-- The exponent of the values around a positive rational: the one that gives the
significand all its bits, unless that is too small. -/
def exponentOf (x : Rat) : Int := max minExponent (floorLog2 x - (precision - 1))

/-- The value nearest to a rational that is not negative, with a sign. A
significand that rounding makes one bit too long is halved. -/
def ofMagnitude (negative : Bool) (x : Rat) : Binary64 :=
  if x = 0 then finite negative 0 minExponent
  else
    let e := exponentOf x
    let m := (roundHalfEven (x / power 2 e)).toNat
    let (m, e) := if m = hidden * 2 then (hidden, e + 1) else (m, e)
    if maxExponent < e then infinite negative else finite negative m e

/-- The value nearest to a rational; zero gets no minus. -/
def ofRat (x : Rat) : Binary64 := if x < 0 then ofMagnitude true (-x) else ofMagnitude false x

/-- The exact value of a finite one; the others have none, and 0 stands for it. -/
def toRat : Binary64 → Rat
  | finite negative m e =>
    if negative then -((m : Rat) * power 2 e) else (m : Rat) * power 2 e
  | _ => 0

/-- Whether the value is a number. -/
def isFinite : Binary64 → Bool
  | finite .. => true
  | _ => false

/-- Numerals with more than this many digits before the point are infinite. -/
def infiniteFrom : Int := 310

/-- Numerals with more than this many zeros between the point and their first
digit are zero. -/
def zeroFrom : Int := 330

/-- The value nearest to a numeral. One that is far too large or too small is
known by the position of its first digit, and no power of ten is computed for it. -/
def ofNumeral (n : Numeral) : Binary64 :=
  let position := (n.significantDigits : Int) + n.scale
  if n.coefficient = 0 then finite n.negative 0 minExponent
  else if infiniteFrom < position then infinite n.negative
  else if position < -zeroFrom then finite n.negative 0 minExponent
  else ofMagnitude n.negative n.magnitude

/-- The difference, rounded. -/
def sub : Binary64 → Binary64 → Binary64
  | nan, _ | _, nan => nan
  | infinite a, infinite b => if a = b then nan else infinite a
  | infinite a, finite .. => infinite a
  | finite .., infinite b => infinite !b
  | x, y => ofRat (x.toRat - y.toRat)

/-- The value without its sign. -/
def abs : Binary64 → Binary64
  | finite _ m e => finite false m e
  | infinite _ => infinite false
  | nan => nan

/-- The value with the other sign. -/
def neg : Binary64 → Binary64
  | finite negative m e => finite (!negative) m e
  | infinite negative => infinite !negative
  | nan => nan

/-- Whether the first value is below the second; false for what is no number. -/
def lt : Binary64 → Binary64 → Bool
  | nan, _ | _, nan => false
  | infinite a, infinite b => a && !b
  | infinite a, finite .. => a
  | finite .., infinite b => !b
  | x, y => x.toRat < y.toRat

/-- Whether two values are equal as numbers, so both zeros are; false for what is
no number. -/
def eq : Binary64 → Binary64 → Bool
  | nan, _ | _, nan => false
  | infinite a, infinite b => a == b
  | infinite _, finite .. | finite .., infinite _ => false
  | x, y => x.toRat == y.toRat

/-- Whether the first value is below the second or equal to it. -/
def le (x y : Binary64) : Bool := x.lt y || x.eq y

/-- The sign bit. -/
def signBit (negative : Bool) : Nat := if negative then 0x8000000000000000 else 0

/-- The bit pattern: sign, eleven bits of exponent, and the significand without
its leading bit. -/
def bits : Binary64 → Nat
  | finite negative m e =>
    signBit negative +
      if m < hidden then m else (e - minExponent + 1).toNat * hidden + (m - hidden)
  | infinite negative => signBit negative + 0x7FF * hidden
  | nan => 0x7FF8000000000000

/-- The value that a text names: `inf`, `-inf`, `NaN` or a numeral. -/
def ofText? (s : String) : Option Binary64 :=
  if s = "inf" then some (infinite false)
  else if s = "-inf" then some (infinite true)
  else if s = "NaN" then some nan
  else (Numeral.parse? (Bytes.ofString s)).map ofNumeral

end Binary64

end EventMatch
