import EventMatch.Binary64

/-!
# Reading numbers in few operations

`Binary64.ofNumeral` rounds the exact value of a numeral, once. Predicates read
the numbers of events in a cheaper way: the digits are gathered in a word of 64
bits, and the value nearest to the word is multiplied or divided by the value
nearest to a power of ten. Each of the three is rounded, so the outcome need not
be the nearest value. The power is an integer of any size; 32 bits for it would
be too few for numerals of billions of digits only.
-/

namespace EventMatch

namespace Binary64

/-- The largest power of ten that is not beyond all values. -/
def maxPower : Nat := 308

/-- The value nearest to a power of ten. -/
def tenTo (k : Nat) : Binary64 := ofRat (power 10 k)

/-- A value that is not negative, divided by a power of ten. While the power is
beyond all values, the value is divided by the largest one that is not, unless it
has become zero. -/
def dividedByTenTo (x : Binary64) (k : Nat) : Binary64 :=
  if k ≤ maxPower then ofRat (x.toRat / (tenTo k).toRat)
  else if x.toRat = 0 then x
  else dividedByTenTo (ofRat (x.toRat / (tenTo maxPower).toRat)) (k - maxPower)
termination_by k
decreasing_by simp only [maxPower] at *; omega

/-- A value that is not negative, times a power of ten. Only zero stays finite
when that is beyond all values. -/
def timesTenTo (x : Binary64) (e : Int) : Binary64 :=
  if e < 0 then x.dividedByTenTo e.natAbs
  else if e ≤ maxPower then ofRat (x.toRat * (tenTo e.toNat).toRat)
  else if x.toRat = 0 then x
  else infinite false

end Binary64

namespace Numeral

/-- The largest number of a word. -/
def maxWord : Nat := 0xFFFFFFFFFFFFFFFF

/-- Writes digits behind those of a word, up to the first one for which it is too
large, and keeps the rest of them. -/
def gather (word : Nat) : List Digit → Nat × List Digit
  | [] => (word, [])
  | d :: ds => if maxWord < word * 10 + d.val then (word, d :: ds) else gather (word * 10 + d.val) ds

/-- The word of a numeral's digits and the power of ten by which it is scaled.
Digits that do not fit count as zeros. -/
def wordAndScale (n : Numeral) : Nat × Int :=
  let (whole, zeros) := gather 0 n.whole.toList
  let (word, dropped) := gather whole ((n.fraction.map Digits.toList).getD [])
  (word, n.scale + zeros.length + dropped.length)

/-- The value as which predicates read a numeral. One that is too large is read
as infinite, which is for them no number. -/
def reading (n : Numeral) : Binary64 :=
  let (word, scale) := n.wordAndScale
  let x := (Binary64.ofRat word).timesTenTo scale
  if n.negative then x.neg else x

end Numeral

end EventMatch
