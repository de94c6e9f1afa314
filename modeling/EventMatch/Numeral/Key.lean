import EventMatch.Binary64
import EventMatch.Error
import EventMatch.Text.Utf8

/-!
# Keys of numbers

A number between -10^9 and 10^9 has a key, an integer that grows with it: the
number is read as a binary64 value, moved up by 10^9 and scaled by 10^9, with
one rounding in each step, and the outcome is rounded to an integer. Written
with `keyWidth` digits, keys compare as bytes in the order of the numbers, and
different spellings of one number have one key.
-/

namespace EventMatch.Numeral

/-- The bound that the magnitude of a number with a key stays below. -/
def bound : Nat := 1000000000

/-- The most significant digits that a numeral with a key may have. -/
def maxDigits : Nat := 18

/-- The number of digits of a key. -/
def keyWidth : Nat := 19

/-- The largest key that `keyWidth` digits can spell. -/
def maxKey : Nat := 9999999999999999999

/-- The digits of a number in decimal, most significant first. -/
def decimal (n : Nat) : Bytes := (Nat.toDigits 10 n).map Char.toUInt8

/-- The digits with zeros in front up to a width. -/
def padded (width : Nat) (ds : Bytes) : Bytes := List.replicate (width - ds.length) 0x30 ++ ds

/-- The value moved up by the bound, then scaled by it, then as the nearest integer. -/
def shifted (x : Binary64) : Nat :=
  let moved := Binary64.ofRat (x.toRat + (bound : Rat))
  let scaled := Binary64.ofRat (moved.toRat * (bound : Rat))
  (roundHalfEven scaled.toRat).toNat

/-- Whether a value lies strictly between the bounds. -/
def inRange (x : Binary64) : Bool :=
  x.isFinite && decide (x.toRat < (bound : Rat)) && decide (-(bound : Rat) < x.toRat)

/-- The digits of the key of the number that the bytes spell. Bytes that spell
none are refused, then too many digits, then a value out of range. -/
def canonical (v : Bytes) : Except MatchError Bytes :=
  match parse? v with
  | none => .error (.number (Utf8.lossy v))
  | some n =>
    if maxDigits < n.significantDigits then
      .error (.range (.tooManyDigits n.text n.significantDigits))
    else if inRange (Binary64.ofNumeral n) then
      .ok (padded keyWidth (decimal (shifted (Binary64.ofNumeral n))))
    else .error (.range (.outside n.text))

/-- The number that decimal digits spell. -/
def ofDecimal (ds : Bytes) : Nat := ds.foldl (fun n b => n * 10 + (b.toNat - 0x30)) 0

/-- The key of the number that the bytes spell. -/
def key (v : Bytes) : Except MatchError Nat := (canonical v).map ofDecimal

/-- The last `width` decimal digits of a number, with zeros in front. -/
def lastDigits : (width : Nat) → Nat → Bytes
  | 0, _ => []
  | width + 1, n => lastDigits width (n / 10) ++ [UInt8.ofNat (0x30 + n % 10)]

/-- The last `keyWidth` digits of a key, with zeros in front. -/
def keyDigits (key : Nat) : Bytes := lastDigits keyWidth key

end EventMatch.Numeral
