import EventMatch.Rational
import EventMatch.Text.Bytes

/-!
# Decimal numerals

A numeral is an optional minus, a whole part, an optional fraction and an
optional exponent. `Numeral.parse?` reads the bytes of one and
`Numeral.spelling` writes them; both keep every detail of the spelling.
`Numeral.plainText` removes the details that do not change what is meant: the
case of the exponent mark and a plus after it.
-/

namespace EventMatch

/-- A decimal digit. -/
abbrev Digit := Fin 10

namespace Digit

/-- The ASCII byte of a digit. -/
def byte (d : Digit) : UInt8 := UInt8.ofNat (0x30 + d.val)

/-- The digit that an ASCII byte stands for. -/
def ofByte? (b : UInt8) : Option Digit :=
  if h : 0x30 ≤ b.toNat ∧ b.toNat < 0x3A then some ⟨b.toNat - 0x30, by omega⟩ else none

end Digit

/-- One or more decimal digits. -/
structure Digits where
  first : Digit
  others : List Digit
deriving DecidableEq, Repr

namespace Digits

/-- The digits from left to right. -/
def toList (ds : Digits) : List Digit := ds.first :: ds.others

/-- The ASCII bytes of the digits. -/
def spelling (ds : Digits) : Bytes := ds.toList.map Digit.byte

/-- The number that a list of digits spells. -/
def valueOf (ds : List Digit) : Nat := ds.foldl (fun n d => n * 10 + d.val) 0

/-- The number that the digits spell. -/
def value (ds : Digits) : Nat := valueOf ds.toList

/-- Splits the digits off the front of a byte string. -/
def span : Bytes → List Digit × Bytes
  | [] => ([], [])
  | b :: v =>
    match Digit.ofByte? b with
    | some d => (d :: (span v).1, (span v).2)
    | none => ([], b :: v)

/-- Reads one or more digits, as many as there are. -/
def take? (v : Bytes) : Option (Digits × Bytes) :=
  match span v with
  | ([], _) => none
  | (d :: ds, rest) => some (⟨d, ds⟩, rest)

end Digits

/-- The sign written before an exponent. -/
inductive Sign where
  | plus
  | minus
deriving DecidableEq, Repr

/-- An exponent as it is written: whether the mark is a capital `E`, the sign
if there is one, and the digits. -/
structure Exponent where
  capital : Bool
  sign : Option Sign
  digits : Digits
deriving DecidableEq, Repr

namespace Exponent

/-- The bytes of an exponent's sign. -/
def signSpelling : Option Sign → Bytes
  | none => []
  | some .plus => [0x2B]
  | some .minus => [0x2D]

/-- The bytes of an exponent. -/
def spelling (e : Exponent) : Bytes :=
  (if e.capital then 0x45 else 0x65) :: (signSpelling e.sign ++ e.digits.spelling)

/-- The bytes of an exponent, if there is one. -/
def spellingOf : Option Exponent → Bytes
  | none => []
  | some e => e.spelling

/-- The power of ten. -/
def value (e : Exponent) : Int :=
  if e.sign = some .minus then -(e.digits.value : Int) else e.digits.value

/-- Reads a sign if there is one. -/
def takeSign : Bytes → Option Sign × Bytes
  | 0x2B :: rest => (some .plus, rest)
  | 0x2D :: rest => (some .minus, rest)
  | rest => (none, rest)

/-- Reads an exponent if the bytes go on with its mark. -/
def take? : Bytes → Option (Option Exponent × Bytes)
  | [] => some (none, [])
  | mark :: rest =>
    if mark = 0x65 ∨ mark = 0x45 then
      (Digits.take? (takeSign rest).2).map fun (digits, after) =>
        (some ⟨mark = 0x45, (takeSign rest).1, digits⟩, after)
    else some (none, mark :: rest)

end Exponent

/-- A decimal numeral as it is written. -/
structure Numeral where
  negative : Bool
  whole : Digits
  fraction : Option Digits
  exponent : Option Exponent
deriving DecidableEq, Repr

namespace Numeral

/-- The bytes of a fraction with its point. -/
def fractionSpelling : Option Digits → Bytes
  | none => []
  | some ds => 0x2E :: ds.spelling

/-- The bytes of a numeral. -/
def spelling (n : Numeral) : Bytes :=
  (if n.negative then [0x2D] else []) ++ n.whole.spelling ++ fractionSpelling n.fraction ++
    Exponent.spellingOf n.exponent

/-- Reads a fraction if the bytes go on with a point. -/
def takeFraction? : Bytes → Option (Option Digits × Bytes)
  | 0x2E :: rest => (Digits.take? rest).map fun (ds, rest) => (some ds, rest)
  | rest => some (none, rest)

/-- Reads a minus if there is one. -/
def takeMinus : Bytes → Bool × Bytes
  | 0x2D :: rest => (true, rest)
  | rest => (false, rest)

/-- The numeral that the bytes spell, if they spell one and nothing else. -/
def parse? (v : Bytes) : Option Numeral := do
  let (negative, v) := takeMinus v
  let (whole, v) ← Digits.take? v
  let (fraction, v) ← takeFraction? v
  let (exponent, v) ← Exponent.take? v
  if v.isEmpty then some { negative, whole, fraction, exponent } else none

/-- The digits of the whole part and of the fraction. -/
def digits (n : Numeral) : List Digit :=
  n.whole.toList ++ (n.fraction.map Digits.toList).getD []

/-- How many digits there are from the first one that is not zero. -/
def significantDigits (n : Numeral) : Nat := (n.digits.dropWhile fun d => d.val == 0).length

/-- The number that the digits spell without point and exponent. -/
def coefficient (n : Numeral) : Nat := Digits.valueOf n.digits

/-- The power of ten by which the coefficient is scaled. -/
def scale (n : Numeral) : Int :=
  (n.exponent.map Exponent.value).getD 0 - ((n.fraction.map Digits.toList).getD []).length

/-- The exact value without its sign. -/
def magnitude (n : Numeral) : Rat := (n.coefficient : Rat) * power 10 n.scale

/-- The exact value. -/
def toRat (n : Numeral) : Rat := if n.negative then -n.magnitude else n.magnitude

/-- The same numeral with a small exponent mark and an explicit sign after it. -/
def withSignedExponent (n : Numeral) : Numeral :=
  { n with exponent := n.exponent.map fun e =>
      { e with capital := false, sign := some (e.sign.getD .plus) } }

/-- The numeral as text. -/
def text (n : Numeral) : String := String.ofList (n.spelling.map fun b => Char.ofNat b.toNat)

/-- Whether the bytes spell a numeral. -/
def isNumeral (v : Bytes) : Bool := (parse? v).isSome

/-- The plain spelling of the bytes that follow an exponent mark, if `afterMark`,
or any other byte. -/
def plainFrom (afterMark : Bool) : Bytes → Bytes
  | [] => []
  | b :: v =>
    if b = 0x65 ∨ b = 0x45 then 0x65 :: plainFrom true v
    else if b = 0x2B ∧ afterMark then plainFrom false v
    else b :: plainFrom false v

/-- The spelling in which numerals are compared as text: every exponent mark is
a small `e`, and no plus follows it. It is defined on all bytes. -/
def plainText (v : Bytes) : Bytes := plainFrom false v

end Numeral

end EventMatch
