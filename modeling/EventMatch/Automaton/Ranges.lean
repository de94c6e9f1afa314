import EventMatch.Automaton.Merge
import EventMatch.Numeric.Interval

/-!
# Automata of key ranges

`Automaton.ranges` accepts the digits of every key in a list of intervals. A
key's digits are compared with the bounds from the left: as long as they agree
with both bounds there is one way on, then they stay at the lower bound or at
the upper, and once they have left both, any digits may follow. The states for
any digits are shared by all intervals.
-/

namespace EventMatch.Automaton

variable {β : Type}

/-- The digit 0 as a byte value. -/
def digitZero : Nat := 0x30

/-- The byte value above the digit 9. -/
def digitCeiling : Nat := 0x3A

/-- States by the number of digits before them, of which the first accepts any
`width` digits and the end, the next one digit fewer, and the last only the end. -/
def anyDigits (last : State β) : (width : Nat) → Fresh (List (State β))
  | 0 => return [last]
  | width + 1 => do
    let states ← anyDigits last width
    let next := states.headD last
    return (← State.ofTable (RangeTable.empty.setRange digitZero digitCeiling next)) :: states

/-- A state for the digits that are at least those given, in numbers of the same
width. With each digit comes the state that accepts any digits after it. -/
def atLeast (last : State β) : List (UInt8 × State β) → Fresh (State β)
  | [] => return last
  | (d, free) :: rest => do
    let tight ← atLeast last rest
    let table := RangeTable.empty.setByte d tight
    State.ofTable (if d.toNat + 1 < digitCeiling then
      table.setRange (d.toNat + 1) digitCeiling free else table)

/-- A state for the digits that are at most those given, in numbers of the same width. -/
def atMost (last : State β) : List (UInt8 × State β) → Fresh (State β)
  | [] => return last
  | (d, free) :: rest => do
    let tight ← atMost last rest
    let table := if digitZero < d.toNat then
      RangeTable.empty.setRange digitZero d.toNat free else RangeTable.empty
    State.ofTable (table.setByte d tight)

/-- The table for the digits between two bounds of the same width. As long as the
bounds agree there is one way; from the first digit in which they differ on, a
number stays at the lower bound, at the upper, or between them. -/
def between (last : State β) : List (UInt8 × UInt8 × State β) → Fresh (Automaton β)
  | [] => return .empty
  | (l, h, free) :: rest =>
    if l = h then do
      let tight ← if rest.isEmpty then pure last else State.ofTable (← between last rest)
      return RangeTable.empty.setByte l tight
    else do
      let lower ← atLeast last (rest.map fun (l, _, free) => (l, free))
      let upper ← atMost last (rest.map fun (_, h, free) => (h, free))
      let table := RangeTable.empty.setByte l lower
      let table := if l.toNat + 1 < h.toNat then table.setRange (l.toNat + 1) h.toNat free else table
      return table.setByte h upper

/-- The table for the digits of the keys in an interval. The states in `free`
accept any digits from each position on. -/
def interval (i : KeyInterval) (last : State β) (free : List (State β)) : Fresh (Automaton β) :=
  between last ((Numeral.keyDigits i.lo).zip ((Numeral.keyDigits i.hi).zip free.tail))

/-- The automaton of the keys in the union of some intervals. They share the
states for free digits and the final state, and one memo. -/
def ranges [BEq β] (intervals : List KeyInterval) (exit : β) : Fresh (Automaton β) := do
  let final ← State.final exit
  let last ← State.ofTable (RangeTable.empty.setByte terminator final)
  let free ← anyDigits last Numeral.keyWidth
  let digits ← unionOf (interval · last free) intervals
  if digits.isEmpty then return .empty
  else return RangeTable.empty.setByte numberMark (← State.ofTable digits)

end EventMatch.Automaton
