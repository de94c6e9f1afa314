import EventMatch.Automaton.RangeTable

/-!
# Automata

An automaton reads a value byte by byte. A state may have exits, which are
reached as soon as the state is; they are of any type `β`. An automaton is given
by the table of its start, so the start has no exits.

Every state bears a label. Labels tell states apart: two states are the same
state if and only if their labels are the same, whatever their tables hold.
States are made with labels that were not used before (`Fresh`).
-/

namespace EventMatch

/-- Stands after every value. No valid UTF-8 holds this byte. -/
def terminator : UInt8 := 0xF5

/-- Stands before the digits of a key, so that keys are told from text. No valid
UTF-8 holds this byte. -/
def numberMark : UInt8 := 0xF6

/-- Computations that use up labels; the state is the next unused one. -/
abbrev Fresh := StateM Nat

/-- A label that was not used before. -/
def newLabel : Fresh Nat := modifyGet fun n => (n, n + 1)

/-- A state of an automaton. -/
inductive State (β : Type) where
  | mk (label : Nat) (table : RangeTable (State β)) (exits : List β)

namespace State

variable {β : Type}

/-- The label that tells the state from others. -/
def label : State β → Nat
  | mk label _ _ => label

/-- Where the state goes on each byte. -/
def table : State β → RangeTable (State β)
  | mk _ table _ => table

/-- What is reached with the state. -/
def exits : State β → List β
  | mk _ _ exits => exits

/-- States are the same if their labels are. -/
instance : BEq (State β) := ⟨fun s t => s.label == t.label⟩

/-- A new state without exits. -/
def ofTable (table : RangeTable (State β)) : Fresh (State β) :=
  return mk (← newLabel) table []

/-- A new state with one exit that goes nowhere. -/
def final (exit : β) : Fresh (State β) := return mk (← newLabel) .empty [exit]

end State

/-- An automaton: the table of its start. -/
abbrev Automaton (β : Type) := RangeTable (State β)

namespace Automaton

variable {β : Type}

/-- The exits of all states on the way along some bytes. The way ends where a
byte has no target. -/
def exitsAlong (t : Automaton β) : Bytes → List β
  | [] => []
  | b :: v =>
    match t.step b with
    | none => []
    | some s => s.exits ++ exitsAlong s.table v

/-- What a value reaches: the exits on the way along the value and the terminator. -/
def run (t : Automaton β) (v : Bytes) : List β := t.exitsAlong (v ++ [terminator])

/-- The state that some bytes lead to from a table, if they are not empty and the
way does not end before. -/
def stateAt? (t : Automaton β) : Bytes → Option (State β)
  | [] => none
  | [b] => t.step b
  | b :: v => (t.step b).bind fun s => stateAt? s.table v

end Automaton

end EventMatch
