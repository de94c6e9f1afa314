import EventMatch.Automaton.State

/-!
# Automata of single values

`Automaton.literal` accepts one byte string, and `Automaton.number` the digits of
one key. Both are chains of states.
-/

namespace EventMatch.Automaton

variable {β : Type}

/-- The automaton of the single value `v`. It is built from its end. -/
def literal (v : Bytes) (exit : β) : Fresh (Automaton β) := do
  let final ← State.final exit
  v.foldrM (fun b t => return RangeTable.empty.setByte b (← State.ofTable t))
    (RangeTable.empty.setByte terminator final)

/-- The automaton of the key with the given digits. -/
def number (digits : Bytes) (exit : β) : Fresh (Automaton β) := literal (numberMark :: digits) exit

end EventMatch.Automaton
