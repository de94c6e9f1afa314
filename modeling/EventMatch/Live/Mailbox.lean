import EventMatch.Live.LiveSet

/-!
# The mailbox of mutations

Callers hand mutations to the coordinator through a mailbox with a single slot.
While it is taken, further callers wait in line, and when it is free the first of
them is next. A caller who gives up leaves the line, but what lies in the slot
stays there and is still received. Closing the mailbox loses everything in it.
-/

namespace EventMatch

/-- A mutation on its way, with the number of the call that sent it. -/
structure Letter (ι : Type) where
  ticket : Nat
  mutation : Mutation ι
deriving DecidableEq, Repr

/-- The slot and the line behind it. -/
structure Mailbox (ι : Type) where
  slot : Option (Letter ι) := none
  line : List (Letter ι) := []
  isOpen : Bool := true

namespace Mailbox

variable {ι : Type}

/-- Moves the first of the line into the slot if that is free. -/
def advance (b : Mailbox ι) : Mailbox ι :=
  match b.slot, b.line with
  | none, l :: line => { b with slot := some l, line }
  | _, _ => b

/-- Hands a letter in. It goes into the slot if that is free and nobody waits, and
else to the end of the line. -/
def send (b : Mailbox ι) (l : Letter ι) : Mailbox ι :=
  match b.slot, b.line with
  | none, [] => { b with slot := some l }
  | _, line => { b with line := line ++ [l] }

/-- A caller gives up waiting in line. -/
def withdraw (b : Mailbox ι) (ticket : Nat) : Mailbox ι :=
  { b with line := b.line.filter fun l => l.ticket != ticket }

/-- Takes the letter out of the slot. -/
def receive? (b : Mailbox ι) : Option (Letter ι × Mailbox ι) :=
  b.slot.map fun l => (l, { b with slot := none })

/-- A closed mailbox, which is empty. -/
def closed : Mailbox ι := { isOpen := false }

/-- The letters in the slot and in line, in the order in which they are received. -/
def letters (b : Mailbox ι) : List (Letter ι) := b.slot.toList ++ b.line

/-! ## What is in a mailbox -/

section

variable (b : Mailbox ι) (l : Letter ι) (ticket : Nat)

/-- Letters keep their places as they move up. -/
@[simp]
theorem letters_advance : b.advance.letters = b.letters := by
  obtain ⟨slot, line, _⟩ := b
  cases slot <;> cases line <;> rfl

@[simp]
theorem isOpen_advance : b.advance.isOpen = b.isOpen := by
  obtain ⟨slot, line, _⟩ := b
  cases slot <;> cases line <;> rfl

/-- A new letter comes last. -/
@[simp]
theorem letters_send : (b.send l).letters = b.letters ++ [l] := by
  obtain ⟨slot, line, _⟩ := b
  cases slot <;> cases line <;> simp [send, letters]

@[simp]
theorem isOpen_send : (b.send l).isOpen = b.isOpen := by
  obtain ⟨slot, line, _⟩ := b
  cases slot <;> cases line <;> rfl

theorem letters_withdraw_sublist : (b.withdraw ticket).letters.Sublist b.letters :=
  (List.Sublist.refl b.slot.toList).append List.filter_sublist

/-- A taken slot is left alone by letters that come in. -/
theorem slot_send_of_some {m : Letter ι} (h : b.slot = some m) : (b.send l).slot = some m := by
  simp [send, h]

theorem slot_advance_of_some {m : Letter ι} (h : b.slot = some m) : b.advance.slot = some m := by
  simp [advance, h]

end

end Mailbox

end EventMatch
