import EventMatch.Text.Bytes

/-!
# Showing bytes that may not be text

An error message quotes bytes that need not be UTF-8. `Utf8.lossy` shows them
as text: every character that the bytes spell is kept, and every longest piece
that begins a character without completing it, or that begins none, becomes
one U+FFFD.
-/

namespace EventMatch.Utf8

/-- A character of which some bytes have been read: the bits so far, how many
bytes are missing, and the bounds of the next one. -/
structure Partial where
  bits : Nat
  missing : Nat
  lo : UInt8
  hi : UInt8

/-- What a lead byte announces: a character of two, three or four bytes. The
bounds of the second byte rule out overlong forms, surrogates and code points
above U+10FFFF. -/
def lead? (b : UInt8) : Option Partial :=
  if b < 0xC2 then none
  else if b < 0xE0 then some ⟨b.toNat - 0xC0, 1, 0x80, 0xBF⟩
  else if b < 0xF0 then
    some ⟨b.toNat - 0xE0, 2, if b = 0xE0 then 0xA0 else 0x80, if b = 0xED then 0x9F else 0xBF⟩
  else if b < 0xF5 then
    some ⟨b.toNat - 0xF0, 3, if b = 0xF0 then 0x90 else 0x80, if b = 0xF4 then 0x8F else 0xBF⟩
  else none

/-- The replacement character. -/
def replacement : Char := '\uFFFD'

/-- Reads a byte at a character's start: what is shown, and what is begun. -/
def start (b : UInt8) : List Char × Option Partial :=
  if b < 0x80 then ([Char.ofNat b.toNat], none)
  else match lead? b with
    | some p => ([], some p)
    | none => ([replacement], none)

/-- Reads one byte more: what is shown, and what is begun. -/
def next (p : Partial) (b : UInt8) : List Char × Option Partial :=
  if p.lo ≤ b ∧ b ≤ p.hi then
    let bits := p.bits * 64 + (b.toNat - 0x80)
    if p.missing = 1 then ([Char.ofNat bits], none) else ([], some ⟨bits, p.missing - 1, 0x80, 0xBF⟩)
  else
    let (shown, begun) := start b
    (replacement :: shown, begun)

/-- The characters shown for the bytes after those in `begun`. -/
def lossyFrom : Option Partial → Bytes → List Char
  | none, [] => []
  | some _, [] => [replacement]
  | none, b :: v => let (shown, begun) := start b; shown ++ lossyFrom begun v
  | some p, b :: v => let (shown, begun) := next p b; shown ++ lossyFrom begun v

/-- The text shown for any bytes; valid UTF-8 is shown as what it spells. -/
def lossy (v : Bytes) : String := String.ofList (lossyFrom none v)

end EventMatch.Utf8
