import EventMatch.Text.Bytes

/-!
# Range tables

A map from bytes to optional targets, kept as runs of neighbouring bytes with
one target. Each run records its ceiling, the first byte value above it; the
runs cover the byte values from 0 up to `byteCount`. Neighbouring runs with the
same target are joined (`Run.cons`), so a table that this module builds has as
few runs as possible, and tables with the same steps have the same runs.

`==` on targets decides which are the same.
-/

namespace EventMatch

/-- The number of byte values; the ceiling of every table's last run. -/
def byteCount : Nat := 256

/-- The byte values below `ceiling` and not below the ceiling of the run before. -/
structure Run (α : Type) where
  ceiling : Nat
  target : Option α
deriving DecidableEq, Repr

namespace Run

/-- Puts a run before those above it; it is joined to the first of them if both
have the same target. -/
def cons {α : Type} [BEq α] (r : Run α) : List (Run α) → List (Run α)
  | [] => [r]
  | s :: runs => if r.target == s.target then ⟨s.ceiling, r.target⟩ :: runs else r :: s :: runs

/-- Puts several runs before those above them. -/
def append {α : Type} [BEq α] (front runs : List (Run α)) : List (Run α) := front.foldr cons runs

end Run

/-- A map from bytes to optional targets, as runs. -/
structure RangeTable (α : Type) where
  runs : List (Run α)
deriving DecidableEq, Repr

namespace RangeTable

variable {α : Type}

/-- The table without targets. -/
def empty : RangeTable α := ⟨[⟨byteCount, none⟩]⟩

/-- The table in which every byte has one target. -/
def uniform (a : α) : RangeTable α := ⟨[⟨byteCount, some a⟩]⟩

/-- The target of a byte. -/
def step (t : RangeTable α) (b : UInt8) : Option α :=
  (t.runs.find? fun r => b.toNat < r.ceiling).bind Run.target

@[simp]
theorem step_empty (b : UInt8) : (empty : RangeTable α).step b = none := by
  simp only [step, empty, byteCount, List.find?_cons, List.find?_nil]
  split <;> rfl

@[simp]
theorem step_uniform (a : α) (b : UInt8) : (uniform a).step b = some a := by
  have hb : b.toNat < byteCount := UInt8.toNat_lt b
  simp [step, uniform, hb]

/-- Whether no byte has a target. -/
def isEmpty (t : RangeTable α) : Bool := t.runs.all fun r => r.target.isNone

/-- The number of runs. -/
def size (t : RangeTable α) : Nat := t.runs.length

/-- The runs from one with the given floor on, each with its floor. -/
def spansFrom (floor : Nat) : List (Run α) → List (Nat × Nat × Option α)
  | [] => []
  | r :: runs => (floor, r.ceiling, r.target) :: spansFrom r.ceiling runs

/-- Each run's floor, ceiling and target. -/
def spans (t : RangeTable α) : List (Nat × Nat × Option α) := spansFrom 0 t.runs

/-- The targets of the byte values in runs from `floor` on, in order. -/
def targetsFrom (floor : Nat) : List (Run α) → List (Option α)
  | [] => []
  | r :: runs => List.replicate (r.ceiling - floor) r.target ++ targetsFrom r.ceiling runs

/-- The target of every byte value, in order. -/
def unpack (t : RangeTable α) : List (Option α) := targetsFrom 0 t.runs

/-- What becomes of a run from `floor` on when the byte values from `lo` up to
`hi` get a new target: the parts outside keep theirs. -/
def split (lo hi : Nat) (a : α) (floor : Nat) (r : Run α) : List (Run α) :=
  if r.ceiling ≤ lo ∨ hi ≤ floor then [r]
  else
    (if floor < lo then [⟨lo, r.target⟩] else []) ++
      ⟨min r.ceiling hi, some a⟩ :: (if hi < r.ceiling then [r] else [])

/-- Gives a new target to the byte values from `lo` up to `hi` in runs from `floor` on. -/
def setRuns [BEq α] (lo hi : Nat) (a : α) (floor : Nat) : List (Run α) → List (Run α)
  | [] => []
  | r :: runs => Run.append (split lo hi a floor r) (setRuns lo hi a r.ceiling runs)

/-- Gives a target to the byte values from `lo` up to `hi`, the latter excluded. -/
def setRange [BEq α] (t : RangeTable α) (lo hi : Nat) (a : α) : RangeTable α :=
  ⟨setRuns lo hi a 0 t.runs⟩

/-- Gives a target to one byte. -/
def setByte [BEq α] (t : RangeTable α) (b : UInt8) (a : α) : RangeTable α :=
  t.setRange b.toNat (b.toNat + 1) a

/-- Targets of the byte values from `floor` on, as runs of one byte each. -/
def singles (floor : Nat) : List (Option α) → List (Run α)
  | [] => []
  | x :: targets => ⟨floor + 1, x⟩ :: singles (floor + 1) targets

/-- The table of a list with one target for each byte value. -/
def pack [BEq α] (targets : List (Option α)) : RangeTable α := ⟨Run.append (singles 0 targets) []⟩

/-- The table of a function on bytes. -/
def ofFunction [BEq α] (f : UInt8 → Option α) : RangeTable α :=
  ⟨Run.append ((List.range byteCount).map fun n => ⟨n + 1, f (UInt8.ofNat n)⟩) []⟩

end RangeTable

end EventMatch
