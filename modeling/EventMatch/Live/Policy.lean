/-!
# When to rebuild

Durations are counted in microseconds.
-/

namespace EventMatch

/-- A millisecond. -/
def millisecond : Nat := 1000

/-- Triggers at a fixed tempo. -/
structure Tempo where
  period : Nat
deriving DecidableEq, Repr

namespace Tempo

/-- The tempo of a period, which is raised to a millisecond if it is shorter. -/
def ofPeriod (period : Nat) : Tempo := ⟨max period millisecond⟩

/-- One trigger a second. -/
def default : Tempo := ofPeriod (1000 * millisecond)

/-- How many triggers come up to a moment, counted from the start. The first
comes one period after the start. -/
def ticksUntil (t : Tempo) (moment : Nat) : Nat := moment / t.period

end Tempo

/-- When rebuilds are triggered. -/
inductive Policy where
  /-- Only by hand. -/
  | manual
  | tempo (t : Tempo)
deriving DecidableEq, Repr

/-- The settings of the coordinator. -/
structure RebuildConfig where
  /-- How many mutations the buffer between rebuilds has room for at first. -/
  batchCapacity : Nat := 1024
  /-- How many reports may wait to be read; none if reports are disabled. -/
  reportCapacity : Option Nat := none
deriving DecidableEq, Repr

namespace RebuildConfig

/-- Sets the first size of the buffer. -/
def withBatchCapacity (c : RebuildConfig) (capacity : Nat) : RebuildConfig :=
  { c with batchCapacity := capacity }

/-- Enables reports. At least one may wait. -/
def withReports (c : RebuildConfig) (capacity : Nat) : RebuildConfig :=
  { c with reportCapacity := some (max 1 capacity) }

end RebuildConfig

end EventMatch
