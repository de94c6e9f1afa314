import EventMatch.Error

/-!
# Reports of rebuilds

Each finished rebuild is reported. Reports wait in a queue of bounded capacity
until they are read; one that does not fit, or that nobody can read any more, is
dropped.
-/

namespace EventMatch

/-- The outcome of a rebuild: how many patterns were live, and the error if it
failed. -/
structure Report where
  liveSize : Nat
  error : Option MatchError

/-- The reports not read yet, oldest first. Without a capacity reports are disabled. -/
structure ReportQueue where
  capacity : Option Nat
  reports : List Report := []
  /-- Whether the reading end is still there. -/
  hasReader : Bool := true

namespace ReportQueue

/-- Whether another report can be queued. -/
def hasRoom (q : ReportQueue) : Bool :=
  match q.capacity with
  | none => false
  | some c => q.hasReader && q.reports.length < max 1 c

/-- Queues a report, or drops it. -/
def push (q : ReportQueue) (r : Report) : ReportQueue :=
  if q.hasRoom then { q with reports := q.reports ++ [r] } else q

/-- Takes all reports out. -/
def drain (q : ReportQueue) : List Report × ReportQueue := (q.reports, { q with reports := [] })

/-- Drops the reading end, with the reports not read. -/
def dropReader (q : ReportQueue) : ReportQueue := { q with reports := [], hasReader := false }

end ReportQueue

end EventMatch
