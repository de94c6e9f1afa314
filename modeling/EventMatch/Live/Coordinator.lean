import EventMatch.Live.LiveSet
import EventMatch.Live.Report

/-!
# The coordinator

The coordinator owns the live set. Accepted mutations wait until a trigger; then
the live set and the waiting batch go into a rebuild, which folds the batch,
compiles the outcome and, when it is done, publishes the new matcher. A trigger
during a rebuild, or with nothing waiting, does nothing. A failed rebuild ends
the coordinator and publishes nothing, and so does cancellation; from then on
nothing changes any more.

A rebuild ends with a matcher or with the error of a pattern. One that breaks
down itself, because a spec parser does, is left out: it would end the
coordinator with an error as a failed one does, but without a report.
-/

namespace EventMatch

/-- What the coordinator is doing: nothing, while it holds the live set, or a
rebuild of the live set `base` with a batch. -/
inductive Work (ι : Type) where
  | idle (live : LiveSet ι)
  | rebuilding (base : LiveSet ι) (batch : List (Mutation ι))

/-- The state of the coordinator. -/
structure Coordinator (ι : Type) where
  /-- Configures every matcher that is built. -/
  template : Matcher ι
  /-- The matcher that queries see. -/
  published : Matcher ι
  work : Work ι
  /-- Accepted mutations that no rebuild has taken yet, in order. -/
  pending : List (Mutation ι)
  reports : ReportQueue
  /-- How the coordinator ended, once it has. -/
  outcome : Option (Except MatchError Unit)

/-- What happens to the coordinator. -/
inductive Signal (ι : Type) where
  /-- A mutation arrives. -/
  | accept (m : Mutation ι)
  /-- The policy wants a rebuild. -/
  | trigger
  /-- The rebuild is done; the spec parser had been asked `asked` times when it
  began to compile. -/
  | finish (asked : Nat)
  | cancel

namespace Coordinator

variable {ι : Type}

/-- The coordinator at the start: nothing is live and nothing published. The
template's patterns are ignored. -/
def start (template : Matcher ι) (reportCapacity : Option Nat) : Coordinator ι where
  template := template.emptyLike
  published := template.emptyLike
  work := .idle {}
  pending := []
  reports := { capacity := reportCapacity }
  outcome := none

/-- Whether the coordinator still takes signals. -/
def isRunning (c : Coordinator ι) : Bool := c.outcome.isNone

/-- Queues a mutation. -/
def accept (c : Coordinator ι) (m : Mutation ι) : Coordinator ι :=
  { c with pending := c.pending ++ [m] }

/-- Starts a rebuild of everything pending, if there is something and no rebuild
is on the way. -/
def trigger (c : Coordinator ι) : Coordinator ι :=
  match c.work with
  | .rebuilding _ _ => c
  | .idle live =>
    if c.pending.isEmpty then c else { c with work := .rebuilding live c.pending, pending := [] }

/-- What the rebuild on the way compiles, if there is one. -/
def rebuilding? [BEq ι] (c : Coordinator ι) : Option (LiveSet ι) :=
  match c.work with
  | .idle _ => none
  | .rebuilding base batch => some (base.fold batch)

/-- Compiles a live set when the spec parser has been asked `asked` times. -/
def compile [BEq ι] (c : Coordinator ι) (live : LiveSet ι) (asked : Nat) :
    Except MatchError Unit × Matcher ι :=
  live.compile { c.template with supply := { c.template.supply with asked } }

/-- Takes in the outcome of a rebuild. -/
def settle (c : Coordinator ι) (live : LiveSet ι) :
    Except MatchError Unit × Matcher ι → Coordinator ι
  | (.ok (), m) =>
    { c with
      work := .idle live
      published := m
      reports := c.reports.push ⟨live.size, none⟩ }
  | (.error e, _) =>
    { c with
      work := .idle live
      reports := c.reports.push ⟨live.size, some e⟩
      outcome := some (.error (.rebuild e)) }

/-- Finishes the rebuild on the way, if there is one. With the coordinator comes
how often the spec parser has been asked in the end. -/
def finish [BEq ι] (c : Coordinator ι) (asked : Nat) : Coordinator ι × Nat :=
  match c.rebuilding? with
  | none => (c, asked)
  | some live =>
    let result := c.compile live asked
    (c.settle live result, result.2.supply.asked)

/-- Ends the coordinator; a rebuild on the way and what is pending are lost. -/
def cancel (c : Coordinator ι) : Coordinator ι := { c with outcome := some (.ok ()) }

/-- What a signal does. After the end it does nothing. -/
def step [BEq ι] (c : Coordinator ι) (s : Signal ι) : Coordinator ι :=
  if c.isRunning then
    match s with
    | .accept m => c.accept m
    | .trigger => c.trigger
    | .finish asked => (c.finish asked).1
    | .cancel => c.cancel
  else c

/-- What signals do one after the other. -/
def run [BEq ι] (c : Coordinator ι) (signals : List (Signal ι)) : Coordinator ι :=
  signals.foldl step c

theorem run_append [BEq ι] (c : Coordinator ι) (front back : List (Signal ι)) :
    c.run (front ++ back) = (c.run front).run back := List.foldl_append

/-- A signal changes nothing after the end. -/
theorem step_of_not_isRunning [BEq ι] {c : Coordinator ι} (h : c.isRunning = false)
    (s : Signal ι) : c.step s = c := by
  simp [step, h]

end Coordinator

end EventMatch
