import EventMatch.Live.Exchange
import EventMatch.Live.Policy

/-!
# A live matcher at work

A service drives an exchange one request at a time: once it is started, the
coordinator takes letters at once, the policy triggers it as the clock goes on,
and a rebuild is done before the next request unless it is held up. A hold keeps
rebuilds from asking the spec parser, so one that has extension clauses to
compile stalls until the hold is released.
-/

namespace EventMatch

/-- The state of a caller's cancellation token. -/
inductive Token where
  /-- It is never cancelled. -/
  | live
  /-- It was cancelled before the call. -/
  | cancelled
  /-- It is cancelled if the caller has to wait. -/
  | late
deriving DecidableEq, Repr

/-- An exchange and what drives it. -/
structure Service (ι : Type) where
  exchange : Exchange ι
  policy : Policy
  /-- Whether the coordinator has been started. -/
  isStarted : Bool := false
  /-- Whether the coordinator has been told to stop, also before its start. -/
  isStopped : Bool := false
  /-- The time since the coordinator's start. -/
  clock : Nat := 0
  isHeld : Bool := false
  /-- A stalled rebuild that was on the way when the coordinator stopped. -/
  abandoned : Option (LiveSet ι) := none

namespace Service

variable {ι : Type} [BEq ι]

/-- A service that is not started. -/
def ofTemplate (template : Matcher ι) (config : RebuildConfig) (policy : Policy) : Service ι where
  exchange := .start template config.reportCapacity
  policy

/-- The coordinator. -/
def coordinator (s : Service ι) : Coordinator ι := s.exchange.coordinator

/-- Whether the coordinator has been started and has not ended. -/
def isRunning (s : Service ι) : Bool := s.isStarted && s.coordinator.isRunning

/-- Whether the coordinator has ended, so that mutations are refused. -/
def isClosed (s : Service ι) : Bool := !s.exchange.mailbox.isOpen

/-- How the coordinator ended, once it has. -/
def outcome (s : Service ι) : Option (Except MatchError Unit) := s.coordinator.outcome

/-- The matcher that queries see. -/
def published (s : Service ι) : Matcher ι := s.coordinator.published

/-- Whether a rebuild waits for the hold to be released. -/
def isStalled (s : Service ι) : Bool :=
  s.isRunning && s.isHeld && s.coordinator.rebuilding?.any LiveSet.asks

/-- Does an action. -/
def act (s : Service ι) (a : Action ι) : Service ι := { s with exchange := s.exchange.step a }

/-- Finishes the rebuild on the way unless it is stalled. -/
def settle (s : Service ι) : Service ι := if s.isRunning && !s.isStalled then s.act .finish else s

/-- Takes a letter and lets the next one into the slot. -/
def receive (s : Service ι) : Service ι := (s.act .receive).act .advance

/-- Takes all letters if the coordinator runs. -/
def receiveAll (s : Service ι) : Service ι :=
  if s.isRunning then Nat.repeat receive s.exchange.mailbox.letters.length s else s

/-- Starts the coordinator, if that was not done before. -/
def start (s : Service ι) : Service ι :=
  if s.isStarted then s
  else
    let s := { s with isStarted := true }
    if s.isStopped then s.act .cancel else s.receiveAll

/-- Makes a call and sees it through. The answer is missing if nobody takes the
letter and the caller goes on waiting. -/
def call (s : Service ι) (request : Bool → Action ι) (token : Token) :
    Option (Except MatchError Unit) × Service ι :=
  let ticket := s.exchange.calls.length
  let s := (s.act (request (token == .cancelled))).receiveAll.act (.notice ticket)
  let s := if token == .late then s.act (.giveUp ticket) else s
  match s.exchange.calls[ticket]? with
  | some (.answered a) => (some a, s)
  | _ => (none, s)

/-- Adds a pattern. -/
def add (s : Service ι) (id : ι) (text : String) (token : Token) :
    Option (Except MatchError Unit) × Service ι :=
  s.call (.add id text) token

/-- Removes all patterns of an identifier. -/
def delete (s : Service ι) (id : ι) (token : Token) :
    Option (Except MatchError Unit) × Service ι :=
  s.call (.delete id) token

/-- One trigger of the policy and the rebuild that comes of it. -/
def tick (s : Service ι) : Service ι := if s.isRunning then (s.act .trigger).settle else s

/-- Triggers by hand. A tempo cannot be triggered so. -/
def trigger (s : Service ι) : Service ι :=
  match s.policy with
  | .manual => s.tick
  | .tempo _ => s

/-- Lets the clock go on, with every trigger that comes on the way. -/
def advance (s : Service ι) (duration : Nat) : Service ι :=
  match s.policy with
  | .manual => s
  | .tempo t =>
    if s.isRunning then
      let ticks := t.ticksUntil (s.clock + duration) - t.ticksUntil s.clock
      { Nat.repeat tick ticks s with clock := s.clock + duration }
    else s

/-- Begins to hold up rebuilds that ask the spec parser. -/
def hold (s : Service ι) : Service ι := { s with isHeld := true }

/-- Ends the hold. A stalled rebuild goes on, also one that was abandoned, whose
matcher nobody takes. -/
def release (s : Service ι) : Service ι :=
  let s := { s with isHeld := false }
  match s.abandoned with
  | none => s.settle
  | some live =>
    let asked := (s.coordinator.compile live s.exchange.asked).2.supply.asked
    { s with exchange := { s.exchange with asked }, abandoned := none }

/-- Stops the coordinator, or keeps it from running once it is started. -/
def stop (s : Service ι) : Service ι :=
  if s.isRunning then
    { s.act .cancel with isStopped := true, abandoned := s.coordinator.rebuilding? }
  else { s with isStopped := true }

/-- The mutations that a policy triggered by hand was shown. A tempo pays them
no heed. -/
def observed (s : Service ι) : List (Mutation ι) :=
  match s.policy with
  | .manual => s.exchange.accepted
  | .tempo _ => []

/-- Takes the reports that wait. -/
def drainReports (s : Service ι) : List Report × Service ι :=
  let (reports, queue) := s.coordinator.reports.drain
  (reports,
    { s with exchange := { s.exchange with coordinator := { s.coordinator with reports := queue } } })

/-- The service in one line. -/
def describe (s : Service ι) : String :=
  "IncrementalMatcher \x7b published_patterns: " ++ toString s.published.size ++ ", closed: " ++
    toString s.isClosed ++ " \x7d"

end Service

end EventMatch
