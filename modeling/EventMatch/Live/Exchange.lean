import EventMatch.Live.Coordinator
import EventMatch.Live.Mailbox

/-!
# Callers and the coordinator

An exchange is the coordinator together with the calls made to it. Whatever its
callers, their cancellation tokens and the coordinator do, and in whatever
order, is a list of actions, of which each is done by `Exchange.step`.

A call passes through stages. It waits until its letter is received; then it is
acknowledged, which its caller has yet to notice. A caller that gives up before
noticing is told that the call was cancelled, although the letter may have been
received already or may be received later. A caller that has been told something
is told nothing more.
-/

namespace EventMatch

/-- How far a call has come. -/
inductive CallStage where
  | waiting
  | acknowledged
  | answered (answer : Except MatchError Unit)

/-- The coordinator and all calls made so far. A call's ticket is its place
among the calls. -/
structure Exchange (ι : Type) where
  coordinator : Coordinator ι
  mailbox : Mailbox ι := {}
  calls : List CallStage := []
  /-- The letters received, in order. -/
  received : List (Letter ι) := []
  /-- How many specs the parser has been given, by checks and rebuilds. -/
  asked : Nat := 0

/-- What callers and the coordinator do. -/
inductive Action (ι : Type) where
  /-- A caller adds a pattern; its token may have been cancelled before. -/
  | add (id : ι) (text : String) (isCancelled : Bool)
  /-- A caller deletes an identifier's patterns. -/
  | delete (id : ι) (isCancelled : Bool)
  /-- A waiting caller's token is cancelled. -/
  | giveUp (ticket : Nat)
  /-- A caller looks whether its call was acknowledged or the mailbox closed. -/
  | notice (ticket : Nat)
  /-- The first caller in line finds the slot free and puts its letter there. -/
  | advance
  /-- The coordinator takes the letter in the slot. -/
  | receive
  | trigger
  /-- The rebuild on the way is done. -/
  | finish
  /-- The coordinator is cancelled. -/
  | cancel

namespace Exchange

variable {ι : Type}

/-- The exchange before the first call. -/
def start (template : Matcher ι) (reportCapacity : Option Nat) : Exchange ι where
  coordinator := .start template reportCapacity
  asked := template.supply.asked

/-- The mutations accepted so far, in order. -/
def accepted (x : Exchange ι) : List (Mutation ι) := x.received.map Letter.mutation

/-- A call that is answered at once. -/
def answer (x : Exchange ι) (a : Except MatchError Unit) : Exchange ι :=
  { x with calls := x.calls ++ [.answered a] }

/-- A call with a mutation: it is refused if its token has been cancelled or the
coordinator has ended, and else its letter is sent. -/
def submit (x : Exchange ι) (m : Mutation ι) (isCancelled : Bool) : Exchange ι :=
  if isCancelled then x.answer (.error .cancelled)
  else if x.mailbox.isOpen then
    { x with calls := x.calls ++ [.waiting], mailbox := x.mailbox.send ⟨x.calls.length, m⟩ }
  else x.answer (.error .closed)

/-- The template, whose spec parser has been asked as often as the exchange's. -/
def template (x : Exchange ι) : Matcher ι :=
  let t := x.coordinator.template
  { t with supply := { t.supply with asked := x.asked } }

/-- A call that adds a pattern. It is first compiled alone, and a fault in it is
reported before all else. -/
def add [BEq ι] (x : Exchange ι) (id : ι) (text : String) (isCancelled : Bool) : Exchange ι :=
  match x.template.emptyLike.add id text with
  | (.error e, m) => { x with asked := m.supply.asked }.answer (.error e)
  | (.ok (), m) => { x with asked := m.supply.asked }.submit (.add id text) isCancelled

/-- A caller's token is cancelled while the call is not answered. A letter in
line is withdrawn, one in the slot is not. -/
def giveUp (x : Exchange ι) (ticket : Nat) : Exchange ι :=
  match x.calls[ticket]? with
  | some .waiting | some .acknowledged =>
    { x with
      calls := x.calls.set ticket (.answered (.error .cancelled))
      mailbox := x.mailbox.withdraw ticket }
  | _ => x

/-- A caller looks at its call. -/
def notice (x : Exchange ι) (ticket : Nat) : Exchange ι :=
  match x.calls[ticket]? with
  | some .acknowledged => { x with calls := x.calls.set ticket (.answered (.ok ())) }
  | some .waiting =>
    if x.mailbox.isOpen then x
    else { x with calls := x.calls.set ticket (.answered (.error .closed)) }
  | _ => x

/-- The first letter in line goes into the slot. -/
def advance (x : Exchange ι) : Exchange ι := { x with mailbox := x.mailbox.advance }

/-- Marks a waiting call as acknowledged; its caller may have given up. -/
def acknowledge (x : Exchange ι) (ticket : Nat) : Exchange ι :=
  match x.calls[ticket]? with
  | some .waiting => { x with calls := x.calls.set ticket .acknowledged }
  | _ => x

/-- Goes on with the coordinator after a signal. When it ends, the mailbox closes. -/
def withCoordinator (x : Exchange ι) (c : Coordinator ι) : Exchange ι :=
  { x with coordinator := c, mailbox := if c.isRunning then x.mailbox else .closed }

/-- The coordinator takes the letter in the slot, if there is one. -/
def receive [BEq ι] (x : Exchange ι) : Exchange ι :=
  match x.mailbox.receive? with
  | none => x
  | some (l, mailbox) =>
    { x with
      coordinator := x.coordinator.step (.accept l.mutation)
      mailbox
      received := x.received ++ [l] }.acknowledge l.ticket

/-- The rebuild on the way is done. -/
def finish [BEq ι] (x : Exchange ι) : Exchange ι :=
  if x.coordinator.isRunning then
    let (c, asked) := x.coordinator.finish x.asked
    { x.withCoordinator c with asked }
  else x

/-- Does one action. -/
def step [BEq ι] (x : Exchange ι) : Action ι → Exchange ι
  | .add id text isCancelled => x.add id text isCancelled
  | .delete id isCancelled => x.submit (.delete id) isCancelled
  | .giveUp ticket => x.giveUp ticket
  | .notice ticket => x.notice ticket
  | .advance => x.advance
  | .receive => x.receive
  | .trigger => x.withCoordinator (x.coordinator.step .trigger)
  | .finish => x.finish
  | .cancel => x.withCoordinator (x.coordinator.step .cancel)

/-- Does actions one after the other. -/
def run [BEq ι] (x : Exchange ι) (actions : List (Action ι)) : Exchange ι := actions.foldl step x

theorem run_append [BEq ι] (x : Exchange ι) (front back : List (Action ι)) :
    x.run (front ++ back) = (x.run front).run back := List.foldl_append

end Exchange

end EventMatch
