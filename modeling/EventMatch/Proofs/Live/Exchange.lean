import EventMatch.Live.Exchange
import EventMatch.Proofs.Live.Coordinator
import EventMatch.Proofs.Matcher.Alone

/-!
# What an action comes to

`Exchange.effect_step` says once what an action can do to an exchange, and all
invariants are read off it:

* `Tied.run`: the mailbox is open as long as the coordinator runs, and a closed one
  is empty;
* `coordinator_run`, `Tied.accepted_run`: what the coordinator has been told, and that the
  mutations it accepted are those of the letters received;
* `Effect.posted_sublist`: letters come in at the end, keep their places and may get
  lost.
-/

namespace EventMatch

/-- What comes out of a run, if each step has an output. -/
def outputs {σ α β : Type} (step : σ → α → σ) (output : σ → α → List β) (s : σ) : List α → List β
  | [] => []
  | a :: as => output s a ++ outputs step output (step s a) as

theorem outputs_append {σ α β : Type} (step : σ → α → σ) (output : σ → α → List β) (s : σ) (front back : List α) :
    outputs step output s (front ++ back) =
      outputs step output s front ++ outputs step output (front.foldl step s) back := by
  induction front generalizing s with
  | nil => rfl
  | cons a front ih => simp [outputs, ih]

variable {ι : Type}

/-- What a call asks for, and whether its token was cancelled before. -/
structure Request (ι : Type) where
  mutation : Mutation ι
  isCancelled : Bool
deriving DecidableEq, Repr

/-- The request of a call. -/
def Action.request? : Action ι → Option (Request ι)
  | .add id text isCancelled => some ⟨.add id text, isCancelled⟩
  | .delete id isCancelled => some ⟨.delete id, isCancelled⟩
  | .giveUp _ | .notice _ | .advance | .receive | .trigger | .finish | .cancel => none

variable [BEq ι]

namespace Coordinator

variable {c : Coordinator ι}

theorem accepted_eq_outputs (c : Coordinator ι) (signals : List (Signal ι)) :
    c.accepted signals = outputs step acceptedBy c signals := by
  induction signals generalizing c with
  | nil => rfl
  | cons s signals ih => rw [accepted, outputs, ih]

theorem accepted_append (c : Coordinator ι) (front back : List (Signal ι)) :
    c.accepted (front ++ back) = c.accepted front ++ (c.run front).accepted back := by
  simp only [accepted_eq_outputs, outputs_append, run]

/-- Nothing changes any more after the end. -/
theorem run_of_not_isRunning (h : c.isRunning = false) (signals : List (Signal ι)) : c.run signals = c := by
  induction signals with
  | nil => rfl
  | cons s signals ih =>
    rw [run, List.foldl_cons, step_of_not_isRunning h]
    exact ih

/-- A coordinator that has ended does not come back. -/
theorem isRunning_of_run {signals : List (Signal ι)} (h : (c.run signals).isRunning = true) : c.isRunning = true := by
  by_contra hc
  rw [run_of_not_isRunning (Bool.eq_false_of_not_eq_true hc)] at h
  exact hc h

@[simp]
theorem isRunning_step_accept (m : Mutation ι) : (c.step (.accept m)).isRunning = c.isRunning := by
  cases hc : c.isRunning with
  | true =>
    rw [step_of_isRunning hc]
    exact hc
  | false => rw [step_of_not_isRunning hc, hc]

/-- The template stays. -/
theorem Change.template_eq {s : Signal ι} {c' : Coordinator ι} (h : Change c s c') : c'.template = c.template := by
  cases h <;> rfl

theorem template_run (signals : List (Signal ι)) : (c.run signals).template = c.template := by
  induction signals generalizing c with
  | nil => rfl
  | cons s signals ih =>
    rw [run, List.foldl_cons]
    exact ih.trans (c.change_step s).template_eq

end Coordinator

namespace Exchange

/-! ## Calls -/

/-- The check of a mutation before it is sent: a text is compiled alone. -/
def check (x : Exchange ι) : Mutation ι → Except MatchError Unit
  | .add id text => (x.coordinator.template.alone x.asked id text).1
  | .delete _ => .ok ()

/-- The error with which a request is turned down at once. A fault in the text comes
before a cancelled token, and this before the end of the coordinator. -/
def refusal? (x : Exchange ι) (r : Request ι) : Option MatchError :=
  match x.check r.mutation with
  | .error e => some e
  | .ok () => if r.isCancelled then some .cancelled else if x.mailbox.isOpen then none else some .closed

/-- A request goes through if its text compiles alone, its token is not cancelled and the
mailbox is open. -/
theorem refusal?_eq_none {x : Exchange ι} {r : Request ι} :
    x.refusal? r = none ↔ x.check r.mutation = .ok () ∧ r.isCancelled = false ∧ x.mailbox.isOpen = true := by
  unfold refusal?
  split
  · rename_i h
    simp [h]
  · rename_i h
    cases r.isCancelled <;> cases x.mailbox.isOpen <;> simp [h]

/-- The letter that a call sends, unless it is turned down. -/
def sending (x : Exchange ι) (a : Action ι) : List (Letter ι) :=
  match a.request? with
  | some r => if (x.refusal? r).isNone then [⟨x.calls.length, r.mutation⟩] else []
  | none => []

/-- A letter is sent by a call that is not turned down. -/
theorem exists_of_mem_sending {x : Exchange ι} {a : Action ι} {l : Letter ι} (h : l ∈ x.sending a) :
    ∃ r, a.request? = some r ∧ x.refusal? r = none ∧ l = ⟨x.calls.length, r.mutation⟩ := by
  unfold sending at h
  split at h
  · rename_i r hr
    split at h
    · rename_i hnone
      exact ⟨r, hr, Option.isNone_iff_eq_none.mp hnone, List.mem_singleton.mp h⟩
    · cases h
  · cases h

/-- A call is answered with an error, or its letter is sent. -/
def respond (x : Exchange ι) (m : Mutation ι) : Option MatchError → Exchange ι
  | some e => x.answer (.error e)
  | none => { x with calls := x.calls ++ [.waiting], mailbox := x.mailbox.send ⟨x.calls.length, m⟩ }

omit [BEq ι] in
theorem submit_eq (x : Exchange ι) (m : Mutation ι) (isCancelled : Bool) : x.submit m isCancelled =
    x.respond m (if isCancelled then some .cancelled else if x.mailbox.isOpen then none else some .closed) := by
  rw [submit]
  cases isCancelled <;> cases x.mailbox.isOpen <;> rfl

/-- A call is turned down, or waits for its letter to be received. -/
theorem step_of_request (x : Exchange ι) {a : Action ι} {r : Request ι} (h : a.request? = some r) :
    ∃ asked, x.step a = { x with asked }.respond r.mutation (x.refusal? r) := by
  cases a with
  | delete id isCancelled =>
    cases h
    exact ⟨x.asked, x.submit_eq (.delete id) isCancelled⟩
  | add id text isCancelled =>
    cases h
    rcases hadd : x.template.emptyLike.add id text with ⟨result, m⟩
    have halone : x.coordinator.template.alone x.asked id text = (result, m) := hadd
    refine ⟨m.supply.asked, ?_⟩
    show x.add id text isCancelled = _
    rw [add, hadd, refusal?, check, halone]
    cases result with
    | error e => rfl
    | ok u => exact submit_eq _ _ _
  | _ => cases h

/-- A call that is turned down is told so at once. -/
theorem calls_of_refusal {x : Exchange ι} {a : Action ι} {r : Request ι} {e : MatchError} (hr : a.request? = some r)
    (he : x.refusal? r = some e) : (x.step a).calls = x.calls ++ [.answered (.error e)] := by
  obtain ⟨asked, h⟩ := x.step_of_request hr
  rw [h, he]
  rfl

/-! ## Single actions -/

/-- The letter that an action hands to the coordinator. -/
def receiving (x : Exchange ι) : Action ι → List (Letter ι)
  | .receive => x.mailbox.slot.toList
  | _ => []

/-- What an action tells the coordinator. -/
def signals (x : Exchange ι) : Action ι → List (Signal ι)
  | .receive => (x.receiving .receive).map fun l => .accept l.mutation
  | .trigger => [.trigger]
  | .finish => [.finish x.asked]
  | .cancel => [.cancel]
  | .add .. | .delete .. | .giveUp _ | .notice _ | .advance => []

/-- The letter in the slot goes to the coordinator. -/
def take (x : Exchange ι) (l : Letter ι) : Exchange ι :=
  { x with
    coordinator := x.coordinator.step (.accept l.mutation)
    mailbox := { x.mailbox with slot := none }
    received := x.received ++ [l] }

/-- What an action can do to an exchange. -/
inductive Effect (x : Exchange ι) : Action ι → Exchange ι → Prop
  /-- A call is answered at once. -/
  | refused {a : Action ι} {r : Request ι} {e : MatchError} (asked : Nat) (hr : a.request? = some r)
      (he : x.refusal? r = some e) : Effect x a { x with asked, calls := x.calls ++ [.answered (.error e)] }
  /-- The letter of a call is sent. -/
  | sent {a : Action ι} {r : Request ι} (asked : Nat) (hr : a.request? = some r) (he : x.refusal? r = none) :
      Effect x a
        { x with
          asked
          calls := x.calls ++ [.waiting]
          mailbox := x.mailbox.send ⟨x.calls.length, r.mutation⟩ }
  /-- A caller does not wait any longer. -/
  | gaveUp {ticket : Nat} (h : x.calls[ticket]? = some .waiting ∨ x.calls[ticket]? = some .acknowledged) :
      Effect x (.giveUp ticket)
        { x with
          calls := x.calls.set ticket (.answered (.error .cancelled))
          mailbox := x.mailbox.withdraw ticket }
  /-- A caller finds its call acknowledged. -/
  | confirmed {ticket : Nat} (h : x.calls[ticket]? = some .acknowledged) :
      Effect x (.notice ticket) { x with calls := x.calls.set ticket (.answered (.ok ())) }
  /-- A caller finds the mailbox closed. -/
  | shutOut {ticket : Nat} (h : x.calls[ticket]? = some .waiting) (hclosed : x.mailbox.isOpen = false) :
      Effect x (.notice ticket) { x with calls := x.calls.set ticket (.answered (.error .closed)) }
  /-- The line moves up. -/
  | advanced : Effect x .advance { x with mailbox := x.mailbox.advance }
  /-- The letter in the slot is received. -/
  | received {l : Letter ι} (h : x.mailbox.slot = some l) :
      Effect x .receive ((x.take l).acknowledge l.ticket)
  /-- The coordinator does something else. -/
  | worked {a : Action ι} {s : Signal ι} (asked : Nat) (hr : a.request? = none) (hl : x.receiving a = [])
      (ha : x.signals a = [s]) : Effect x a { x.withCoordinator (x.coordinator.step s) with asked }
  /-- Nothing happens. -/
  | nothing {a : Action ι} (hr : a.request? = none) (hl : x.receiving a = [])
      (ha : x.coordinator.run (x.signals a) = x.coordinator) : Effect x a x

theorem effect_step (x : Exchange ι) (a : Action ι) : Effect x a (x.step a) := by
  have hcall : ∀ {r}, a.request? = some r → Effect x a (x.step a) := fun {r} hr => by
    obtain ⟨asked, h⟩ := x.step_of_request hr
    rw [h]
    cases he : x.refusal? r with
    | some e => exact .refused asked hr he
    | none => exact .sent asked hr he
  cases a with
  | add id text isCancelled => exact hcall rfl
  | delete id isCancelled => exact hcall rfl
  | advance => exact .advanced
  | trigger => exact .worked (s := .trigger) x.asked rfl rfl rfl
  | cancel => exact .worked (s := .cancel) x.asked rfl rfl rfl
  | giveUp ticket =>
    show Effect x _ (x.giveUp ticket)
    unfold giveUp
    split
    · rename_i h
      exact .gaveUp (.inl h)
    · rename_i h
      exact .gaveUp (.inr h)
    · exact .nothing rfl rfl rfl
  | notice ticket =>
    show Effect x _ (x.notice ticket)
    unfold notice
    split
    · rename_i h
      exact .confirmed h
    · rename_i h
      split
      · exact .nothing rfl rfl rfl
      · rename_i hopen
        exact .shutOut h (Bool.eq_false_of_not_eq_true hopen)
    · exact .nothing rfl rfl rfl
  | receive =>
    show Effect x _ x.receive
    cases hslot : x.mailbox.slot with
    | none =>
      rw [receive, Mailbox.receive?, hslot]
      have hl : x.receiving .receive = [] := by rw [receiving, hslot]; rfl
      exact .nothing rfl hl (by rw [signals, hl]; rfl)
    | some l =>
      rw [receive, Mailbox.receive?, hslot]
      exact .received hslot
  | finish =>
    show Effect x _ x.finish
    cases hr : x.coordinator.isRunning with
    | false =>
      rw [finish, hr]
      exact .nothing rfl rfl (Coordinator.run_of_not_isRunning hr _)
    | true =>
      have h := Effect.worked (x := x) (a := .finish) (x.coordinator.finish x.asked).2 rfl rfl rfl
      rw [Coordinator.step_of_isRunning hr] at h
      rw [finish, if_pos hr]
      exact h

/-- What every action keeps holds after a run. -/
theorem run_induction {P : Exchange ι → Prop} (hstep : ∀ {x y : Exchange ι} {a : Action ι}, Effect x a y → P x → P y)
    {x : Exchange ι} (h : P x) (actions : List (Action ι)) : P (x.run actions) := by
  induction actions generalizing x with
  | nil => exact h
  | cons a actions ih => exact ih (hstep (x.effect_step a) h)

section

variable (x : Exchange ι) (ticket : Nat)

omit [BEq ι]

/-! An acknowledgement concerns the call only. -/

@[simp]
theorem coordinator_acknowledge : (x.acknowledge ticket).coordinator = x.coordinator := by
  unfold acknowledge
  split <;> rfl

@[simp]
theorem mailbox_acknowledge : (x.acknowledge ticket).mailbox = x.mailbox := by
  unfold acknowledge
  split <;> rfl

@[simp]
theorem received_acknowledge : (x.acknowledge ticket).received = x.received := by
  unfold acknowledge
  split <;> rfl

@[simp]
theorem length_calls_acknowledge : (x.acknowledge ticket).calls.length = x.calls.length := by
  unfold acknowledge
  split <;> simp

end

/-! ## What the coordinator is told -/

omit [BEq ι] in
/-- Calls tell the coordinator nothing. -/
theorem quiet_of_request (x : Exchange ι) {a : Action ι} {r : Request ι} (h : a.request? = some r) :
    x.receiving a = [] ∧ x.signals a = [] := by
  cases a with
  | add id text isCancelled => exact ⟨rfl, rfl⟩
  | delete id isCancelled => exact ⟨rfl, rfl⟩
  | _ => cases h

theorem Effect.coordinator_eq {x y : Exchange ι} {a : Action ι} (h : Effect x a y) :
    y.coordinator = x.coordinator.run (x.signals a) := by
  cases h with
  | refused _ hr _ => rw [(x.quiet_of_request hr).2]; rfl
  | sent _ hr _ => rw [(x.quiet_of_request hr).2]; rfl
  | gaveUp _ => rfl
  | confirmed _ => rfl
  | shutOut _ _ => rfl
  | advanced => rfl
  | received hslot => rw [coordinator_acknowledge, signals, receiving, hslot]; rfl
  | worked _ _ _ ha => rw [ha]; rfl
  | nothing _ _ ha => exact ha.symm

/-- What some actions tell the coordinator. -/
def signalsOf (x : Exchange ι) (actions : List (Action ι)) : List (Signal ι) := outputs step signals x actions

theorem signalsOf_cons (x : Exchange ι) (a : Action ι) (actions : List (Action ι)) :
    x.signalsOf (a :: actions) = x.signals a ++ (x.step a).signalsOf actions := rfl

theorem signalsOf_append (x : Exchange ι) (front back : List (Action ι)) :
    x.signalsOf (front ++ back) = x.signalsOf front ++ (x.run front).signalsOf back :=
  outputs_append step signals x front back

/-- The coordinator of an exchange does what it is told. -/
theorem coordinator_run (x : Exchange ι) (actions : List (Action ι)) :
    (x.run actions).coordinator = x.coordinator.run (x.signalsOf actions) := by
  induction actions generalizing x with
  | nil => rfl
  | cons a actions ih =>
    rw [signalsOf_cons, Coordinator.run_append, ← (x.effect_step a).coordinator_eq]
    exact ih (x.step a)

/-- Every text is checked under the template of the start. -/
theorem check_add_run (template : Matcher ι) (capacity : Option Nat) (actions : List (Action ι)) (id : ι)
    (text : String) :
    let x := (start template capacity).run actions
    x.check (.add id text) = (template.alone x.asked id text).1 := by
  intro x
  have htemplate : x.coordinator.template = template.emptyLike := by
    rw [coordinator_run, Coordinator.template_run]
    rfl
  rw [check, htemplate]
  rfl

/-- The mailbox is open as long as the coordinator runs, and a closed one is empty. -/
structure Tied (x : Exchange ι) : Prop where
  isOpen : x.mailbox.isOpen = x.coordinator.isRunning
  letters : x.mailbox.isOpen = false → x.mailbox.letters = []

omit [BEq ι] in
theorem tied_start (template : Matcher ι) (capacity : Option Nat) : (start template capacity).Tied :=
  ⟨rfl, fun _ => rfl⟩

theorem Effect.tied {x y : Exchange ι} {a : Action ι} (h : Effect x a y) (hx : x.Tied) : y.Tied := by
  cases h with
  | refused _ _ _ => exact ⟨hx.isOpen, hx.letters⟩
  | confirmed _ => exact ⟨hx.isOpen, hx.letters⟩
  | shutOut _ _ => exact ⟨hx.isOpen, hx.letters⟩
  | nothing _ _ _ => exact hx
  | advanced => exact ⟨x.mailbox.isOpen_advance.trans hx.isOpen, by simpa using hx.letters⟩
  | gaveUp _ =>
    refine ⟨hx.isOpen, fun hclosed => ?_⟩
    have hsub := x.mailbox.letters_withdraw_sublist
    rw [hx.letters hclosed] at hsub
    exact List.sublist_nil.mp (hsub _)
  | sent _ _ he =>
    obtain ⟨-, -, hopen⟩ := refusal?_eq_none.mp he
    exact ⟨by simpa using hx.isOpen, fun hclosed => by simp [hopen] at hclosed⟩
  | received hslot =>
    refine ⟨by simpa [take] using hx.isOpen, fun hclosed => ?_⟩
    have hnil := hx.letters (by simpa [take] using hclosed)
    simp [Mailbox.letters, hslot] at hnil
  | @worked _ s _ _ _ _ =>
    cases hr : (x.coordinator.step s).isRunning with
    | false =>
      have hmailbox : (x.withCoordinator (x.coordinator.step s)).mailbox = .closed := by simp [withCoordinator, hr]
      exact ⟨(congrArg Mailbox.isOpen hmailbox).trans hr.symm, fun _ => congrArg Mailbox.letters hmailbox⟩
    | true =>
      have hopen := hx.isOpen.trans (Coordinator.isRunning_of_run (show (x.coordinator.run [s]).isRunning from hr))
      exact ⟨by simp [withCoordinator, hr, hopen], fun hclosed => by simp [withCoordinator, hr, hopen] at hclosed⟩

theorem Tied.run {x : Exchange ι} (h : x.Tied) (actions : List (Action ι)) : (x.run actions).Tied :=
  run_induction Effect.tied h actions

/-! ## How letters move -/

theorem Effect.received_eq {x y : Exchange ι} {a : Action ι} (h : Effect x a y) :
    y.received = x.received ++ x.receiving a := by
  cases h with
  | refused _ hr _ => simp [x.quiet_of_request hr]
  | sent _ hr _ => simp [x.quiet_of_request hr]
  | gaveUp _ => exact (List.append_nil _).symm
  | confirmed _ => exact (List.append_nil _).symm
  | shutOut _ _ => exact (List.append_nil _).symm
  | advanced => exact (List.append_nil _).symm
  | received hslot => simp [take, receiving, hslot]
  | worked _ _ hl _ => simp [hl, withCoordinator]
  | nothing _ hl _ => simp [hl]

/-- The letters received and those that still can be, in the order in which they were sent. -/
def posted (x : Exchange ι) : List (Letter ι) := x.received ++ x.mailbox.letters

/-- Letters come in at the end and keep their places; some get lost. -/
theorem Effect.posted_sublist {x y : Exchange ι} {a : Action ι} (h : Effect x a y) :
    y.posted.Sublist (x.posted ++ x.sending a) := by
  have hkeep : ∀ {y : Exchange ι}, y.posted.Sublist x.posted → y.posted.Sublist (x.posted ++ x.sending a) :=
    fun h => h.trans (List.sublist_append_left _ _)
  cases h with
  | refused _ _ _ => exact hkeep (.refl _)
  | confirmed _ => exact hkeep (.refl _)
  | shutOut _ _ => exact hkeep (.refl _)
  | nothing _ _ _ => exact hkeep (.refl _)
  | sent _ hr he => simp [posted, sending, hr, he]
  | gaveUp _ => exact hkeep ((List.Sublist.refl _).append (x.mailbox.letters_withdraw_sublist _))
  | advanced => exact hkeep (by simp [posted])
  | received hslot => exact hkeep (by simp [posted, take, Mailbox.letters, hslot])
  | @worked _ s _ _ _ _ =>
    refine hkeep ((List.Sublist.refl x.received).append ?_)
    cases hr : (x.coordinator.step s).isRunning <;> simp [withCoordinator, hr, Mailbox.letters, Mailbox.closed]

/-! ## What is accepted -/

/-- A letter that the coordinator receives is accepted. -/
theorem Tied.accepted_signals {x : Exchange ι} (h : x.Tied) (a : Action ι) :
    x.coordinator.accepted (x.signals a) = (x.receiving a).map Letter.mutation := by
  cases a with
  | receive =>
    cases hslot : x.mailbox.slot with
    | none => simp [signals, receiving, hslot, Coordinator.accepted]
    | some l =>
      have hrunning : x.coordinator.isRunning = true := by
        by_contra hr
        have hnil := h.letters (h.isOpen.trans (Bool.eq_false_of_not_eq_true hr))
        simp [Mailbox.letters, hslot] at hnil
      simp [signals, receiving, hslot, Coordinator.accepted, Coordinator.acceptedBy, hrunning]
  | _ => rfl

/-- The coordinator accepts the mutations of the letters received, in order. -/
theorem Tied.accepted_run {x : Exchange ι} (h : x.Tied) (actions : List (Action ι)) :
    (x.run actions).accepted = x.accepted ++ x.coordinator.accepted (x.signalsOf actions) := by
  induction actions generalizing x with
  | nil => exact (List.append_nil _).symm
  | cons a actions ih =>
    have heffect := x.effect_step a
    rw [signalsOf_cons, Coordinator.accepted_append, ← heffect.coordinator_eq, h.accepted_signals]
    refine (ih (heffect.tied h)).trans ?_
    rw [accepted, heffect.received_eq, List.map_append, List.append_assoc]
    rfl

end Exchange

end EventMatch
