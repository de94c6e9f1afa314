import EventMatch.Proofs.Live.Exchange

/-!
# What an answer says

`Ledger` ties the letters on their way and those received to the calls that sent
them: a call that is acknowledged has been received, and one that was told of an
error other than its cancellation has no letter any more. An action keeps the ledger
(`Ledger.step`), and a call without a letter never gets one (`not_mem_posted_run`).
Together with the order in which letters enter the slot (`entered_run`) this says what
each answer means for the mutations accepted (`acceptance`).
-/

namespace EventMatch.Exchange

variable {ι : Type} [BEq ι]

/-! ## The slot -/

/-- The letter that an action puts into the slot. -/
def entering (x : Exchange ι) (a : Action ι) : List (Letter ι) :=
  if x.mailbox.slot.isNone then (x.step a).mailbox.slot.toList else []

/-- The letters that some actions put into the slot, in order. -/
def entered (x : Exchange ι) (actions : List (Action ι)) : List (Letter ι) := outputs step entering x actions

theorem entered_append_singleton (x : Exchange ι) (actions : List (Action ι)) (a : Action ι) :
    x.entered (actions ++ [a]) = x.entered actions ++ (x.run actions).entering a := by
  simp [entered, outputs_append, outputs, run]

omit [BEq ι] in
/-- Letters are received from the slot. -/
theorem receiving_prefix_slot (x : Exchange ι) (a : Action ι) : x.receiving a <+: x.mailbox.slot.toList := by
  cases a with
  | receive => exact List.prefix_rfl
  | _ => exact List.nil_prefix

/-- While the coordinator runs, a letter stays in the slot until it is received. -/
theorem Effect.received_append_slot {x y : Exchange ι} {a : Action ι} {l : Letter ι} (h : Effect x a y)
    (hslot : x.mailbox.slot = some l) (hy : y.coordinator.isRunning) :
    y.received ++ y.mailbox.slot.toList = x.received ++ [l] := by
  cases h with
  | refused _ _ _ => simp [hslot]
  | confirmed _ => simp [hslot]
  | shutOut _ _ => simp [hslot]
  | nothing _ _ _ => simp [hslot]
  | gaveUp _ => simp [Mailbox.withdraw, hslot]
  | sent _ _ _ => simp [x.mailbox.slot_send_of_some _ hslot]
  | advanced => simp [x.mailbox.slot_advance_of_some hslot]
  | received hslot' => simp [take, Option.some.inj (hslot.symm.trans hslot')]
  | @worked _ s _ _ _ _ =>
    have hr : (x.coordinator.step s).isRunning = true := hy
    simp [withCoordinator, hr, hslot]

/-- An action that leaves the coordinator running passes letters through the slot in order. -/
theorem received_step_append_slot (x : Exchange ι) {a : Action ι} (hy : (x.step a).coordinator.isRunning) :
    (x.step a).received ++ (x.step a).mailbox.slot.toList = x.received ++ x.mailbox.slot.toList ++ x.entering a := by
  have heffect := x.effect_step a
  cases hslot : x.mailbox.slot with
  | some l =>
    rw [heffect.received_append_slot hslot hy]
    simp [entering, hslot]
  | none =>
    have hnil : x.receiving a = [] := List.prefix_nil.mp (by simpa [hslot] using x.receiving_prefix_slot a)
    rw [heffect.received_eq, hnil]
    simp [entering, hslot]

/-- Letters are received in the order in which they entered the slot, and while the
coordinator runs only the one in the slot is still to be received. -/
theorem entered_run (template : Matcher ι) (capacity : Option Nat) (actions : List (Action ι)) :
    let first := start template capacity
    let x := first.run actions
    x.received <+: first.entered actions ∧
      (x.coordinator.isRunning → first.entered actions = x.received ++ x.mailbox.slot.toList) := by
  intro first
  induction actions using List.reverseRecOn with
  | nil => exact ⟨List.prefix_rfl, fun _ => rfl⟩
  | append_singleton actions a ih =>
    obtain ⟨hreceived, hslot⟩ := ih
    have htied : (first.run actions).Tied := (tied_start template capacity).run actions
    have hrun : first.run (actions ++ [a]) = (first.run actions).step a := run_append first actions [a]
    simp only [hrun, entered_append_singleton]
    generalize first.run actions = x at *
    have heffect := x.effect_step a
    refine ⟨?_, fun hy => ?_⟩
    · rw [heffect.received_eq]
      cases hr : x.coordinator.isRunning with
      | true =>
        rw [hslot hr]
        exact ((List.prefix_append_right_inj _).mpr (x.receiving_prefix_slot a)).trans (List.prefix_append _ _)
      | false =>
        have hnil : x.mailbox.slot.toList = [] := (List.append_eq_nil_iff.mp (htied.letters (htied.isOpen.trans hr))).1
        have hno : x.receiving a = [] := List.prefix_nil.mp (hnil ▸ x.receiving_prefix_slot a)
        rw [hno, List.append_nil]
        exact hreceived.trans (List.prefix_append _ _)
    · have hr : x.coordinator.isRunning = true := Coordinator.isRunning_of_run (heffect.coordinator_eq ▸ hy)
      rw [hslot hr, x.received_step_append_slot hy]

/-! ## Stages of calls -/

section

variable {as : List CallStage} {new stage : CallStage} {i j : Nat}

private theorem getElem?_append_singleton_eq_some (h : (as ++ [new])[i]? = some stage) :
    as[i]? = some stage ∨ i = as.length ∧ new = stage := by
  rw [List.getElem?_append] at h
  split at h
  · exact .inl h
  · obtain ⟨hi, e⟩ := List.getElem?_eq_some_iff.mp h
    rw [List.length_singleton] at hi
    simp only [List.getElem_singleton] at e
    exact .inr ⟨by omega, e⟩

private theorem getElem?_set_eq_some (h : (as.set i new)[j]? = some stage) :
    i = j ∧ new = stage ∨ i ≠ j ∧ as[j]? = some stage := by
  rw [List.getElem?_set] at h
  split at h
  · rename_i hij
    split at h
    · exact .inl ⟨hij, Option.some.inj h⟩
    · cases h
  · rename_i hij
    exact .inr ⟨hij, h⟩

end

/-- How a call comes to the stage that it has after an action. -/
inductive Turns (x : Exchange ι) (a : Action ι) : Nat → CallStage → Prop
  /-- The stage is the same. A call does not wait any more when its letter is received. -/
  | kept {ticket : Nat} {stage : CallStage} (h : x.calls[ticket]? = some stage)
      (hw : stage = .waiting → ticket ∉ (x.receiving a).map Letter.ticket) : Turns x a ticket stage
  | refused {r : Request ι} {e : MatchError} (hr : a.request? = some r) (he : x.refusal? r = some e) :
      Turns x a x.calls.length (.answered (.error e))
  | sent {r : Request ι} (hr : a.request? = some r) : Turns x a x.calls.length .waiting
  | gaveUp {ticket : Nat} : Turns x a ticket (.answered (.error .cancelled))
  | confirmed {ticket : Nat} (h : x.calls[ticket]? = some .acknowledged) : Turns x a ticket (.answered (.ok ()))
  | shutOut {ticket : Nat} (h : x.calls[ticket]? = some .waiting) (hclosed : x.mailbox.isOpen = false) :
      Turns x a ticket (.answered (.error .closed))
  | received {ticket : Nat} (h : ticket ∈ (x.receiving a).map Letter.ticket) : Turns x a ticket .acknowledged

omit [BEq ι] in
theorem calls_acknowledge (x : Exchange ι) (ticket : Nat) : (x.acknowledge ticket).calls = x.calls ∧
    x.calls[ticket]? ≠ some .waiting ∨ (x.acknowledge ticket).calls = x.calls.set ticket .acknowledged := by
  unfold acknowledge
  split
  · exact .inr rfl
  · rename_i h
    exact .inl ⟨rfl, h⟩

theorem Effect.turns {x y : Exchange ι} {a : Action ι} (h : Effect x a y) {ticket : Nat} {stage : CallStage}
    (hs : y.calls[ticket]? = some stage) : Turns x a ticket stage := by
  have hkept : x.receiving a = [] → x.calls[ticket]? = some stage → Turns x a ticket stage := fun hl hs =>
    .kept hs fun _ => by simp [hl]
  cases h with
  | nothing _ hl _ => exact hkept hl hs
  | worked _ _ hl _ => exact hkept hl hs
  | advanced => exact hkept rfl hs
  | refused _ hr he =>
    rcases getElem?_append_singleton_eq_some hs with hs | ⟨rfl, rfl⟩
    · exact hkept (x.quiet_of_request hr).1 hs
    · exact .refused hr he
  | sent _ hr _ =>
    rcases getElem?_append_singleton_eq_some hs with hs | ⟨rfl, rfl⟩
    · exact hkept (x.quiet_of_request hr).1 hs
    · exact .sent hr
  | gaveUp _ =>
    rcases getElem?_set_eq_some hs with ⟨rfl, rfl⟩ | ⟨-, hs⟩
    · exact .gaveUp
    · exact hkept rfl hs
  | confirmed hack =>
    rcases getElem?_set_eq_some hs with ⟨rfl, rfl⟩ | ⟨-, hs⟩
    · exact .confirmed hack
    · exact hkept rfl hs
  | shutOut hwait hclosed =>
    rcases getElem?_set_eq_some hs with ⟨rfl, rfl⟩ | ⟨-, hs⟩
    · exact .shutOut hwait hclosed
    · exact hkept rfl hs
  | @received l hslot =>
    have hmem : ticket ∈ (x.receiving .receive).map Letter.ticket ↔ ticket = l.ticket := by
      simp [receiving, hslot]
    rcases calls_acknowledge (x.take l) l.ticket with ⟨e, hne⟩ | e
    · rw [e] at hs
      refine .kept hs fun hwaiting hm => hne ?_
      rw [← hmem.mp hm, ← hwaiting]
      exact hs
    · rw [e] at hs
      rcases getElem?_set_eq_some hs with ⟨rfl, rfl⟩ | ⟨hother, hs⟩
      · exact .received (hmem.mpr rfl)
      · exact .kept hs fun _ hm => hother (hmem.mp hm).symm

/-! ## Letters and calls -/

/-- The calls of which letters have been received. -/
def receivedTickets (x : Exchange ι) : List Nat := x.received.map Letter.ticket

/-- The calls of which letters have been or can be received. -/
def postedTickets (x : Exchange ι) : List Nat := x.posted.map Letter.ticket

/-- What a call's stage says about its letter. -/
def Fits (x : Exchange ι) (ticket : Nat) : CallStage → Prop
  | .waiting => ticket ∉ x.receivedTickets
  | .acknowledged | .answered (.ok ()) => ticket ∈ x.receivedTickets
  | .answered (.error .cancelled) => True
  | .answered (.error _) => ticket ∉ x.postedTickets

/-- The letters come from the requests made so far, and the calls' stages fit them. -/
structure Ledger (x : Exchange ι) (requests : List (Request ι)) : Prop where
  tied : x.Tied
  length : x.calls.length = requests.length
  tickets : x.postedTickets.Pairwise (· < ·)
  letters : ∀ l ∈ x.posted, requests[l.ticket]? = some ⟨l.mutation, false⟩
  stages : ∀ ticket stage, x.calls[ticket]? = some stage → x.Fits ticket stage

omit [BEq ι] in
theorem ledger_start (template : Matcher ι) (capacity : Option Nat) : (start template capacity).Ledger [] where
  tied := tied_start template capacity
  length := rfl
  tickets := .nil
  letters := fun l h => by cases h
  stages := fun ticket stage h => by simp [start] at h

section

variable {x y : Exchange ι} {a : Action ι} {requests : List (Request ι)}

omit [BEq ι] in
/-- Letters belong to calls made before. -/
theorem Ledger.lt_length (h : x.Ledger requests) {ticket : Nat} (ht : ticket ∈ x.postedTickets) :
    ticket < x.calls.length := by
  obtain ⟨l, hl, rfl⟩ := List.mem_map.mp ht
  rw [h.length]
  exact (List.getElem?_eq_some_iff.mp (h.letters l hl)).1

omit [BEq ι] in
theorem mem_postedTickets_of_received {ticket : Nat} (h : ticket ∈ x.receivedTickets) : ticket ∈ x.postedTickets := by
  rw [postedTickets, posted, List.map_append]
  exact List.mem_append_left _ h

/-- A call without a letter gets none. -/
theorem Effect.not_mem_posted (h : Effect x a y) {ticket : Nat} (ht : ticket < x.calls.length)
    (hx : ticket ∉ x.postedTickets) : ticket ∉ y.postedTickets := by
  intro hy
  obtain ⟨l, hl, rfl⟩ := List.mem_map.mp hy
  rcases List.mem_append.mp (h.posted_sublist.subset hl) with hl | hl
  · exact hx (List.mem_map_of_mem hl)
  · obtain ⟨r, -, -, rfl⟩ := exists_of_mem_sending hl
    exact Nat.lt_irrefl _ ht

theorem Effect.length_calls (h : Effect x a y) : y.calls.length = x.calls.length + a.request?.toList.length := by
  cases h with
  | refused _ hr _ => simp [hr]
  | sent _ hr _ => simp [hr]
  | gaveUp _ => simp [Action.request?]
  | confirmed _ => simp [Action.request?]
  | shutOut _ _ => simp [Action.request?]
  | advanced => simp [Action.request?]
  | received _ => simp [Action.request?, take]
  | worked _ hr _ _ => simp [hr, withCoordinator]
  | nothing hr _ _ => simp [hr]

theorem Effect.receivedTickets_eq (h : Effect x a y) :
    y.receivedTickets = x.receivedTickets ++ (x.receiving a).map Letter.ticket := by
  rw [receivedTickets, h.received_eq, List.map_append]
  rfl

/-- A call that is turned down has no letter. -/
theorem Ledger.not_mem_posted_of_refusal (h : x.Ledger requests) (hy : Effect x a y) {r : Request ι} {e : MatchError}
    (hr : a.request? = some r) (he : x.refusal? r = some e) : x.calls.length ∉ y.postedTickets := by
  intro hm
  obtain ⟨l, hl, hticket⟩ := List.mem_map.mp hm
  rcases List.mem_append.mp (hy.posted_sublist.subset hl) with hl | hl
  · have hlt := h.lt_length (List.mem_map_of_mem hl)
    omega
  · obtain ⟨r', hr', hnone, -⟩ := exists_of_mem_sending hl
    cases hr.symm.trans hr'
    simp [he] at hnone

/-- The stage of a call fits after the action. -/
theorem Ledger.fits_step (h : x.Ledger requests) (hy : Effect x a y) {ticket : Nat} {stage : CallStage}
    (ht : Turns x a ticket stage) : y.Fits ticket stage := by
  have hreceived := hy.receivedTickets_eq
  have hstays : ticket ∈ x.receivedTickets → ticket ∈ y.receivedTickets := fun hm => by
    rw [hreceived]
    exact List.mem_append_left _ hm
  cases ht with
  | gaveUp => exact trivial
  | confirmed hack => exact hstays (h.stages _ _ hack)
  | received hm =>
    show ticket ∈ y.receivedTickets
    rw [hreceived]
    exact List.mem_append_right _ hm
  | @refused r e hr he =>
    have hnone := h.not_mem_posted_of_refusal hy hr he
    cases e with
    | cancelled => exact trivial
    | _ => exact hnone
  | sent hr =>
    show x.calls.length ∉ y.receivedTickets
    rw [hreceived, (x.quiet_of_request hr).1, List.map_nil, List.append_nil]
    exact fun hm => Nat.lt_irrefl _ (h.lt_length (mem_postedTickets_of_received hm))
  | shutOut hwait hclosed =>
    refine hy.not_mem_posted (List.getElem?_eq_some_iff.mp hwait).1 ?_
    rw [postedTickets, posted, h.tied.letters hclosed, List.append_nil]
    exact h.stages _ _ hwait
  | kept hs hw =>
    have hlt := (List.getElem?_eq_some_iff.mp hs).1
    have hx := h.stages _ _ hs
    cases stage with
    | waiting =>
      show ticket ∉ y.receivedTickets
      rw [hreceived, List.mem_append]
      exact fun hm => hm.elim hx (hw rfl)
    | acknowledged => exact hstays hx
    | answered answer =>
      cases answer with
      | ok _ => exact hstays hx
      | error e =>
        cases e with
        | cancelled => exact trivial
        | _ => exact hy.not_mem_posted hlt hx

/-- Every action keeps the ledger. -/
theorem Ledger.step (h : x.Ledger requests) (he : Effect x a y) : y.Ledger (requests ++ a.request?.toList) where
  tied := he.tied h.tied
  length := by rw [he.length_calls, h.length, List.length_append]
  tickets := by
    have hsub := he.posted_sublist.map Letter.ticket
    rw [List.map_append] at hsub
    refine (List.pairwise_append.mpr ⟨h.tickets, ?_, fun ticket ht ticket' ht' => ?_⟩).sublist hsub
    · unfold sending
      split
      · split <;> simp
      · exact .nil
    · obtain ⟨l, hl, rfl⟩ := List.mem_map.mp ht'
      obtain ⟨r, -, -, rfl⟩ := exists_of_mem_sending hl
      exact h.lt_length ht
  letters := fun l hl => by
    rcases List.mem_append.mp (he.posted_sublist.subset hl) with hl | hl
    · rw [List.getElem?_append_left (h.length ▸ h.lt_length (List.mem_map_of_mem hl))]
      exact h.letters l hl
    · obtain ⟨r, hr, hn, rfl⟩ := exists_of_mem_sending hl
      obtain ⟨-, hlive, -⟩ := refusal?_eq_none.mp hn
      rw [h.length, List.getElem?_append_right (Nat.le_refl _), hr, Nat.sub_self, ← hlive]
      rfl
  stages := fun _ _ hs => h.fits_step he (he.turns hs)

/-- A caller is told of success only after its letter was received. -/
theorem Ledger.mem_received_of_ok (h : x.Ledger requests) (hy : Effect x a y) {ticket : Nat}
    (hs : y.calls[ticket]? = some (.answered (.ok ()))) : ticket ∈ x.receivedTickets := by
  cases hy.turns hs with
  | kept hs _ => exact h.stages _ _ hs
  | confirmed hack => exact h.stages _ _ hack

end

/-! ## Runs -/

theorem ledger_run (template : Matcher ι) (capacity : Option Nat) (actions : List (Action ι)) :
    ((start template capacity).run actions).Ledger (actions.filterMap Action.request?) := by
  induction actions using List.reverseRecOn with
  | nil => exact ledger_start template capacity
  | append_singleton actions a ih =>
    rw [run_append, List.filterMap_append]
    have h := ih.step (effect_step _ a)
    cases hr : a.request? <;> simpa [hr, run] using h

/-- A call without a letter stays without one. -/
theorem not_mem_posted_run {x : Exchange ι} {ticket : Nat} (ht : ticket < x.calls.length)
    (hx : ticket ∉ x.postedTickets) (actions : List (Action ι)) : ticket ∉ (x.run actions).postedTickets := by
  have hstep : ∀ {x y : Exchange ι} {a : Action ι}, Effect x a y →
      ticket < x.calls.length ∧ ticket ∉ x.postedTickets → ticket < y.calls.length ∧ ticket ∉ y.postedTickets := by
    rintro x y a h ⟨ht, hx⟩
    have hlength := h.length_calls
    exact ⟨by omega, h.not_mem_posted ht hx⟩
  exact (run_induction hstep ⟨ht, hx⟩ actions).2

/-- What an answer says about the mutations accepted. Calls are numbered as they are made. -/
theorem acceptance (template : Matcher ι) (capacity : Option Nat) (actions : List (Action ι)) :
    let first := start template capacity
    let x := first.run actions
    let requests := actions.filterMap Action.request?
    -- What is received is what the coordinator accepts.
    x.coordinator = first.coordinator.run (first.signalsOf actions) ∧
    x.received.map Letter.mutation = first.coordinator.accepted (first.signalsOf actions) ∧
    -- Calls are accepted in their order, given up or not, each at most once and with its own mutation.
    x.calls.length = requests.length ∧ x.receivedTickets.Pairwise (· < ·) ∧
    (∀ l ∈ x.received, requests[l.ticket]? = some ⟨l.mutation, false⟩) ∧
    -- This is the order in which letters entered the slot, of which none is passed over.
    x.received <+: first.entered actions ∧
    (x.coordinator.isRunning → first.entered actions = x.received ++ x.mailbox.slot.toList) ∧
    -- A call that is told of success by the next action has been accepted once.
    (∀ a ticket, (x.step a).calls[ticket]? = some (.answered (.ok ())) →
      x.receivedTickets.count ticket = 1 ∧
        ∃ m, requests[ticket]? = some ⟨m, false⟩ ∧ ⟨ticket, m⟩ ∈ x.received) ∧
    -- A call that was told of the end is never accepted.
    (∀ ticket later, x.calls[ticket]? = some (.answered (.error .closed)) →
      ticket ∉ (x.run later).receivedTickets) ∧
    -- Neither is a call with a text that does not compile alone, and it is told why.
    (∀ id text isCancelled e later, (template.alone x.asked id text).1 = .error e →
      (x.step (.add id text isCancelled)).calls = x.calls ++ [.answered (.error e)] ∧
        x.calls.length ∉ (x.run (.add id text isCancelled :: later)).receivedTickets) ∧
    -- Neither is a call whose token was cancelled before.
    ∀ ticket m later, requests[ticket]? = some ⟨m, true⟩ → ticket ∉ (x.run later).receivedTickets := by
  intro first x requests
  have hledger : x.Ledger requests := ledger_run template capacity actions
  have htied := tied_start template capacity
  obtain ⟨hentered, hslot⟩ := entered_run template capacity actions
  have htickets : x.receivedTickets.Pairwise (· < ·) :=
    hledger.tickets.sublist ((List.sublist_append_left _ _).map _)
  have hletters : ∀ l ∈ x.received, requests[l.ticket]? = some ⟨l.mutation, false⟩ := fun l hl =>
    hledger.letters l (List.mem_append_left _ hl)
  refine ⟨first.coordinator_run actions, htied.accepted_run actions, hledger.length, htickets, hletters, hentered,
    hslot, fun a ticket hok => ?_, fun ticket later hclosed => ?_, fun id text isCancelled e later he => ?_,
    fun ticket m later hcancelled hm => ?_⟩
  · have hreceived := hledger.mem_received_of_ok (x.effect_step a) hok
    obtain ⟨l, hl, rfl⟩ := List.mem_map.mp hreceived
    exact ⟨List.count_eq_one_of_mem (htickets.imp Nat.ne_of_lt) hreceived, l.mutation, hletters l hl, hl⟩
  · have hlt : ticket < x.calls.length := (List.getElem?_eq_some_iff.mp hclosed).1
    have hnot : ticket ∉ x.postedTickets := hledger.stages _ _ hclosed
    exact fun hm => not_mem_posted_run hlt hnot later (mem_postedTickets_of_received hm)
  · have hrefused : x.refusal? ⟨.add id text, isCancelled⟩ = some e := by
      rw [refusal?, show x.check (.add id text) = .error e from (check_add_run template capacity actions id text).trans he]
    have hcalls := calls_of_refusal (a := .add id text isCancelled) rfl hrefused
    refine ⟨hcalls, fun hm => ?_⟩
    refine not_mem_posted_run ?_ (hledger.not_mem_posted_of_refusal (x.effect_step _) rfl hrefused) later
      (mem_postedTickets_of_received hm)
    rw [hcalls]
    simp
  · obtain ⟨l, hl, rfl⟩ := List.mem_map.mp hm
    have hlater := (ledger_run template capacity (actions ++ later)).letters l
      (List.mem_append_left _ (by rw [run_append]; exact hl))
    rw [List.filterMap_append, List.getElem?_append_left (List.getElem?_eq_some_iff.mp hcancelled).1, hcancelled] at hlater
    simp at hlater

/-- Of four calls the first is accepted although its caller gave up, the second is told so, the
third comes too late and the fourth is cancelled before. -/
theorem acceptance_four_calls :
    let x := (start (Matcher.empty Json.flatten : Matcher Bool) none).run
      [.delete true false, .giveUp 0, .receive, .delete false false, .receive, .notice 1,
        .delete true false, .cancel, .notice 2, .delete true true]
    x.calls[0]? = some (.answered (.error .cancelled)) ∧ x.calls[1]? = some (.answered (.ok ())) ∧
      x.calls[2]? = some (.answered (.error .closed)) ∧ x.receivedTickets = [0, 1] ∧
      x.receivedTickets.count 1 = 1 ∧
      ∀ later, 2 ∉ (x.run later).receivedTickets ∧ 3 ∉ (x.run later).receivedTickets := by
  intro x
  have hclosed : x.calls[2]? = some (.answered (.error .closed)) := rfl
  obtain ⟨-, -, -, -, -, -, -, hok, hnever, -, hcancelled⟩ :=
    acceptance (Matcher.empty Json.flatten : Matcher Bool) none
      [.delete true false, .giveUp 0, .receive, .delete false false, .receive, .notice 1,
        .delete true false, .cancel, .notice 2, .delete true true]
  obtain ⟨hcount, -⟩ := hok .trigger 1 rfl
  exact ⟨rfl, rfl, hclosed, rfl, hcount, fun later =>
    ⟨hnever 2 later hclosed, hcancelled 3 (.delete true) later rfl⟩⟩

end EventMatch.Exchange
