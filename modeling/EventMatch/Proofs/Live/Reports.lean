import EventMatch.Proofs.Live.Closing
import EventMatch.Proofs.Live.Snapshot

/-!
# Reports and their reader

While the coordinator works, somebody may read its reports one by one, pause, or leave
for good. What is in the queue and what was read are the reports that found room, in
order (`ledger_step`, `ledger_run`). The coordinator never looks at the queue: without
its reports it does the same (`withoutReports_step`), so nothing that it publishes
depends on the reader, and what is known of runs without reports holds of all runs.
-/

namespace EventMatch

/-- If a step has at most one output, each output has the step that it comes from. -/
theorem outputs_eq_append_cons {σ α β : Type} {step : σ → α → σ} {output : σ → α → List β}
    (hone : ∀ s a, ∃ o : Option β, output s a = o.toList) {s : σ} {as : List α} {earlier later : List β} {b : β}
    (h : outputs step output s as = earlier ++ b :: later) :
    ∃ front a back, as = front ++ a :: back ∧ outputs step output s front = earlier ∧
      output (front.foldl step s) a = [b] := by
  induction as generalizing s earlier with
  | nil => exact absurd h.symm (List.append_ne_nil_of_right_ne_nil _ (List.cons_ne_nil _ _))
  | cons a as ih =>
    obtain ⟨o, ho⟩ := hone s a
    rw [outputs, ho] at h
    -- Either this step has the output asked for, or it is among those of the other steps.
    have htail : ∀ earlier', earlier = o.toList ++ earlier' →
        outputs step output (step s a) as = earlier' ++ b :: later →
        ∃ front a' back, a :: as = front ++ a' :: back ∧ outputs step output s front = earlier ∧
          output (front.foldl step s) a' = [b] := fun earlier' he hrest => by
      obtain ⟨front, a', back, rfl, hfront, hout⟩ := ih hrest
      exact ⟨a :: front, a', back, rfl, by rw [outputs, ho, hfront, he], hout⟩
    cases o with
    | none => exact htail earlier rfl h
    | some x =>
      cases earlier with
      | nil =>
        obtain ⟨rfl, -⟩ := List.cons.inj h
        exact ⟨[], a, as, rfl, rfl, ho⟩
      | cons y earlier =>
        obtain ⟨rfl, hrest⟩ := List.cons.inj h
        exact htail earlier rfl hrest

variable {ι : Type}

theorem Matcher.size_addAll [BEq ι] : ∀ (patterns : List (ι × String)) {m m' : Matcher ι},
    m.addAll patterns = (.ok (), m') → m'.size = m.size + patterns.length
  | [], m, m', h => by
    cases h
    rfl
  | (id, text) :: rest, m, m', h => by
    rcases hx : (m.extend id text).exec m.supply with ⟨_ | root, s⟩
    · rw [addAll, add_of_error hx] at h
      cases h
    · rw [addAll, add_of_ok hx] at h
      rw [size_addAll rest h, List.length_cons, Nat.add_assoc, Nat.add_comm 1]

/-- A matcher that is compiled from a live set has as many patterns as there are live pairs. -/
theorem LiveSet.size_compile [BEq ι] {l : LiveSet ι} {template m : Matcher ι}
    (h : l.compile template = (.ok (), m)) : m.size = l.size :=
  (Matcher.size_addAll l.pairs h).trans (Nat.zero_add _)

/-! ## Rebuilds that are done -/

/-- A rebuild that is done: what it compiled and to what, and the queue that its report was
put into. -/
structure Completion (ι : Type) where
  live : LiveSet ι
  result : Except MatchError Unit × Matcher ι
  queue : ReportQueue

namespace Completion

/-- The error of a rebuild that failed. -/
def error? (r : Completion ι) : Option MatchError :=
  match r.result.1 with
  | .ok () => none
  | .error e => some e

/-- What is reported of the rebuild. -/
def report (r : Completion ι) : Report := ⟨r.live.size, r.error?⟩

end Completion

namespace Coordinator

variable [BEq ι]

/-- The rebuild that a signal completes. -/
def completing? (c : Coordinator ι) : Signal ι → Option (Completion ι)
  | .finish asked =>
    if c.isRunning then c.rebuilding?.map fun live => ⟨live, c.compile live asked, c.reports⟩ else none
  | .accept _ | .trigger | .cancel => none

variable {c : Coordinator ι} {s : Signal ι} {r : Completion ι}

theorem completing?_eq_some : c.completing? s = some r ↔ ∃ asked live, s = .finish asked ∧ c.isRunning = true ∧
    c.rebuilding? = some live ∧ r = ⟨live, c.compile live asked, c.reports⟩ := by
  cases s with
  | finish asked =>
    cases hr : c.isRunning with
    | false => simp [completing?, hr]
    | true => simp [completing?, hr, eq_comm]
  | _ => simp [completing?]

theorem completing?_of_not_isRunning (h : c.isRunning = false) (s : Signal ι) : c.completing? s = none := by
  cases s <;> simp [completing?, h]

theorem queue_of_completing (h : c.completing? s = some r) : r.queue = c.reports := by
  obtain ⟨_, _, -, -, -, rfl⟩ := completing?_eq_some.mp h
  rfl

omit [BEq ι] in
theorem reports_settle (c : Coordinator ι) (r : Completion ι) :
    (c.settle r.live r.result).reports = c.reports.push r.report := by
  obtain ⟨live, ⟨result, m⟩, queue⟩ := r
  cases result <;> rfl

/-- The report of a completed rebuild is put into the queue, and nothing else is. -/
theorem reports_step (c : Coordinator ι) (s : Signal ι) :
    (c.step s).reports = ((c.completing? s).map Completion.report).elim c.reports c.reports.push := by
  cases hr : c.isRunning with
  | false => rw [step_of_not_isRunning hr, completing?_of_not_isRunning hr]; rfl
  | true =>
    cases s with
    | accept m => rw [step_of_isRunning hr]; rfl
    | cancel => rw [step_of_isRunning hr]; rfl
    | trigger =>
      by_cases hs : c.Startable
      · obtain ⟨live, -, e⟩ := step_trigger_of_startable hs
        rw [e]
        rfl
      · rw [step_trigger_of_not_startable hs]
        rfl
    | finish asked =>
      cases hl : c.rebuilding? with
      | none =>
        rw [step_finish_of_none hl, completing?, hl]
        simp
      | some live =>
        rw [step_finish_of_some hr hl, completing?, if_pos hr, hl]
        exact c.reports_settle ⟨live, c.compile live asked, c.reports⟩

/-- A rebuild that is done publishes its matcher, or its error ends the coordinator. -/
theorem step_finish_of_completing {asked : Nat} (h : c.completing? (.finish asked) = some r) :
    (r.error? = none ∧ (c.step (.finish asked)).isRunning = true ∧
      c.publishing (.finish asked) = [(c.step (.finish asked)).published] ∧
      (c.step (.finish asked)).published.size = r.live.size) ∨
    ∃ e, r.error? = some e ∧ c.publishing (.finish asked) = [] ∧
      (c.step (.finish asked)).outcome = some (.error (.rebuild e)) := by
  obtain ⟨_, live, hs, hr, hl, rfl⟩ := completing?_eq_some.mp h
  cases hs
  rw [step_finish_of_some hr hl, publishing, if_pos hr, hl]
  rcases hc : c.compile live asked with ⟨_ | _, m⟩
  · exact .inr ⟨_, rfl, by simp [made, hc], rfl⟩
  · exact .inl ⟨rfl, hr, by simp [made, settle, hc], LiveSet.size_compile hc⟩

/-! ## Without reports -/

/-- The coordinator with reports disabled. -/
def withoutReports (c : Coordinator ι) : Coordinator ι := { c with reports := { capacity := none } }

omit [BEq ι] in
theorem withoutReports_settle (c : Coordinator ι) (live : LiveSet ι) (result : Except MatchError Unit × Matcher ι) :
    (c.settle live result).withoutReports = c.withoutReports.settle live result := by
  obtain ⟨result, m⟩ := result
  cases result <;> rfl

/-- What the coordinator does has nothing to do with the reports. -/
theorem withoutReports_step (c : Coordinator ι) (s : Signal ι) : (c.step s).withoutReports = c.withoutReports.step s := by
  cases hr : c.isRunning with
  | false =>
    have hr' : c.withoutReports.isRunning = false := hr
    rw [step_of_not_isRunning hr, step_of_not_isRunning hr']
  | true =>
    have hr' : c.withoutReports.isRunning = true := hr
    cases s with
    | accept m => rw [step_of_isRunning hr, step_of_isRunning hr']; rfl
    | cancel => rw [step_of_isRunning hr, step_of_isRunning hr']; rfl
    | trigger =>
      by_cases hs : c.Startable
      · obtain ⟨live, hw, e⟩ := step_trigger_of_startable hs
        obtain ⟨live', hw', e'⟩ := step_trigger_of_startable (c := c.withoutReports) hs
        have hwork : c.withoutReports.work = c.work := rfl
        rw [hwork, hw] at hw'
        cases hw'
        rw [e, e']
        rfl
      · rw [step_trigger_of_not_startable hs, step_trigger_of_not_startable (c := c.withoutReports) hs]
    | finish asked =>
      cases hl : c.rebuilding? with
      | none => rw [step_finish_of_none hl, step_finish_of_none (c := c.withoutReports) hl]
      | some live =>
        have hl' : c.withoutReports.rebuilding? = some live := hl
        rw [step_finish_of_some hr hl, step_finish_of_some hr' hl', withoutReports_settle]
        rfl

theorem publishing_withoutReports (c : Coordinator ι) (s : Signal ι) : c.withoutReports.publishing s = c.publishing s := by
  cases s <;> rfl

end Coordinator

/-! ## A reader -/

/-- What happens to a coordinator and the reader of its reports. -/
inductive Moment (ι : Type) where
  | signal (s : Signal ι)
  /-- The reader takes the oldest report that waits, if there is one. -/
  | read
  /-- The reader goes away. -/
  | leave

/-- What the coordinator is told at a moment. -/
def Moment.signal? : Moment ι → Option (Signal ι)
  | signal s => some s
  | read | leave => none

/-- A coordinator and the reports read so far, oldest first. -/
structure Watched (ι : Type) where
  coordinator : Coordinator ι
  read : List Report := []

namespace Watched

/-- A coordinator at the start that makes room for `capacity` reports. -/
def start (template : Matcher ι) (capacity : Nat) : Watched ι where
  coordinator := .start template (some capacity)

/-- The reports that wait to be read. -/
def queue (w : Watched ι) : ReportQueue := w.coordinator.reports

/-- The same with another queue. -/
def withQueue (w : Watched ι) (q : ReportQueue) : Watched ι :=
  { w with coordinator := { w.coordinator with reports := q } }

variable [BEq ι]

/-- What becomes of both at a moment. -/
def step (w : Watched ι) : Moment ι → Watched ι
  | .signal s => { w with coordinator := w.coordinator.step s }
  | .read =>
    { w.withQueue { w.queue with reports := w.queue.reports.tail } with
      read := w.read ++ w.queue.reports.head?.toList }
  | .leave => w.withQueue w.queue.dropReader

/-- What becomes of both at several moments, one after the other. -/
def run (w : Watched ι) (moments : List (Moment ι)) : Watched ι := moments.foldl step w

/-- The rebuild that is completed at a moment. -/
def completing (w : Watched ι) (m : Moment ι) : List (Completion ι) :=
  (m.signal?.bind w.coordinator.completing?).toList

/-- The rebuilds that are completed, in order. -/
def completions (w : Watched ι) (moments : List (Moment ι)) : List (Completion ι) := outputs step completing w moments

/-- The matchers that are published, in order. -/
def publications (w : Watched ι) (moments : List (Moment ι)) : List (Matcher ι) :=
  outputs step (fun w m => m.signal?.toList.flatMap w.coordinator.publishing) w moments

variable {template : Matcher ι} {capacity : Nat}

/-- A rebuild is done when the coordinator is told so. -/
theorem eq_finish_of_completing {w : Watched ι} {m : Moment ι} {r : Completion ι} (h : w.completing m = [r]) :
    ∃ asked, m = .signal (.finish asked) ∧ w.coordinator.completing? (.finish asked) = some r := by
  cases m with
  | read => cases h
  | leave => cases h
  | signal s =>
    have hs : w.coordinator.completing? s = some r := Option.toList_eq_singleton_iff.mp h
    obtain ⟨asked, -, rfl, -⟩ := Coordinator.completing?_eq_some.mp hs
    exact ⟨asked, rfl, hs⟩

/-! ## What the reader does not change -/

theorem withoutReports_step (w : Watched ι) (m : Moment ι) : (w.step m).coordinator.withoutReports =
    w.coordinator.withoutReports.run m.signal?.toList := by
  cases m with
  | signal s => exact w.coordinator.withoutReports_step s
  | read => rfl
  | leave => rfl

theorem run_append (w : Watched ι) (front back : List (Moment ι)) : w.run (front ++ back) = (w.run front).run back :=
  List.foldl_append

omit [BEq ι] in
theorem filterMap_signal?_cons (m : Moment ι) (moments : List (Moment ι)) :
    (m :: moments).filterMap Moment.signal? = m.signal?.toList ++ moments.filterMap Moment.signal? := by
  rw [List.filterMap_eq_flatMap_toList, List.filterMap_eq_flatMap_toList, List.flatMap_cons]

/-- The coordinator does what it is told, whatever the reader does. -/
theorem withoutReports_run (w : Watched ι) (moments : List (Moment ι)) : (w.run moments).coordinator.withoutReports =
    w.coordinator.withoutReports.run (moments.filterMap Moment.signal?) := by
  induction moments generalizing w with
  | nil => rfl
  | cons m moments ih =>
    rw [filterMap_signal?_cons, Coordinator.run_append, ← w.withoutReports_step m]
    exact ih (w.step m)

/-- What is compiled are the mutations that had been accepted when the rebuild began. -/
theorem live_of_completing {moments : List (Moment ι)} {asked : Nat} {r : Completion ι}
    (h : ((start template capacity).run moments).coordinator.completing? (.finish asked) = some r) :
    let quiet := Coordinator.start template none
    let signals := moments.filterMap Moment.signal?
    r.live = ({} : LiveSet ι).fold ((quiet.accepted signals).take (quiet.marks 0 ⟨0, 0⟩ signals).taken) := by
  intro quiet signals
  obtain ⟨_, live, -, hr, hl, rfl⟩ := Coordinator.completing?_eq_some.mp h
  have hquiet : ((start template capacity).run moments).coordinator.withoutReports = quiet.run signals :=
    withoutReports_run _ moments
  have hrunning : (quiet.run signals).isRunning = true := hquiet ▸ hr
  have hlive : (quiet.run signals).rebuilding? = some live := hquiet ▸ hl
  exact ((Coordinator.prefixes_run template none signals).rebuild_eq hrunning hlive).2

/-- What is published is the same with reports disabled. -/
theorem publications_eq (w : Watched ι) (moments : List (Moment ι)) : w.publications moments =
    w.coordinator.withoutReports.publications (moments.filterMap Moment.signal?) := by
  induction moments generalizing w with
  | nil => rfl
  | cons m moments ih =>
    have hnow : m.signal?.toList.flatMap w.coordinator.publishing =
        w.coordinator.withoutReports.publications m.signal?.toList := by
      cases m with
      | signal s => exact congrArg (· ++ []) (w.coordinator.publishing_withoutReports s).symm
      | read => rfl
      | leave => rfl
    rw [filterMap_signal?_cons, Coordinator.publications_append, ← w.withoutReports_step m, ← hnow, ← ih]
    rfl

/-! ## What the reader gets -/

/-- The reports of the rebuilds that found room in the queue. -/
def sent (done : List (Completion ι)) : List Report := (done.filter (·.queue.hasRoom)).map Completion.report

/-- What is known of the queue `q` and of the reports that were read when some rebuilds have
been completed. -/
structure Ledger (limit : Nat) (q : ReportQueue) (read : List Report) (done : List (Completion ι)) : Prop where
  capacity : q.capacity = some limit
  length_le : q.reports.length ≤ max 1 limit
  /-- As long as the reader is there, what was sent has been read or waits. -/
  present : q.hasReader = true → read ++ q.reports = sent done
  gone : q.hasReader = false → q.reports = [] ∧ read <+: sent done

namespace Ledger

variable {limit : Nat} {q : ReportQueue} {read : List Report} {done : List (Completion ι)}

omit [BEq ι]

theorem start (limit : Nat) : Ledger limit { capacity := some limit } [] ([] : List (Completion ι)) where
  capacity := rfl
  length_le := Nat.zero_le _
  present := fun _ => rfl
  gone := fun h => nomatch h

/-- A report finds room as long as the queue is not full and somebody may read it. -/
theorem hasRoom_iff (h : Ledger limit q read done) :
    q.hasRoom = true ↔ q.hasReader = true ∧ q.reports.length < max 1 limit := by
  rw [ReportQueue.hasRoom, h.capacity]
  simp

theorem hasRoom_eq_false_iff (h : Ledger limit q read done) :
    q.hasRoom = false ↔ q.hasReader = false ∨ q.reports.length = max 1 limit := by
  rw [← Bool.not_eq_true, h.hasRoom_iff, not_and_or, Bool.not_eq_true, Nat.not_lt]
  exact or_congr_right ⟨fun hle => Nat.le_antisymm h.length_le hle, fun heq => heq.ge⟩

theorem prefix_sent (h : Ledger limit q read done) : read <+: sent done := by
  cases hr : q.hasReader with
  | true => exact ⟨_, h.present hr⟩
  | false => exact (h.gone hr).2

/-- A report that finds room is sent and waits; one that finds none is not sent. -/
theorem push (h : Ledger limit q read done) {r : Completion ι} (hr : r.queue = q) :
    Ledger limit (q.push r.report) read (done ++ [r]) := by
  cases hroom : q.hasRoom with
  | false =>
    have hsent : sent (done ++ [r]) = sent done := by simp [sent, hr, hroom]
    have hpush : q.push r.report = q := if_neg (Bool.eq_false_iff.mp hroom)
    rw [hpush]
    exact ⟨h.capacity, h.length_le, fun hp => (h.present hp).trans hsent.symm, fun hg => hsent ▸ h.gone hg⟩
  | true =>
    have hsent : sent (done ++ [r]) = sent done ++ [r.report] := by simp [sent, hr, hroom]
    have hpush : q.push r.report = { q with reports := q.reports ++ [r.report] } := if_pos hroom
    obtain ⟨hreader, hlt⟩ := h.hasRoom_iff.mp hroom
    rw [hpush]
    refine ⟨h.capacity, ?_, fun _ => ?_, fun hg => absurd hreader (Bool.eq_false_iff.mp hg)⟩
    · rw [List.length_append]
      exact hlt
    · rw [← List.append_assoc, h.present hreader, hsent]

/-- The oldest report that waits is read. -/
theorem pop (h : Ledger limit q read done) :
    Ledger limit { q with reports := q.reports.tail } (read ++ q.reports.head?.toList) done := by
  have hsplit : q.reports.head?.toList ++ q.reports.tail = q.reports := by cases q.reports <;> rfl
  refine ⟨h.capacity, ?_, fun hp => ?_, fun hg => ?_⟩
  · rw [List.length_tail]
    exact Nat.le_trans (Nat.sub_le _ _) h.length_le
  · rw [List.append_assoc, hsplit]
    exact h.present hp
  · obtain ⟨hnil, hprefix⟩ := h.gone hg
    rw [hnil]
    exact ⟨rfl, by rwa [List.head?_nil, Option.toList_none, List.append_nil]⟩

/-- What waits is lost when the reader goes away. -/
theorem dropReader (h : Ledger limit q read done) : Ledger limit q.dropReader read done where
  capacity := h.capacity
  length_le := Nat.zero_le _
  present := fun hp => nomatch hp
  gone := fun _ => ⟨rfl, h.prefix_sent⟩

end Ledger

/-- Every moment keeps the ledger. -/
theorem ledger_step {limit : Nat} {w : Watched ι} {done : List (Completion ι)} (h : Ledger limit w.queue w.read done)
    (m : Moment ι) : Ledger limit (w.step m).queue (w.step m).read (done ++ w.completing m) := by
  cases m with
  | read => exact (List.append_nil done).symm ▸ h.pop
  | leave => exact (List.append_nil done).symm ▸ h.dropReader
  | signal s =>
    have hqueue : (w.step (.signal s)).queue = _ := w.coordinator.reports_step s
    have hcompleting : w.completing (.signal s) = (w.coordinator.completing? s).toList := rfl
    rw [hqueue, hcompleting]
    cases hr : w.coordinator.completing? s with
    | none => exact (List.append_nil done).symm ▸ h
    | some r => exact h.push (Coordinator.queue_of_completing hr)

theorem ledger_run (template : Matcher ι) (limit : Nat) (moments : List (Moment ι)) :
    let w := (start template limit).run moments
    Ledger limit w.queue w.read ((start template limit).completions moments) := by
  intro w
  induction moments using List.reverseRecOn with
  | nil => exact .start limit
  | append_singleton moments m ih =>
    have hcompletions : (start template limit).completions (moments ++ [m]) =
        (start template limit).completions moments ++ ((start template limit).run moments).completing m := by
      simp [completions, outputs_append, outputs, run]
    have hw : w = ((start template limit).run moments).step m := run_append _ moments [m]
    rw [hcompletions, hw]
    exact ledger_step ih m

/-- Reports are true, and they change nothing. Whenever a reader takes some, stops or goes away:
no more wait than there is room for; what is received are reports of completed rebuilds, in
order, of which one is lost just if the queue is full or nobody reads when the rebuild is done;
each tells the number of live pairs of the accepted mutations that were folded, which is the
size of the matcher published, or why the coordinator has ended; and what is published is the
same with reports disabled. -/
theorem reports_truthful [LawfulBEq ι] (template : Matcher ι) (limit : Nat) (moments : List (Moment ι)) :
    let first := start template limit
    let w := first.run moments
    let done := first.completions moments
    let quiet := Coordinator.start template none
    w.queue.reports.length ≤ max 1 limit ∧
      w.read.Sublist (done.map Completion.report) ∧
      -- What was sent has been read or waits, until the reader goes away.
      (w.queue.hasReader = true → w.read ++ w.queue.reports = sent done) ∧
      (w.queue.hasReader = false → w.queue.reports = [] ∧ w.read <+: sent done) ∧
      (∀ earlier r later, done = earlier ++ r :: later → ∃ front asked back,
        moments = front ++ .signal (.finish asked) :: back ∧ first.completions front = earlier ∧
        let before := (first.run front).coordinator
        let after := before.step (.finish asked)
        let signals := front.filterMap Moment.signal?
        let folded := (quiet.accepted signals).take (quiet.marks 0 ⟨0, 0⟩ signals).taken
        before.completing? (.finish asked) = some r ∧
          r.queue = before.reports ∧
          (r.queue.hasRoom = false ↔ r.queue.hasReader = false ∨ r.queue.reports.length = max 1 limit) ∧
          r.report.liveSize = {p : ι × String | LiveAfter folded p.1 p.2}.ncard ∧
          (r.report.error = none ∧ after.isRunning = true ∧ before.publishing (.finish asked) = [after.published] ∧
              after.published.size = r.report.liveSize ∨
            ∃ e, r.report.error = some e ∧ before.publishing (.finish asked) = [] ∧
              after.outcome = some (.error (.rebuild e)))) ∧
      -- With reports disabled the coordinator does the same.
      w.coordinator.withoutReports = quiet.run (moments.filterMap Moment.signal?) ∧
      first.publications moments = quiet.publications (moments.filterMap Moment.signal?) := by
  intro first w done quiet
  have hledger := ledger_run template limit moments
  refine ⟨hledger.length_le, ?_, hledger.present, hledger.gone, fun earlier r later hdone => ?_,
    first.withoutReports_run moments, first.publications_eq moments⟩
  · exact hledger.prefix_sent.sublist.trans (List.filter_sublist.map _)
  · obtain ⟨front, m, back, rfl, hearlier, hcompleting⟩ := outputs_eq_append_cons (fun _ _ => ⟨_, rfl⟩) hdone
    obtain ⟨asked, rfl, hr⟩ := eq_finish_of_completing hcompleting
    have hfront := ledger_run template limit front
    refine ⟨front, asked, back, rfl, hearlier, hr, ?_, ?_, ?_, Coordinator.step_finish_of_completing hr⟩
    · exact Coordinator.queue_of_completing hr
    · rw [Coordinator.queue_of_completing hr]
      exact hfront.hasRoom_eq_false_iff
    · exact (congrArg LiveSet.size (live_of_completing hr)).trans (LiveSet.ncard_liveAfter _).symm

/-- There is room for one report, and two rebuilds are done before anybody reads. -/
theorem reports_truthful_unread :
    let first : Watched Bool := start (.empty Json.flatten) 1
    let moments : List (Moment Bool) :=
      [.signal (.accept (.add true "\x7b\"a\":[true]\x7d")), .signal .trigger, .signal (.finish 0),
        .signal (.accept (.add false "\x7b\"a\":[true]\x7d")), .signal .trigger, .signal (.finish 0), .read]
    (first.run moments).read.map Report.liveSize = [1] ∧
      (first.completions moments).map (fun r => (r.report.liveSize, r.queue.reports.length)) = [(1, 0), (2, 1)] ∧
      (first.run moments).read.Sublist ((first.completions moments).map Completion.report) ∧
      first.publications moments =
        (Coordinator.start (.empty Json.flatten) none).publications (moments.filterMap Moment.signal?) := by
  intro first moments
  obtain ⟨-, hread, -, -, -, -, hpublications⟩ := reports_truthful (.empty Json.flatten) 1 moments
  exact ⟨by decide +kernel, by decide +kernel, hread, hpublications⟩

end Watched

end EventMatch
