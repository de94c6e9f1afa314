import EventMatch.Proofs.Live.Exchange

/-!
# After the end

What is published is what the last successful rebuild made (`published_run`). The
coordinator ends by cancellation or by a rebuild that fails (`Change.ending`), of which
neither publishes anything, and stays as it ended. From then on every call is answered
at once (`closed_exchange`).
-/

namespace EventMatch

variable {ι : Type} [BEq ι]

namespace Coordinator

/-! ## What is published -/

/-- The matcher that a rebuild makes, unless it fails. -/
def made : Except MatchError Unit × Matcher ι → List (Matcher ι)
  | (.ok (), m) => [m]
  | (.error _, _) => []

/-- The matcher that a signal publishes. -/
def publishing (c : Coordinator ι) : Signal ι → List (Matcher ι)
  | .finish asked => if c.isRunning then c.rebuilding?.toList.flatMap fun live => made (c.compile live asked) else []
  | .accept _ | .trigger | .cancel => []

/-- The matchers published in the course of some signals. -/
def publications (c : Coordinator ι) (signals : List (Signal ι)) : List (Matcher ι) :=
  outputs step publishing c signals

theorem publications_cons (c : Coordinator ι) (s : Signal ι) (signals : List (Signal ι)) :
    c.publications (s :: signals) = c.publishing s ++ (c.step s).publications signals := rfl

theorem publications_append (c : Coordinator ι) (front back : List (Signal ι)) :
    c.publications (front ++ back) = c.publications front ++ (c.run front).publications back :=
  outputs_append step publishing c front back

theorem publishing_of_not_publishes {c : Coordinator ι} {s : Signal ι} (h : ¬ c.Publishes s) : c.publishing s = [] := by
  cases s with
  | accept m => rfl
  | trigger => rfl
  | cancel => rfl
  | finish asked =>
    cases hr : c.isRunning with
    | false => simp [publishing, hr]
    | true =>
      cases hl : c.rebuilding? with
      | none => simp [publishing, hl]
      | some live =>
        rcases hc : c.compile live asked with ⟨r, m⟩
        cases r with
        | ok u => exact absurd ⟨hr, live, hl, by rw [hc]⟩ h
        | error e => simp [publishing, hl, hc, made]

/-- A signal publishes the matcher that is seen from then on. -/
theorem Change.published_eq {c c' : Coordinator ι} {s : Signal ι} (h : Change c s c') :
    c'.published = (c.publishing s).getLastD c.published := by
  cases h with
  | unchanged hn => rw [publishing_of_not_publishes hn]; rfl
  | accepted _ => rfl
  | started _ _ => rfl
  | cancelled _ => rfl
  | rebuilt hr hl hc => simp [publishing, hr, hl, hc, made, settle]
  | failed _ hl hc => simp [publishing, hl, hc, made, settle]

/-- The matcher that queries see is the one published last. -/
theorem published_run (c : Coordinator ι) (signals : List (Signal ι)) :
    (c.run signals).published = (c.publications signals).getLastD c.published := by
  induction signals generalizing c with
  | nil => rfl
  | cons s signals ih =>
    have hrest := ih (c.step s)
    rw [(c.change_step s).published_eq] at hrest
    rw [publications_cons, List.getLastD_eq_getLast?, List.getLast?_append]
    rw [List.getLastD_eq_getLast?, List.getLastD_eq_getLast?] at hrest
    refine hrest.trans ?_
    cases ((c.step s).publications signals).getLast? <;> rfl

theorem publications_of_not_isRunning {c : Coordinator ι} (h : c.isRunning = false) (signals : List (Signal ι)) :
    c.publications signals = [] := by
  induction signals with
  | nil => rfl
  | cons s signals ih =>
    have hnone : ¬ c.Publishes s := by
      cases s <;> simp [Publishes, h]
    rw [publications_cons, publishing_of_not_publishes hnone, step_of_not_isRunning h, ih]
    rfl

/-! ## How the coordinator ends -/

/-- The last signal: the coordinator is cancelled, or a rebuild fails. Neither publishes anything. -/
theorem Change.ending {c c' : Coordinator ι} {s : Signal ι} (h : Change c s c') (hr : c.isRunning = true)
    (hended : c'.isRunning = false) :
    c.publishing s = [] ∧
      (s = .cancel ∧ c'.outcome = some (.ok ()) ∨
        ∃ asked live e, s = .finish asked ∧ c.rebuilding? = some live ∧ (c.compile live asked).1 = .error e ∧
          c'.outcome = some (.error (.rebuild e))) := by
  have hsame : c'.outcome = c.outcome → False := fun e => by
    rw [isRunning, e, ← isRunning, hr] at hended
    cases hended
  cases h with
  | unchanged _ => exact (hsame rfl).elim
  | accepted _ => exact (hsame rfl).elim
  | started _ _ => exact (hsame rfl).elim
  | rebuilt _ _ _ => exact (hsame rfl).elim
  | cancelled _ => exact ⟨rfl, .inl ⟨rfl, rfl⟩⟩
  | @failed asked live m e _ hl hc =>
    exact ⟨by simp [publishing, hl, hc, made], .inr ⟨asked, live, e, rfl, hl, by rw [hc], rfl⟩⟩

end Coordinator

namespace Exchange

/-- A run that ended did so with one of its actions. -/
theorem exists_ending {x : Exchange ι} {actions : List (Action ι)} (hx : x.coordinator.isRunning = true)
    (h : (x.run actions).coordinator.isRunning = false) :
    ∃ before last later, actions = before ++ last :: later ∧ (x.run before).coordinator.isRunning = true ∧
      ((x.run before).step last).coordinator.isRunning = false := by
  induction actions generalizing x with
  | nil =>
    have hend : x.coordinator.isRunning = false := h
    rw [hx] at hend
    cases hend
  | cons a actions ih =>
    cases ha : (x.step a).coordinator.isRunning with
    | false => exact ⟨[], a, actions, rfl, hx, ha⟩
    | true =>
      obtain ⟨before, last, later, rfl, hrunning, hended⟩ := ih ha h
      exact ⟨a :: before, last, later, rfl, hrunning, hended⟩

omit [BEq ι] in
/-- The coordinator is told one thing at a time. -/
theorem signals_eq (x : Exchange ι) (a : Action ι) : x.signals a = [] ∨ ∃ s, x.signals a = [s] ∧
    (s = .cancel → a = .cancel) ∧ ∀ asked, s = .finish asked → a = .finish ∧ asked = x.asked := by
  cases a with
  | receive => cases hslot : x.mailbox.slot <;> simp [signals, receiving, hslot]
  | trigger => exact .inr ⟨.trigger, rfl, by simp⟩
  | finish => exact .inr ⟨.finish x.asked, rfl, by simp⟩
  | cancel => exact .inr ⟨.cancel, rfl, by simp⟩
  | _ => exact .inl rfl

/-- The last action of the coordinator: it is cancelled, or finishes a rebuild that fails. -/
theorem ending_action {x : Exchange ι} {a : Action ι} (hx : x.coordinator.isRunning = true)
    (h : (x.step a).coordinator.isRunning = false) :
    x.coordinator.publications (x.signals a) = [] ∧
      (a = .cancel ∧ (x.step a).coordinator.outcome = some (.ok ()) ∨
        a = .finish ∧ ∃ live e, x.coordinator.rebuilding? = some live ∧
          (x.coordinator.compile live x.asked).1 = .error e ∧
          (x.step a).coordinator.outcome = some (.error (.rebuild e))) := by
  have hcoordinator := (x.effect_step a).coordinator_eq
  rcases x.signals_eq a with hs | ⟨s, hs, hcancel, hfinish⟩
  · rw [hcoordinator, hs] at h
    exact absurd hx (Bool.eq_false_iff.mp h)
  · have hstep : (x.step a).coordinator = x.coordinator.step s := by
      rw [hcoordinator, hs]
      rfl
    rw [hstep] at h ⊢
    obtain ⟨hnone, hending⟩ := (x.coordinator.change_step s).ending hx h
    refine ⟨by rw [hs, Coordinator.publications_cons, hnone]; rfl, ?_⟩
    rcases hending with ⟨e, hout⟩ | ⟨asked, live, err, e, hl, hc, hout⟩
    · exact .inl ⟨hcancel e, hout⟩
    · obtain ⟨ha, rfl⟩ := hfinish asked e
      exact .inr ⟨ha, live, err, hl, hc, hout⟩

/-- Nothing is accepted by a closed mailbox. -/
theorem refusal?_of_closed {x : Exchange ι} (h : x.mailbox.isOpen = false) (r : Request ι) :
    x.refusal? r = some (match x.check r.mutation with
      | .error e => e
      | .ok () => if r.isCancelled then .cancelled else .closed) := by
  unfold refusal?
  rw [h]
  cases x.check r.mutation with
  | error e => rfl
  | ok u => cases r.isCancelled <;> rfl

/-- Once the coordinator has ended, what is published stays as it was, and every call is
answered at once: first come faults in the text, then the caller's token. -/
theorem closed_exchange (template : Matcher ι) (capacity : Option Nat) (actions : List (Action ι))
    (hended : ((start template capacity).run actions).coordinator.isRunning = false) :
    let first := start template capacity
    let y := first.run actions
    ∃ before last later, actions = before ++ last :: later ∧
      let x := first.run before
      x.coordinator.isRunning = true ∧
      -- It was cancelled or a rebuild failed.
      (last = .cancel ∧ y.coordinator.outcome = some (.ok ()) ∨
        last = .finish ∧ ∃ live e, x.coordinator.rebuilding? = some live ∧
          (x.coordinator.compile live x.asked).1 = .error e ∧
          y.coordinator.outcome = some (.error (.rebuild e))) ∧
      -- Nothing was published since, and nothing has changed.
      y.coordinator.published =
        (first.coordinator.publications (first.signalsOf before)).getLastD template.emptyLike ∧
      first.coordinator.publications (first.signalsOf actions) =
        first.coordinator.publications (first.signalsOf before) ∧
      y.coordinator.published = x.coordinator.published ∧ y.coordinator = (x.step last).coordinator ∧
      -- Calls are turned down.
      (∀ id isCancelled, (y.step (.delete id isCancelled)).calls =
        y.calls ++ [.answered (.error (if isCancelled then .cancelled else .closed))]) ∧
      ∀ id text isCancelled, (y.step (.add id text isCancelled)).calls =
        y.calls ++ [.answered (.error (match (template.alone y.asked id text).1 with
          | .error e => e
          | .ok () => if isCancelled then .cancelled else .closed))] := by
  intro first y
  obtain ⟨before, last, later, rfl, hrunning, hlast⟩ := exists_ending (x := first) rfl hended
  have hclosed : y.mailbox.isOpen = false := ((tied_start template capacity).run _).isOpen.trans hended
  have hy : y.coordinator = ((first.run before).step last).coordinator := by
    have hrun : y = ((first.run before).step last).run later := run_append first before (last :: later)
    rw [hrun, coordinator_run, Coordinator.run_of_not_isRunning hlast]
  obtain ⟨hnone, hending⟩ := ending_action hrunning hlast
  have hpublications : first.coordinator.publications (first.signalsOf (before ++ last :: later)) =
      first.coordinator.publications (first.signalsOf before) := by
    rw [signalsOf_append, signalsOf_cons, Coordinator.publications_append, Coordinator.publications_append,
      ← coordinator_run, hnone, ← (effect_step _ last).coordinator_eq,
      Coordinator.publications_of_not_isRunning hlast]
    simp
  have hpublished : ∀ actions, (first.run actions).coordinator.published =
      (first.coordinator.publications (first.signalsOf actions)).getLastD template.emptyLike := fun actions => by
    rw [coordinator_run, Coordinator.published_run]
    rfl
  refine ⟨before, last, later, rfl, hrunning, hy ▸ hending, ?_, hpublications, ?_, hy, fun id isCancelled => ?_,
    fun id text isCancelled => ?_⟩
  · exact (hpublished _).trans (by rw [hpublications])
  · exact (hpublished _).trans (by rw [hpublications, hpublished])
  · exact calls_of_refusal (r := ⟨.delete id, isCancelled⟩) rfl (refusal?_of_closed hclosed _)
  · have hrefused := refusal?_of_closed hclosed ⟨.add id text, isCancelled⟩
    rw [check_add_run] at hrefused
    exact calls_of_refusal rfl hrefused

/-- The spec parser refuses an extension in the second rebuild that it took in the check. -/
theorem closed_exchange_refused :
    let parser := SpecParser.limited (.ofFunction fun _ => .ok fun _ => true) 1 (.spec (.other "budget"))
    let template : Matcher Bool := .empty Json.flatten (some parser)
    let actions : List (Action Bool) :=
      [.add true "\x7b\"a\":[true]\x7d" false, .receive, .trigger, .finish,
        .add false "\x7b\"b\":[\x7b\"extension\":true\x7d]\x7d" false, .receive, .trigger, .finish]
    let y := (start template none).run actions
    y.coordinator.isRunning = false ∧ y.coordinator.published.size = 1 ∧
      (∃ before last later, actions = before ++ last :: later ∧
        y.coordinator.published = ((start template none).run before).coordinator.published) ∧
      ∀ id isCancelled, (y.step (.delete id isCancelled)).calls =
        y.calls ++ [.answered (.error (if isCancelled then .cancelled else .closed))] := by
  intro parser template actions y
  have hy : y = (start template none).run actions := rfl
  have hended : y.coordinator.isRunning = false := by decide +kernel
  have hsize : y.coordinator.published.size = 1 := by decide +kernel
  obtain ⟨before, last, later, hactions, -, -, -, -, hpublished, -, hdelete, -⟩ :=
    closed_exchange template none actions hended
  exact ⟨hended, hsize, ⟨before, last, later, hactions, by rw [hy]; exact hpublished⟩, hdelete⟩

end Exchange

end EventMatch
