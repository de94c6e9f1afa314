import EventMatch.Live.Coordinator
import Mathlib.Data.List.Induction

/-!
# Snapshots are prefixes

Two marks stand in the list of the mutations accepted so far: up to the first one
they are in the published matcher, up to the second they have been taken from the
buffer. `Prefixes` says what the coordinator holds in terms of the marks. A signal
keeps it (`Prefixes.step`), so it holds at every point of a run
(`prefixes_run`).
-/

namespace EventMatch

variable {ι : Type} [BEq ι]

namespace LiveSet

theorem fold_append (l : LiveSet ι) (front back : List (Mutation ι)) :
    l.fold (front ++ back) = (l.fold front).fold back := List.foldl_append

end LiveSet

namespace Coordinator

/-- The mutation that a signal brings, if it is still accepted. -/
def acceptedBy (c : Coordinator ι) : Signal ι → List (Mutation ι)
  | .accept m => if c.isRunning then [m] else []
  | .trigger | .finish _ | .cancel => []

/-- The mutations accepted in the course of some signals. -/
def accepted (c : Coordinator ι) : List (Signal ι) → List (Mutation ι)
  | [] => []
  | s :: signals => c.acceptedBy s ++ (c.step s).accepted signals

/-- The signal lets a rebuild finish that succeeds, and so publishes its matcher. -/
def Publishes (c : Coordinator ι) : Signal ι → Prop
  | .finish asked => c.isRunning ∧ ∃ live, c.rebuilding? = some live ∧ (c.compile live asked).1 = .ok ()
  | .accept _ | .trigger | .cancel => False

/-- The coordinator is free to start a rebuild and has something to rebuild. -/
def Startable (c : Coordinator ι) : Prop :=
  c.isRunning ∧ c.rebuilding? = none ∧ c.pending ≠ []

theorem accepted_append_singleton (c : Coordinator ι) (signals : List (Signal ι)) (s : Signal ι) :
    c.accepted (signals ++ [s]) = c.accepted signals ++ (c.run signals).acceptedBy s := by
  induction signals generalizing c with
  | nil => exact List.append_nil _
  | cons t signals ih =>
    rw [List.cons_append, accepted, accepted, ih, List.append_assoc]
    rfl

/-- How many of the accepted mutations are in the published matcher, and how many
have been taken from the buffer. -/
structure Marks where
  published : Nat
  taken : Nat

open Classical in
/-- How a signal moves the marks when `n` mutations have been accepted. -/
noncomputable def advance (c : Coordinator ι) (n : Nat) (k : Marks) (s : Signal ι) : Marks :=
  match s with
  | .accept _ | .cancel => k
  | .trigger => if c.Startable then { k with taken := n } else k
  | .finish asked => if c.Publishes (.finish asked) then { k with published := k.taken } else k

/-- The marks after some signals. -/
noncomputable def marks (c : Coordinator ι) (n : Nat) (k : Marks) : List (Signal ι) → Marks
  | [] => k
  | s :: signals => (c.step s).marks (n + (c.acceptedBy s).length) (c.advance n k s) signals

theorem marks_append_singleton (c : Coordinator ι) (n : Nat) (k : Marks) (signals : List (Signal ι))
    (s : Signal ι) : c.marks n k (signals ++ [s]) =
      (c.run signals).advance (n + (c.accepted signals).length) (c.marks n k signals) s := by
  induction signals generalizing c n k with
  | nil => rfl
  | cons t signals ih =>
    rw [List.cons_append, marks, marks, accepted, ih, List.length_append, Nat.add_assoc]
    rfl

/-- What the coordinator `c` holds after the mutations `a` have been accepted, if it
began as `first`. -/
structure Prefixes (first c : Coordinator ι) (a : List (Mutation ι)) (k : Marks) : Prop where
  template : c.template = first.template
  published_le : k.published ≤ k.taken
  taken_le : k.taken ≤ a.length
  published : ∃ asked, first.compile (({} : LiveSet ι).fold (a.take k.published)) asked = (.ok (), c.published)
  pending : c.isRunning → c.pending = a.drop k.taken
  idle : c.isRunning → ∀ live, c.work = .idle live →
    k.published = k.taken ∧ live = ({} : LiveSet ι).fold (a.take k.taken)
  rebuilding : c.isRunning → ∀ base batch, c.work = .rebuilding base batch → k.published < k.taken ∧
    base = ({} : LiveSet ι).fold (a.take k.published) ∧ batch = (a.take k.taken).drop k.published

theorem prefixes_start (template : Matcher ι) (capacity : Option Nat) :
    Prefixes (start template capacity) (start template capacity) [] ⟨0, 0⟩ where
  template := rfl
  published_le := Nat.le_refl 0
  taken_le := Nat.le_refl 0
  published := ⟨template.supply.asked, rfl⟩
  pending := fun _ => rfl
  idle := fun _ live h => by
    cases h
    exact ⟨rfl, rfl⟩
  rebuilding := fun _ _ _ h => by cases h

/-- What is folded into a rebuild are the mutations up to the second mark. -/
theorem Prefixes.rebuild_eq {first c : Coordinator ι} {a : List (Mutation ι)} {k : Marks}
    (h : Prefixes first c a k) (hr : c.isRunning) {live : LiveSet ι} (hl : c.rebuilding? = some live) :
    k.published < k.taken ∧ live = ({} : LiveSet ι).fold (a.take k.taken) := by
  cases hw : c.work with
  | idle live => simp [rebuilding?, hw] at hl
  | rebuilding base batch =>
    obtain ⟨hlt, hbase, hbatch⟩ := h.rebuilding hr base batch hw
    have hfold : base.fold batch = live := by simpa [rebuilding?, hw] using hl
    refine ⟨hlt, ?_⟩
    have htake : a.take k.published = (a.take k.taken).take k.published := by
      rw [List.take_take, Nat.min_eq_left h.published_le]
    rw [← hfold, hbase, hbatch, ← LiveSet.fold_append, htake, List.take_append_drop]

/-! ## Single signals -/

section

variable {c : Coordinator ι}

theorem step_of_isRunning (h : c.isRunning) (s : Signal ι) : c.step s =
    match s with
    | .accept m => c.accept m
    | .trigger => c.trigger
    | .finish asked => (c.finish asked).1
    | .cancel => c.cancel := if_pos h

/-- A trigger during a rebuild, or with nothing pending, or after the end changes nothing. -/
theorem step_trigger_of_not_startable (h : ¬ c.Startable) : c.step .trigger = c := by
  cases hr : c.isRunning with
  | false => exact step_of_not_isRunning hr _
  | true =>
    rw [step_of_isRunning hr]
    show c.trigger = c
    unfold trigger
    split
    · rfl
    · rename_i live hw
      split
      · rfl
      · rename_i hne
        refine absurd ⟨hr, ?_, fun e => hne (List.isEmpty_iff.mpr e)⟩ h
        rw [rebuilding?, hw]

/-- What a trigger starts. -/
theorem step_trigger_of_startable (h : c.Startable) : ∃ live, c.work = .idle live ∧
    c.step .trigger = { c with work := .rebuilding live c.pending, pending := [] } := by
  obtain ⟨hr, hb, hne⟩ := h
  rw [step_of_isRunning hr]
  cases hw : c.work with
  | rebuilding base batch => simp [rebuilding?, hw] at hb
  | idle live =>
    refine ⟨live, rfl, ?_⟩
    show c.trigger = _
    rw [trigger, hw]
    exact if_neg fun e => hne (List.isEmpty_iff.mp e)

/-- Without a rebuild on the way nothing can finish. -/
theorem step_finish_of_none (h : c.rebuilding? = none) (asked : Nat) : c.step (.finish asked) = c := by
  cases hr : c.isRunning with
  | false => exact step_of_not_isRunning hr _
  | true =>
    rw [step_of_isRunning hr]
    show (c.finish asked).1 = c
    rw [finish, h]

theorem step_finish_of_some (hr : c.isRunning) {live : LiveSet ι} (h : c.rebuilding? = some live) (asked : Nat) :
    c.step (.finish asked) = c.settle live (c.compile live asked) := by
  rw [step_of_isRunning hr]
  show (c.finish asked).1 = _
  rw [finish, h]

/-- A signal that publishes nothing leaves the published matcher. -/
theorem published_step_of_not_publishes {s : Signal ι} (h : ¬ c.Publishes s) :
    (c.step s).published = c.published := by
  cases hr : c.isRunning with
  | false => rw [step_of_not_isRunning hr]
  | true =>
    cases s with
    | accept m => rw [step_of_isRunning hr]; rfl
    | trigger =>
      by_cases hs : c.Startable
      · obtain ⟨live, -, e⟩ := step_trigger_of_startable hs
        rw [e]
      · rw [step_trigger_of_not_startable hs]
    | cancel => rw [step_of_isRunning hr]; rfl
    | finish asked =>
      cases hl : c.rebuilding? with
      | none => rw [step_finish_of_none hl]
      | some live =>
        rw [step_finish_of_some hr hl]
        rcases hc : c.compile live asked with ⟨r, m⟩
        cases r with
        | ok u => exact absurd ⟨hr, live, hl, by rw [hc]⟩ h
        | error e => rfl

/-- What a signal can do to the coordinator. -/
inductive Change (c : Coordinator ι) : Signal ι → Coordinator ι → Prop
  /-- It comes after the end, or there is nothing to start or to finish. -/
  | unchanged {s : Signal ι} (h : ¬ c.Publishes s) : Change c s c
  | accepted {m : Mutation ι} (hr : c.isRunning) : Change c (.accept m) (c.accept m)
  | started {live : LiveSet ι} (hr : c.isRunning) (hw : c.work = .idle live) :
      Change c .trigger { c with work := .rebuilding live c.pending, pending := [] }
  | rebuilt {asked : Nat} {live : LiveSet ι} {m : Matcher ι} (hr : c.isRunning) (hl : c.rebuilding? = some live)
      (hc : c.compile live asked = (.ok (), m)) : Change c (.finish asked) (c.settle live (.ok (), m))
  | failed {asked : Nat} {live : LiveSet ι} {m : Matcher ι} {e : MatchError} (hr : c.isRunning)
      (hl : c.rebuilding? = some live) (hc : c.compile live asked = (.error e, m)) :
      Change c (.finish asked) (c.settle live (.error e, m))
  | cancelled (hr : c.isRunning) : Change c .cancel c.cancel

theorem change_step (c : Coordinator ι) (s : Signal ι) : Change c s (c.step s) := by
  cases hr : c.isRunning with
  | false =>
    rw [step_of_not_isRunning hr]
    exact .unchanged (by cases s <;> simp [Publishes, hr])
  | true =>
    cases s with
    | accept m =>
      rw [step_of_isRunning hr]
      exact .accepted hr
    | cancel =>
      rw [step_of_isRunning hr]
      exact .cancelled hr
    | trigger =>
      by_cases hs : c.Startable
      · obtain ⟨live, hw, e⟩ := step_trigger_of_startable hs
        rw [e]
        exact .started hr hw
      · rw [step_trigger_of_not_startable hs]
        exact .unchanged id
    | finish asked =>
      cases hl : c.rebuilding? with
      | none =>
        rw [step_finish_of_none hl]
        exact .unchanged fun ⟨_, _, h, _⟩ => by simp [hl] at h
      | some live =>
        rw [step_finish_of_some hr hl]
        rcases hc : c.compile live asked with ⟨r, m⟩
        cases r with
        | ok u => exact .rebuilt hr hl hc
        | error e => exact .failed hr hl hc

end

/-! ## The invariant -/

variable {first c : Coordinator ι} {a : List (Mutation ι)} {k : Marks}

theorem Prefixes.step_accept (h : Prefixes first c a k) (m : Mutation ι) :
    Prefixes first (c.accept m) (a ++ [m]) k := by
  have htake : ∀ {i : Nat}, i ≤ a.length → (a ++ [m]).take i = a.take i := fun hi =>
    List.take_append_of_le_length hi
  refine ⟨h.template, h.published_le, ?_, ?_, fun hr => ?_, fun hr live hw => ?_, fun hr base batch hw => ?_⟩
  · rw [List.length_append]
    exact Nat.le_add_right_of_le h.taken_le
  · rw [htake (Nat.le_trans h.published_le h.taken_le)]
    exact h.published
  · rw [List.drop_append_of_le_length h.taken_le]
    exact congrArg (· ++ [m]) (h.pending hr)
  · rw [htake h.taken_le]
    exact h.idle hr live hw
  · rw [htake h.taken_le, htake (Nat.le_trans h.published_le h.taken_le)]
    exact h.rebuilding hr base batch hw

/-- After a trigger that starts a rebuild everything accepted has been taken. -/
theorem Prefixes.step_trigger (h : Prefixes first c a k) (hs : c.Startable) :
    Prefixes first (c.step .trigger) a { k with taken := a.length } := by
  obtain ⟨live, hw, e⟩ := step_trigger_of_startable hs
  obtain ⟨hr, -, hne⟩ := hs
  obtain ⟨hk, hlive⟩ := h.idle hr live hw
  have hpending := h.pending hr
  have hlt : k.taken < a.length := by
    refine Nat.lt_of_le_of_ne h.taken_le fun e => hne ?_
    rw [hpending, e, List.drop_length]
  rw [e]
  refine ⟨h.template, Nat.le_trans h.published_le h.taken_le, Nat.le_refl _, h.published, fun _ => ?_,
    fun _ live' hw' => ?_, fun _ base batch hw' => ?_⟩
  · exact List.drop_length.symm
  · cases hw'
  · cases hw'
    refine ⟨hk ▸ hlt, by rw [hk, hlive], ?_⟩
    rw [hpending, List.take_length, hk]

/-- A rebuild that succeeds publishes what has been taken. -/
theorem Prefixes.step_finish (h : Prefixes first c a k) {asked : Nat} (hs : c.Publishes (.finish asked)) :
    k.published < k.taken ∧ Prefixes first (c.step (.finish asked)) a { k with published := k.taken } := by
  obtain ⟨hr, live, hl, hc⟩ := hs
  obtain ⟨hlt, hlive⟩ := h.rebuild_eq hr hl
  obtain ⟨m, hm⟩ : ∃ m, c.compile live asked = (.ok (), m) := ⟨_, Prod.ext hc rfl⟩
  have hfirst : first.compile live asked = (.ok (), m) := by
    rw [compile, ← h.template]
    exact hm
  rw [step_finish_of_some hr hl, hm]
  refine ⟨hlt, h.template, Nat.le_refl _, h.taken_le, ⟨asked, ?_⟩, h.pending, fun _ live' hw => ?_,
    fun _ base batch hw => ?_⟩
  · rw [← hlive]
    exact hfirst
  · cases hw
    exact ⟨rfl, hlive⟩
  · cases hw

/-- After the end only what is published counts. -/
theorem Prefixes.of_ended (h : Prefixes first c a k) {c' : Coordinator ι} (ht : c'.template = c.template)
    (hp : c'.published = c.published) (hr : c'.isRunning = false) : Prefixes first c' a k := by
  refine ⟨ht.trans h.template, h.published_le, h.taken_le, hp ▸ h.published, ?_, ?_, ?_⟩
  all_goals
    intro hr'
    rw [hr] at hr'
    cases hr'

/-- Every signal keeps the invariant. -/
theorem Prefixes.step (h : Prefixes first c a k) (s : Signal ι) :
    Prefixes first (c.step s) (a ++ c.acceptedBy s) (c.advance a.length k s) := by
  cases s with
  | accept m =>
    cases hr : c.isRunning with
    | false =>
      rw [step_of_not_isRunning hr, acceptedBy, hr, if_neg Bool.false_ne_true, List.append_nil]
      exact h
    | true =>
      rw [step_of_isRunning hr, acceptedBy, hr, if_pos rfl]
      exact h.step_accept m
  | trigger =>
    rw [acceptedBy, List.append_nil, advance]
    by_cases hs : c.Startable
    · rw [if_pos hs]
      exact h.step_trigger hs
    · rw [if_neg hs, step_trigger_of_not_startable hs]
      exact h
  | finish asked =>
    rw [acceptedBy, List.append_nil, advance]
    by_cases hs : c.Publishes (.finish asked)
    · rw [if_pos hs]
      exact (h.step_finish hs).2
    · rw [if_neg hs]
      cases hr : c.isRunning with
      | false =>
        rw [step_of_not_isRunning hr]
        exact h
      | true =>
        cases hl : c.rebuilding? with
        | none =>
          rw [step_finish_of_none hl]
          exact h
        | some live =>
          rw [step_finish_of_some hr hl]
          rcases hc : c.compile live asked with ⟨r, m⟩
          cases r with
          | ok u => exact absurd ⟨hr, live, hl, by rw [hc]⟩ hs
          | error e => exact h.of_ended rfl rfl rfl
  | cancel =>
    rw [acceptedBy, List.append_nil, advance]
    cases hr : c.isRunning with
    | false =>
      rw [step_of_not_isRunning hr]
      exact h
    | true =>
      rw [step_of_isRunning hr]
      exact h.of_ended rfl rfl rfl

/-- At every point of a run the coordinator holds what the marks say. -/
theorem prefixes_run (template : Matcher ι) (capacity : Option Nat) (signals : List (Signal ι)) :
    let first := start template capacity
    Prefixes first (first.run signals) (first.accepted signals) (first.marks 0 ⟨0, 0⟩ signals) := by
  intro first
  induction signals using List.reverseRecOn with
  | nil => exact prefixes_start template capacity
  | append_singleton signals s ih =>
    rw [run_append, accepted_append_singleton, marks_append_singleton, Nat.zero_add]
    exact ih.step s

theorem published_advance_of_not_publishes {n : Nat} {s : Signal ι} (h : ¬ c.Publishes s) :
    (c.advance n k s).published = k.published := by
  cases s with
  | accept m => rfl
  | cancel => rfl
  | trigger =>
    rw [advance]
    split <;> rfl
  | finish asked => rw [advance, if_neg h]

theorem marks_le_advance (h : Prefixes first c a k) (s : Signal ι) :
    k.published ≤ (c.advance a.length k s).published ∧ k.taken ≤ (c.advance a.length k s).taken := by
  cases s with
  | accept m => exact ⟨Nat.le_refl _, Nat.le_refl _⟩
  | cancel => exact ⟨Nat.le_refl _, Nat.le_refl _⟩
  | trigger =>
    rw [advance]
    split
    · exact ⟨Nat.le_refl _, h.taken_le⟩
    · exact ⟨Nat.le_refl _, Nat.le_refl _⟩
  | finish asked =>
    rw [advance]
    split
    · exact ⟨h.published_le, Nat.le_refl _⟩
    · exact ⟨Nat.le_refl _, Nat.le_refl _⟩

/-- What is published, held and waiting are consecutive pieces of the mutations
accepted so far, between marks that never go back. -/
theorem exists_marks (template : Matcher ι) (capacity : Option Nat) :
    ∃ p d : List (Signal ι) → Nat, ∀ signals : List (Signal ι),
      let first := start template capacity
      let c := first.run signals
      let a := first.accepted signals
      -- The published matcher is compiled from the first `p` mutations.
      p signals ≤ d signals ∧ d signals ≤ a.length ∧
      (∃ asked, first.compile (({} : LiveSet ι).fold (a.take (p signals))) asked = (.ok (), c.published)) ∧
      -- The loop holds the rest.
      (c.isRunning → c.pending = a.drop (d signals) ∧
        match c.work with
        | .idle live => p signals = d signals ∧ live = ({} : LiveSet ι).fold (a.take (d signals))
        | .rebuilding base batch => base = ({} : LiveSet ι).fold (a.take (p signals)) ∧
            batch = (a.take (d signals)).drop (p signals)) ∧
      -- The marks move forward only.
      (∀ s, p signals ≤ p (signals ++ [s]) ∧ d signals ≤ d (signals ++ [s])) ∧
      (∀ s, c.Publishes s → p signals < p (signals ++ [s])) ∧
      (∀ s, ¬ c.Publishes s → p (signals ++ [s]) = p signals ∧
        (first.run (signals ++ [s])).published = c.published) ∧
      -- A trigger takes everything or does nothing.
      (¬ c.Startable → first.run (signals ++ [.trigger]) = c ∧ d (signals ++ [.trigger]) = d signals) ∧
      (c.Startable → d (signals ++ [.trigger]) = a.length) := by
  refine ⟨fun signals => ((start template capacity).marks 0 ⟨0, 0⟩ signals).published,
    fun signals => ((start template capacity).marks 0 ⟨0, 0⟩ signals).taken, fun signals => ?_⟩
  have h := prefixes_run template capacity signals
  intro first c a
  have hstep : ∀ s, first.marks 0 ⟨0, 0⟩ (signals ++ [s]) =
      c.advance a.length (first.marks 0 ⟨0, 0⟩ signals) s := fun s => by
    rw [marks_append_singleton, Nat.zero_add]
  have hrun : ∀ s, first.run (signals ++ [s]) = c.step s := fun s => run_append first signals [s]
  refine ⟨h.published_le, h.taken_le, h.published, fun hr => ⟨h.pending hr, ?_⟩, fun s => ?_, fun s hs => ?_,
    fun s hs => ?_, fun hs => ?_, fun hs => ?_⟩
  · split
    · rename_i live hw
      exact h.idle hr live hw
    · rename_i base batch hw
      exact (h.rebuilding hr base batch hw).2
  · dsimp only
    rw [hstep]
    exact marks_le_advance h s
  · cases s with
    | finish asked =>
      dsimp only
      rw [hstep, advance, if_pos hs]
      exact (h.step_finish hs).1
    | accept m => exact hs.elim
    | trigger => exact hs.elim
    | cancel => exact hs.elim
  · dsimp only
    rw [hstep, hrun]
    exact ⟨published_advance_of_not_publishes hs, published_step_of_not_publishes hs⟩
  · dsimp only
    rw [hstep, hrun, advance, if_neg hs]
    exact ⟨step_trigger_of_not_startable hs, rfl⟩
  · dsimp only
    rw [hstep, advance, if_pos hs]

end Coordinator

end EventMatch
