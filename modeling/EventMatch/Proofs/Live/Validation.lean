import EventMatch.Proofs.Live.Exchange
import EventMatch.Proofs.Live.LiveSet

/-!
# Rebuilds do not fail

A text is compiled alone before it is sent. What compiles alone once does so always
if the spec parser answers by the spec alone, and texts that compile alone compile
together. So a text that got through can be followed from the mailbox
(`compiles_run`) into the buffer, a batch and the live set (`Coordinator.Validated`),
and no rebuild comes upon one that it cannot compile (`rebuild_succeeds`).
-/

namespace EventMatch

variable {ι : Type} [BEq ι]

/-- What the mutation adds compiles alone, however often the spec parser was asked before. -/
def Mutation.Compiles (template : Matcher ι) : Mutation ι → Prop
  | .add id text => ∀ asked, (template.alone asked id text).1 = .ok ()
  | .delete _ => True

/-- Texts that compile alone can be added in any order to a matcher that is configured
like the template, whatever it holds. -/
theorem Matcher.exists_addAll_of_alone {template m : Matcher ι} {asked : Nat} {others patterns : List (ι × String)}
    (hm : (Matcher.empty template.flattener template.parser asked).addAll others = (.ok (), m))
    (h : ∀ p ∈ patterns, (Mutation.add p.1 p.2).Compiles template) : ∃ m', m.addAll patterns = (.ok (), m') := by
  obtain ⟨S, firsts, hroot, hparser, -⟩ :=
    Matcher.addAll_ok (rootOk_empty template.flattener template.parser asked) hm
  have halone : ∀ p ∈ patterns, ∀ n, (m.alone n p.1 p.2).1 = .ok () := fun p hp n => by
    have hreadable := Matcher.alone_ok_iff (s := ⟨0, n⟩).mp (h p hp n)
    rw [← show m.parser = template.parser from hparser] at hreadable
    exact Matcher.alone_ok_iff (s := ⟨0, n⟩).mpr hreadable
  obtain ⟨m', hadd, -⟩ := Matcher.exists_addAll hroot halone
  exact ⟨m', hadd⟩

namespace LiveSet

/-- The live pairs after a fold were live before or come from its mutations. -/
theorem mem_pairs_of_mem_fold [LawfulBEq ι] {base : LiveSet ι} {batch : List (Mutation ι)} {id : ι} {text : String}
    (h : (id, text) ∈ (base.fold batch).pairs) : (id, text) ∈ base.pairs ∨ .add id text ∈ batch := by
  induction batch generalizing base with
  | nil => exact .inl h
  | cons m batch ih =>
    rcases ih h with hbase | hbatch
    · cases m with
      | add x t =>
        rcases mem_pairs_insertEntry.mp hbase with ⟨rfl, rfl⟩ | hbase
        · exact .inr List.mem_cons_self
        · exact .inl hbase
      | delete x => exact .inl (mem_pairs_delete.mp hbase).2
    · exact .inr (List.mem_cons_of_mem _ hbatch)

end LiveSet

namespace Work

omit [BEq ι]

/-- The live set that is held, or that a rebuild began with. -/
def live : Work ι → LiveSet ι
  | idle live => live
  | rebuilding base _ => base

/-- The mutations that a rebuild folds. -/
def batch : Work ι → List (Mutation ι)
  | idle _ => []
  | rebuilding _ batch => batch

end Work

namespace Coordinator

/-- All that the coordinator holds compiles, and it has not failed. -/
structure Validated (template : Matcher ι) (c : Coordinator ι) : Prop where
  configured : c.template = template.emptyLike
  pending : ∀ m ∈ c.pending, m.Compiles template
  batch : ∀ m ∈ c.work.batch, m.Compiles template
  live : ∀ p ∈ c.work.live.pairs, (Mutation.add p.1 p.2).Compiles template
  outcome : c.outcome = none ∨ c.outcome = some (.ok ())

theorem validated_start (template : Matcher ι) (capacity : Option Nat) : (start template capacity).Validated template where
  configured := rfl
  pending := fun _ h => nomatch h
  batch := fun _ h => nomatch h
  live := fun _ h => nomatch h
  outcome := .inl rfl

variable [LawfulBEq ι] {template : Matcher ι} {c : Coordinator ι}

/-- What a rebuild compiles was live or is in the batch. -/
theorem Validated.rebuilding (h : c.Validated template) {live : LiveSet ι} (hl : c.rebuilding? = some live) :
    ∀ p ∈ live.pairs, (Mutation.add p.1 p.2).Compiles template := by
  intro p hp
  cases hw : c.work with
  | idle held => simp [rebuilding?, hw] at hl
  | rebuilding base batch =>
    have hfold : base.fold batch = live := by simpa [rebuilding?, hw] using hl
    rcases LiveSet.mem_pairs_of_mem_fold (hfold ▸ hp) with hbase | hbatch
    · exact h.live p (by simpa [hw, Work.live] using hbase)
    · exact h.batch _ (by simpa [hw, Work.batch] using hbatch)

/-- A rebuild succeeds. -/
theorem Validated.exists_compile (h : c.Validated template) {live : LiveSet ι} (hl : c.rebuilding? = some live)
    (asked : Nat) : ∃ m, c.compile live asked = (.ok (), m) := by
  have hempty : c.compile live asked = (Matcher.empty template.flattener template.parser asked).addAll live.pairs := by
    rw [compile, h.configured]
    rfl
  have hnone : (Matcher.empty (ι := ι) template.flattener template.parser asked).addAll [] =
    (.ok (), Matcher.empty template.flattener template.parser asked) := rfl
  rw [hempty]
  exact Matcher.exists_addAll_of_alone hnone (h.rebuilding hl)

/-- A signal keeps this if the mutation that it brings compiles. -/
theorem Change.validated {c' : Coordinator ι} {s : Signal ι} (hs : Change c s c') (h : c.Validated template)
    (ha : ∀ m ∈ c.acceptedBy s, m.Compiles template) : c'.Validated template := by
  cases hs with
  | unchanged _ => exact h
  | cancelled _ => exact { h with outcome := .inr rfl }
  | accepted hr =>
    refine { h with pending := fun m' hm => ?_ }
    rcases List.mem_append.mp hm with hm | hm
    · exact h.pending m' hm
    · exact ha m' (by simpa [acceptedBy, hr] using hm)
  | started _ hw =>
    exact { h with
      pending := fun m hm => absurd hm List.not_mem_nil
      batch := h.pending
      live := by simpa [hw, Work.live] using h.live }
  | rebuilt _ hl _ =>
    exact { h with
      batch := fun m hm => absurd hm List.not_mem_nil
      live := h.rebuilding hl }
  | @failed asked _ _ _ _ hl hc =>
    obtain ⟨m, hm⟩ := h.exists_compile hl asked
    rw [hc] at hm
    cases hm

theorem Validated.run (h : c.Validated template) {signals : List (Signal ι)}
    (ha : ∀ m ∈ c.accepted signals, m.Compiles template) : (c.run signals).Validated template := by
  induction signals generalizing c with
  | nil => exact h
  | cons s signals ih =>
    have hstep := (c.change_step s).validated h fun m hm => ha m (List.mem_append_left _ hm)
    exact ih hstep fun m hm => ha m (List.mem_append_right _ hm)

end Coordinator

namespace Exchange

/-- If the parser answers by the spec alone, every letter brings a text that compiles. -/
theorem compiles_run {template : Matcher ι} (hparser : ∀ p, template.parser = some p → p.AnswersBySpec)
    (capacity : Option Nat) (actions : List (Action ι)) :
    ∀ l ∈ ((start template capacity).run actions).posted, l.mutation.Compiles template := by
  induction actions using List.reverseRecOn with
  | nil => exact fun l h => nomatch h
  | append_singleton actions a ih =>
    intro l hl
    rw [run_append] at hl
    rcases List.mem_append.mp ((effect_step _ a).posted_sublist.subset hl) with hl | hl
    · exact ih l hl
    · obtain ⟨⟨m, isCancelled⟩, -, hnone, rfl⟩ := exists_of_mem_sending hl
      obtain ⟨hcheck, -, -⟩ := refusal?_eq_none.mp hnone
      cases m with
      | add id text => exact fun asked => (Matcher.alone_congr hparser ((check_add_run ..).symm.trans hcheck)).1
      | delete id => exact trivial

/-- No rebuild of texts that got through the check fails, in whatever order they are
compiled and whatever they are merged with. -/
theorem rebuild_succeeds [LawfulBEq ι] (template : Matcher ι)
    (hparser : ∀ p, template.parser = some p → p.AnswersBySpec) (capacity : Option Nat) (actions : List (Action ι)) :
    let x := (start template capacity).run actions
    let c := x.coordinator
    -- What is on its way, waits, is folded or live compiles alone.
    (∀ l ∈ x.mailbox.letters, l.mutation.Compiles template) ∧
    (∀ m ∈ c.pending, m.Compiles template) ∧
    (∀ m ∈ c.work.batch, m.Compiles template) ∧
    (∀ p ∈ c.work.live.pairs, (Mutation.add p.1 p.2).Compiles template) ∧
    (∀ live, c.rebuilding? = some live →
      -- The rebuild on the way succeeds.
      (∀ asked, ∃ m, c.compile live asked = (.ok (), m)) ∧
      -- So does any other that adds its texts, and more that compile alone, to any matcher in any order.
      ∀ asked others m patterns,
        (Matcher.empty template.flattener template.parser asked).addAll others = (.ok (), m) →
        (∀ p ∈ patterns, p ∈ live.pairs ∨ (Mutation.add p.1 p.2).Compiles template) →
        ∃ m', m.addAll patterns = (.ok (), m')) ∧
    -- The coordinator does not end with an error.
    (c.outcome = none ∨ c.outcome = some (.ok ())) := by
  intro x c
  have hposted : ∀ l ∈ x.posted, l.mutation.Compiles template := compiles_run hparser capacity actions
  have haccepted : x.accepted = (Coordinator.start template capacity).accepted
      ((start template capacity).signalsOf actions) := (tied_start template capacity).accepted_run actions
  have hvalidated : c.Validated template := by
    show x.coordinator.Validated template
    rw [coordinator_run]
    refine (Coordinator.validated_start template capacity).run fun m hm => ?_
    obtain ⟨l, hl, rfl⟩ := List.mem_map.mp (haccepted ▸ hm)
    exact hposted l (List.mem_append_left _ hl)
  refine ⟨fun l hl => hposted l (List.mem_append_right _ hl), hvalidated.pending, hvalidated.batch, hvalidated.live,
    fun live hl => ⟨hvalidated.exists_compile hl, fun asked others m patterns hm hp => ?_⟩, hvalidated.outcome⟩
  exact Matcher.exists_addAll_of_alone hm fun p h => (hp p h).elim (hvalidated.rebuilding hl p) id

/-- A text with an extension goes into the second rebuild, with one that is live. -/
theorem rebuild_succeeds_extension :
    let template : Matcher Bool := .empty Json.flatten (some (.ofFunction fun _ => .ok fun _ => true))
    let x := (start template none).run
      [.add true "\x7b\"a\":[true]\x7d" false, .receive, .trigger, .finish,
        .add false "\x7b\"b\":[\x7b\"extension\":true\x7d]\x7d" false, .receive, .trigger]
    (∀ p, template.parser = some p → p.AnswersBySpec) ∧
      ∃ live m, x.coordinator.rebuilding? = some live ∧ live.size = 2 ∧
        x.coordinator.compile live x.asked = (.ok (), m) := by
  intro template x
  have hparser : ∀ p, template.parser = some p → p.AnswersBySpec := fun p h => by
    cases h
    exact SpecParser.answersBySpec_ofFunction _
  obtain ⟨-, -, -, -, hrebuild, -⟩ := rebuild_succeeds template hparser none
    [.add true "\x7b\"a\":[true]\x7d" false, .receive, .trigger, .finish,
      .add false "\x7b\"b\":[\x7b\"extension\":true\x7d]\x7d" false, .receive, .trigger]
  have hsize : x.coordinator.rebuilding?.map LiveSet.size = some 2 := by decide +kernel
  obtain ⟨live, hlive, hsize⟩ := Option.map_eq_some_iff.mp hsize
  obtain ⟨hcompile, -⟩ := hrebuild live hlive
  obtain ⟨m, hm⟩ := hcompile x.asked
  exact ⟨hparser, live, m, hlive, hsize, hm⟩

end Exchange

end EventMatch
