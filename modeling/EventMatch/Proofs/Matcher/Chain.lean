import EventMatch.Proofs.Matcher.Interpreter

/-!
# Compiled chains

`chain_ok`: the gates on a pattern's chain are those of its fields' values, and
whether there is a chain depends only on whether the predicates can be read
(`readFields`). So two chains of one pattern pass the same values, whatever the
labels on them (`ChainOk.follows`).
-/

namespace EventMatch

open Compile

variable {ι : Type}

/-! ## What passes a gate -/

/-- A value reaches what a list of values leads to. -/
def Reached (values : List ValueSpec) (v : Bytes) : Prop :=
  ValuesWords values (Gate.lookupWord (values.any ValueSpec.hasNumbers) v)

/-- Seen among others, the gate `own` leads to `next` where the gate `alone` leads on.
What is looked up there may be numbers although `own` has none. -/
structure Stands (own alone : Gate ι) (next : Junction ι) : Prop where
  ends : Automaton.EndsAtTerminator own.automaton
  exits : ∀ b v, (own.hasNumbers = true → b = true) →
    Automaton.exitsAt own.automaton (Gate.lookupWord b v) = if alone.reaches v then [next] else []
  only : ∀ w, Automaton.exitsAt own.automaton w = [] ∨ Automaton.exitsAt own.automaton w = [next]
  tests : ∀ v, (own.tests.filter (·.accepts v)).map (·.next) =
    (alone.tests.filter (·.accepts v)).map fun _ => next

theorem Stands.pass {own alone : Gate ι} {next : Junction ι} (h : Stands own alone next) (v : Bytes) :
    own.pass v = (if alone.reaches v then [next] else []) ++
      (alone.tests.filter (·.accepts v)).map fun _ => next := by
  rw [Gate.pass, Automaton.run_eq h.ends, h.tests]
  exact congrArg (· ++ _) (h.exits own.hasNumbers v id)

namespace GateOk

variable {S S' : Set (State (Junction ι))} {lo lo' n n' : Nat} {next next' : Junction ι} {g g' : Gate ι}
  {values : List ValueSpec} {preds : List Predicate}

theorem endsAtTerminator (h : GateOk S lo n next g values preds) (hv : ∀ v ∈ values, v.Proper) :
    Automaton.EndsAtTerminator g.automaton :=
  h.recognizes.endsAtTerminator fun w ⟨v, hm, hw⟩ => (hv v hm).endTerminated w hw

theorem exitsAt_of_words (h : GateOk S lo n next g values preds) {w : Bytes} (hw : ValuesWords values w) :
    Automaton.exitsAt g.automaton w = [next] := by
  rw [Automaton.exitsAt, h.recognizes.accept hw]
  rfl

theorem exitsAt_of_not_words (h : GateOk S lo n next g values preds) {w : Bytes}
    (hw : ¬ ValuesWords values w) : Automaton.exitsAt g.automaton w = [] := by
  rw [Automaton.exitsAt]
  rcases h.recognizes.eq_none_or hw with e | e <;> rw [e] <;> rfl

theorem reaches_iff (h : GateOk S lo n next g values preds) (hv : ∀ v ∈ values, v.Proper) (v : Bytes) :
    g.reaches v ↔ Reached values v := by
  rw [Gate.reaches, Automaton.run_eq (h.endsAtTerminator hv), Reached, ← h.hasNumbers]
  by_cases hw : ValuesWords values (Gate.lookupWord g.hasNumbers v)
  · rw [← Gate.lookupWord, h.exitsAt_of_words hw]
    exact iff_of_true rfl hw
  · rw [← Gate.lookupWord, h.exitsAt_of_not_words hw]
    exact iff_of_false Bool.false_ne_true hw

theorem map_next (h : GateOk S lo n next g values preds) (v : Bytes) :
    (g.tests.filter (·.accepts v)).map (fun t => t.next) = (preds.filter (· v)).map fun _ => next := by
  rw [← h.accepts, List.filter_map, List.map_map]
  exact List.map_congr_left fun t ht => h.next t (List.mem_filter.mp ht).1

theorem map_const (h : GateOk S lo n next g values preds) (v : Bytes) (j : Junction ι) :
    ((g.tests.filter (·.accepts v)).map fun _ => j) = (preds.filter (· v)).map fun _ => j := by
  rw [← h.accepts, List.filter_map, List.map_map]
  rfl

/-- Two gates of the same values differ in their labels only. -/
theorem stands (h : GateOk S lo n next g values preds) (h' : GateOk S' lo' n' next' g' values preds)
    (hv : ∀ v ∈ values, v.Proper) : Stands g g' next where
  ends := h.endsAtTerminator hv
  exits := by
    intro b v hb
    have hw : ValuesWords values (Gate.lookupWord b v) ↔ Reached values v := by
      rw [Reached, ← h.hasNumbers]
      cases hn : g.hasNumbers with
      | true => rw [hb hn]
      | false =>
        have hall : ∀ v ∈ values, v.hasNumbers = false := by
          rw [h.hasNumbers] at hn
          exact fun v hm => Bool.eq_false_of_not_eq_true fun e => by
            rw [List.any_eq_true.mpr ⟨v, hm, e⟩] at hn
            cases hn
        cases b with
        | true => exact Gate.words_lookup_congr hv hall v
        | false => exact Iff.rfl
    by_cases hr : g'.reaches v
    · rw [if_pos hr, h.exitsAt_of_words (hw.mpr ((h'.reaches_iff hv v).mp hr))]
    · rw [if_neg hr, h.exitsAt_of_not_words fun hw' => hr ((h'.reaches_iff hv v).mpr (hw.mp hw'))]
  only := by
    intro w
    by_cases hw : ValuesWords values w
    · exact .inr (h.exitsAt_of_words hw)
    · exact .inl (h.exitsAt_of_not_words hw)
  tests := fun v => by rw [h.map_next, h'.map_const]

end GateOk

/-! ## Chains -/

/-- The chain of a pattern: its junctions and tests have labels from `lo` on and
below `n`. -/
inductive ChainOk (S : Set (State (Junction ι))) (lo n : Nat) (id : ι) :
    Junction ι → List (String × Gate ι) → List PatternField → List (List Predicate) → Prop
  | done {j : Junction ι} : j.complete = [id] → j.branches = [] → lo ≤ j.label → j.label < n →
      ChainOk S lo n id j [] [] []
  | field {j next : Junction ι} {g : Gate ι} {gates : List (String × Gate ι)} {f : PatternField}
      {fields : List PatternField} {ps : List Predicate} {preds : List (List Predicate)} :
      j.complete = [] → j.branches = [(f.path, g)] → lo ≤ j.label → j.label < n →
      GateOk S lo n next g f.values ps → ChainOk S lo n id next gates fields preds →
      ChainOk S lo n id j ((f.path, g) :: gates) (f :: fields) (ps :: preds)

namespace ChainOk

variable {S S' : Set (State (Junction ι))} {lo lo' n n' : Nat} {id : ι} {j j' : Junction ι}
  {gates gates' : List (String × Gate ι)} {fields : List PatternField} {preds : List (List Predicate)}

theorem label (h : ChainOk S lo n id j gates fields preds) : lo ≤ j.label ∧ j.label < n := by
  cases h with
  | done _ _ hl hn => exact ⟨hl, hn⟩
  | field _ _ hl hn _ _ => exact ⟨hl, hn⟩

theorem mono (h : ChainOk S lo n id j gates fields preds) (hS : S ⊆ S') (hn : n ≤ n') :
    ChainOk S' lo n' id j gates fields preds := by
  induction h with
  | done hc hb hl hlt => exact .done hc hb hl (Nat.lt_of_lt_of_le hlt hn)
  | field hc hb hl hlt hg _ ih => exact .field hc hb hl (Nat.lt_of_lt_of_le hlt hn) (hg.mono hS (Nat.le_refl _) hn) ih

/-- A chain follows the gates of any other chain of the same pattern. -/
theorem follows (h : ChainOk S lo n id j gates fields preds) (h' : ChainOk S' lo' n' id j' gates' fields preds)
    (hf : ∀ f ∈ fields, f.Proper) : Follows j id gates' := by
  induction h generalizing j' gates' with
  | done hc hb _ _ =>
    cases h'
    exact ⟨hc, hb⟩
  | field hc hb _ _ hg _ ih =>
    cases h' with
    | field hc' hb' _ _ hg' hn' =>
      refine ⟨hc, _, _, hb, (hg.stands hg' (hf _ List.mem_cons_self).2).pass, ih hn' fun f hm => ?_⟩
      exact hf f (List.mem_cons_of_mem _ hm)

end ChainOk

/-- The predicates for each field of a pattern. The last field's are read first. -/
def readFields (parser : Option SpecParser) (fields : List PatternField) : Compile (List (List Predicate)) :=
  fields.foldrM (fun f preds => return (← readTests parser f.values) :: preds) []

theorem spendsNoLabels_readFields (parser : Option SpecParser) (fields : List PatternField) :
    SpendsNoLabels (readFields parser fields) := by
  induction fields with
  | nil => exact .pure _
  | cons f fields ih =>
    rw [readFields, List.foldrM_cons]
    exact .bind ih fun _ => .bind (spendsNoLabels_readTests parser f.values) fun _ => .pure _

variable {S : Set (State (Junction ι))} {s : Supply}

/-- The chain of a pattern with the gates on it. -/
theorem chain_ok (parser : Option SpecParser) (id : ι) (fields : List PatternField) (hp : Pool S s.label) :
    Compiles S s (Solo.chain parser id fields) (readFields parser fields)
      fun S' n r preds => ChainOk S' s.label n id r.1 r.2 fields preds := by
  have hdone : Compiles S s (.fresh (Junction.completing id)) (pure ())
      fun S' n (j : Junction ι) _ => ChainOk S' s.label n id j [] [] [] :=
    .fresh (Nat.le_succ _) subset_rfl (hp.mono (Nat.le_succ _))
      (.done rfl rfl (Nat.le_refl _) (Nat.lt_succ_self _))
  rw [Solo.chain, ← pure_bind () fun _ => readFields parser fields]
  refine hdone.bind (fun _ => spendsNoLabels_readFields parser fields) fun hS hle hp' hq => ?_
  clear hdone
  induction fields with
  | nil => exact .pure hp' hq
  | cons f fields ih =>
    rw [readFields, List.foldrM_cons, List.foldrM_cons]
    refine ih.bind (fun preds => .bind (spendsNoLabels_readTests parser f.values) fun _ => .pure _)
      fun hS₁ hle₁ hp₁ hc => ?_
    refine (ofValues_ok parser f.values _ hp₁).bind (fun _ => .pure _) fun hS₂ hle₂ hp₂ hg => ?_
    exact .ok rfl rfl (Nat.le_succ _) rfl subset_rfl (hp₂.mono (Nat.le_succ _))
      (.field rfl rfl (hle.trans (hle₁.trans hle₂)) (Nat.lt_succ_self _)
        (hg.mono subset_rfl (hle.trans hle₁) (Nat.le_succ _)) (hc.mono hS₂ (hle₂.trans (Nat.le_succ _))))

end EventMatch
