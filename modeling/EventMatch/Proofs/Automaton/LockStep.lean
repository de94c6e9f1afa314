import EventMatch.Proofs.Automaton.NormalForm

/-!
# Tables that the operations lead to

`Built` collects the tables that come of the two initial tables by writes, packing
and merges, with any pass. All of them are in normal form (`Built.normalForm`), and
so all that holds of such tables holds of them: `dense_map` puts it together.

A merge walks its two tables by their ceilings. `lockStep?` does so by positions and
has no result if it would read a run past the end of either table. Both ends are
where the ceiling is `byteCount`, so on tables in normal form the walk has a result
and comes to both ends with the same step (`lockStep?_eq_some`).
-/

namespace EventMatch

variable {β : Type} [BEq β]

open Run

/-! ## Merged runs -/

theorem mergeRuns_normal : ∀ (runs₁ runs₂ : List (Run (State β))) (p : MergePass β) {floor : Nat},
    Covers floor runs₁ → Covers floor runs₂ →
      Covers floor (mergeRuns runs₁ runs₂ p).1 ∧ Apart (mergeRuns runs₁ runs₂ p).1
  | [], _, p, floor, h₁, _ => by
    rw [mergeRuns]
    exact ⟨h₁, List.isChain_nil⟩
  | _ :: _, [], p, floor, _, h₂ => by
    rw [mergeRuns]
    exact ⟨h₂, List.isChain_nil⟩
  | ⟨c₁, x₁⟩ :: runs₁, ⟨c₂, x₂⟩ :: runs₂, p, floor, h₁, h₂ => by
    rw [mergeRuns]
    -- Each branch puts one run before the merge of what is left.
    have join : ∀ {c : Nat} {x : Option (State β)} {rest : List (Run (State β))}, floor < c →
        Covers c rest ∧ Apart rest → Covers floor (Run.cons ⟨c, x⟩ rest) ∧ Apart (Run.cons ⟨c, x⟩ rest) :=
      fun hlt h => ⟨covers_cons ⟨hlt, h.1⟩, apart_join h.2⟩
    split
    · rename_i hlt
      exact join h₁.1 (mergeRuns_normal runs₁ (⟨c₂, x₂⟩ :: runs₂) _ h₁.2 ⟨hlt, h₂.2⟩)
    split
    · rename_i hlt
      exact join h₂.1 (mergeRuns_normal (⟨c₁, x₁⟩ :: runs₁) runs₂ _ ⟨hlt, h₁.2⟩ h₂.2)
    · obtain rfl : c₁ = c₂ := by omega
      exact join h₁.1 (mergeRuns_normal runs₁ runs₂ _ h₁.2 h₂.2)
termination_by runs₁ runs₂ => runs₁.length + runs₂.length

/-! ## The walk by positions -/

/-- What a walk over two lists of runs comes to: the merged runs and the pass after
them, and the position in each list at which it ends. -/
structure LockStep (β : Type) where
  merged : List (Run (State β)) × MergePass β
  left : Nat
  right : Nat

/-- The position after a run, if the run ends at the ceiling that is left behind. -/
def advance (r : Run (State β)) (ceiling i : Nat) : Nat := if r.ceiling = ceiling then i + 1 else i

/-- The walk over two lists of runs from two positions on, until either is at its
end. It has no result if there is no run at a position. -/
def lockStep? (runs₁ runs₂ : List (Run (State β))) (i j : Nat) (p : MergePass β) : Option (LockStep β) :=
  if _h : i < runs₁.length ∧ j < runs₂.length then
    let ceiling := min runs₁[i].ceiling runs₂[j].ceiling
    let first := mergeTargets runs₁[i].target runs₂[j].target p
    let i' := advance runs₁[i] ceiling i
    let j' := advance runs₂[j] ceiling j
    if i' = runs₁.length ∨ j' = runs₂.length then some ⟨([⟨ceiling, first.1⟩], first.2), i', j'⟩
    else (lockStep? runs₁ runs₂ i' j' first.2).map fun rest =>
      { rest with merged := (Run.cons ⟨ceiling, first.1⟩ rest.merged.1, rest.merged.2) }
  else none
termination_by runs₁.length + runs₂.length - (i + j)
decreasing_by
  rcases Nat.le_total runs₁[i].ceiling runs₂[j].ceiling with h | h
  · simp only [advance, Nat.min_eq_left h, if_true]
    split <;> omega
  · simp only [advance, Nat.min_eq_right h, if_true]
    split <;> omega

omit [BEq β] in
/-- A position is the end of a list if and only if the runs before it cover all
byte values. -/
theorem eq_length_iff {runs : List (Run (State β))} {k c : Nat} (hk : k ≤ runs.length)
    (h : Covers c (runs.drop k)) : k = runs.length ↔ c = byteCount := by
  constructor
  · rintro rfl
    rwa [List.drop_length] at h
  · intro hc
    by_contra hne
    rw [List.drop_eq_getElem_cons (Nat.lt_of_le_of_ne hk hne)] at h
    have := h.2.le
    have := h.1
    omega

theorem mergeRuns_cons_cons (r s : Run (State β)) (runs₁ runs₂ : List (Run (State β))) (p : MergePass β) :
    mergeRuns (r :: runs₁) (s :: runs₂) p =
      let first := mergeTargets r.target s.target p
      let rest := if r.ceiling < s.ceiling then mergeRuns runs₁ (s :: runs₂) first.2
        else if s.ceiling < r.ceiling then mergeRuns (r :: runs₁) runs₂ first.2
        else mergeRuns runs₁ runs₂ first.2
      (Run.cons ⟨min r.ceiling s.ceiling, first.1⟩ rest.1, rest.2) := by
  obtain ⟨c₁, x₁⟩ := r
  obtain ⟨c₂, x₂⟩ := s
  rw [mergeRuns]
  split
  · rename_i hlt
    simp only [Nat.min_eq_left (Nat.le_of_lt hlt)]
  split
  · rename_i hlt
    simp only [Nat.min_eq_right (Nat.le_of_lt hlt)]
  · rename_i hle
    simp only [Nat.min_eq_left (Nat.le_of_not_lt hle)]

theorem lockStep?_eq_some {runs₁ runs₂ : List (Run (State β))} : ∀ {i j floor : Nat} (p : MergePass β),
    i < runs₁.length → j < runs₂.length → Covers floor (runs₁.drop i) → Covers floor (runs₂.drop j) →
      lockStep? runs₁ runs₂ i j p =
        some ⟨mergeRuns (runs₁.drop i) (runs₂.drop j) p, runs₁.length, runs₂.length⟩
  | i, j, floor, p, hi, hj, h₁, h₂ => by
    rw [lockStep?, dif_pos ⟨hi, hj⟩, List.drop_eq_getElem_cons hi, List.drop_eq_getElem_cons hj,
      mergeRuns_cons_cons]
    have d₁ := List.drop_eq_getElem_cons hi
    have d₂ := List.drop_eq_getElem_cons hj
    rw [d₁] at h₁
    rw [d₂] at h₂
    have e₁ := eq_length_iff hi h₁.2
    have e₂ := eq_length_iff hj h₂.2
    have le₁ := h₁.2.le
    have le₂ := h₂.2.le
    -- Where one run ends first, its list goes on, since the other's run reaches above it.
    obtain hlt | heq | hlt := Nat.lt_trichotomy runs₁[i].ceiling runs₂[j].ceiling
    · have hgo : ¬ (i + 1 = runs₁.length ∨ j = runs₂.length) := by omega
      have ih := lockStep?_eq_some (mergeTargets runs₁[i].target runs₂[j].target p).2 (by omega) hj h₁.2
        (d₂ ▸ ⟨hlt, h₂.2⟩)
      simp only [advance, Nat.min_eq_left (Nat.le_of_lt hlt), if_true, if_pos hlt,
        if_neg (Nat.ne_of_gt hlt), if_neg hgo, ih, d₂, Option.map_some]
    · by_cases hend : i + 1 = runs₁.length
      · have hend' : j + 1 = runs₂.length := by omega
        simp only [advance, heq, Nat.min_self, if_true, hend, hend', true_or, Nat.lt_irrefl, if_false,
          List.drop_length]
        rw [mergeRuns]
        rfl
      · have hgo : ¬ (i + 1 = runs₁.length ∨ j + 1 = runs₂.length) := by omega
        have ih := lockStep?_eq_some (mergeTargets runs₁[i].target runs₂[j].target p).2 (by omega) (by omega)
          h₁.2 (heq ▸ h₂.2)
        simp only [advance, heq, Nat.min_self, if_true, if_neg hgo, Nat.lt_irrefl, if_false, ih, Option.map_some]
    · have hgo : ¬ (i = runs₁.length ∨ j + 1 = runs₂.length) := by omega
      have ih := lockStep?_eq_some (mergeTargets runs₁[i].target runs₂[j].target p).2 hi (by omega)
        (d₁ ▸ ⟨hlt, h₁.2⟩) h₂.2
      simp only [advance, Nat.min_eq_right (Nat.le_of_lt hlt), if_true, if_pos hlt, if_neg (Nat.lt_asymm hlt),
        if_neg (Nat.ne_of_gt hlt), if_neg hgo, ih, d₁, Option.map_some]
termination_by i j => runs₁.length + runs₂.length - (i + j)

namespace RangeTable

/-- The tables that the operations lead to. -/
inductive Built : Automaton β → Prop
  | empty : Built .empty
  | uniform (s : State β) : Built (.uniform s)
  | write {t : Automaton β} (h : Built t) {w : Write (State β)} (hw : w.IsProper) : Built (w.apply t)
  | pack {targets : List (Option (State β))} (h : targets.length = byteCount) : Built (.pack targets)
  | merge {t u : Automaton β} (ht : Built t) (hu : Built u) (p : MergePass β) :
    Built ((t.mergeWith u).run p).1

theorem Built.normalForm {t : Automaton β} (h : Built t) : t.NormalForm := by
  induction h with
  | empty => exact ⟨⟨show 0 < byteCount by decide, rfl⟩, List.isChain_singleton _⟩
  | uniform s => exact ⟨⟨show 0 < byteCount by decide, rfl⟩, List.isChain_singleton _⟩
  | write _ hw ih => exact ih.apply hw
  | pack h => exact normalForm_pack h
  | merge _ _ p iht ihu =>
    obtain ⟨hc, ha⟩ := mergeRuns_normal _ _ p iht.covers ihu.covers
    exact ⟨hc, ha⟩

/-- The runs of a table that the operations lead to rise to `byteCount`, and
neighbours differ. The table has a step for every byte, after some writes that of
the last write that covers the byte. Tables with the same steps have the same runs,
so a table is the one that its unpacked targets pack to. The walk of a merge of two
such tables reads no run past an end and comes to both ends together. -/
theorem dense_map {t u : Automaton β} (ht : Built t) (hu : Built u) :
    ((0 :: t.runs.map Run.ceiling).Pairwise (· < ·) ∧
      (t.runs.map Run.ceiling).getLast? = some byteCount ∧
      t.runs.IsChain fun r s => ¬ (r.target == s.target) = true) ∧
    (∀ b : UInt8, ∃ r ∈ t.runs,
      t.runs.find? (fun r => b.toNat < r.ceiling) = some r ∧ t.step b = r.target) ∧
    (∀ ws : List (Write (State β)), (∀ w ∈ ws, w.IsProper) → ∀ b : UInt8,
      (ws.foldl Write.apply t).step b ==
        (((ws.filter (·.covers b)).getLast?.map Write.target).or (t.step b))) ∧
    (∀ targets : List (Option (State β)), targets.length = byteCount → ∀ (b : UInt8) x,
      targets[b.toNat]? = some x → (pack targets).step b == x) ∧
    ((∀ b, t.step b == u.step b) →
      List.Forall₂ (fun r s => r.ceiling = s.ceiling ∧ r.target == s.target) t.runs u.runs) ∧
    (t.unpack = (List.range byteCount).map (fun n => t.step (UInt8.ofNat n)) ∧
      pack t.unpack = t) ∧
    ∀ p, lockStep? t.runs u.runs 0 0 p =
      some ⟨(((t.mergeWith u).run p).1.runs, ((t.mergeWith u).run p).2), t.runs.length, u.runs.length⟩ := by
  have hnt := ht.normalForm
  have hnu := hu.normalForm
  refine ⟨⟨?_, ?_, hnt.apart⟩, fun b => exists_find?_eq_some hnt.covers,
    fun ws hws b => (step_foldl_apply hnt b hws).2, fun targets h b x hx => step_pack h hx, hnt.unique hnu,
    ⟨unpack_eq hnt.covers, hnt.pack_unpack⟩, fun p => ?_⟩
  · exact List.isChain_iff_pairwise.mp hnt.covers.isChain
  · exact hnt.covers.getLast?_ceilings (by decide)
  · exact lockStep?_eq_some p (List.length_pos_iff.mpr (hnt.covers.ne_nil (by decide)))
      (List.length_pos_iff.mpr (hnu.covers.ne_nil (by decide))) hnt.covers hnu.covers

/-- A table whose bytes are all overwritten with one target has the runs of the uniform table. -/
theorem dense_map_overwritten :
    let a : State Nat := .mk 0 .empty [1]
    let b : State Nat := .mk 1 .empty [2]
    let t : Automaton Nat := (Write.range 0 byteCount a).apply .empty
    (Built t ∧ Built (.uniform a) ∧ ∀ c, t.step c == (uniform a).step c) ∧
      List.Forall₂ (fun r s => r.ceiling = s.ceiling ∧ r.target == s.target) t.runs (uniform a).runs ∧
      ([Write.range 48 58 a, Write.byte 50 b].foldl Write.apply t).step 50 == some b := by
  intro a b t
  have hw : (Write.range 0 byteCount a).IsProper := ⟨by decide, Nat.le_refl _⟩
  have ht : Built t := Built.empty.write hw
  have hu : Built (uniform a) := .uniform a
  have hsame : ∀ c, t.step c == (uniform a).step c := fun c => by
    have hc : c.toNat < byteCount := UInt8.toNat_lt c
    have hstep := step_apply Built.empty.normalForm hw c
    simpa only [Write.covers, Write.target, Nat.zero_le, hc, and_self, decide_true, if_true, step_uniform]
      using hstep
  have hws : ∀ w ∈ [Write.range 48 58 a, Write.byte 50 b], w.IsProper := by
    simp only [List.forall_mem_cons, List.not_mem_nil, false_implies, implies_true, and_true]
    exact ⟨⟨by decide, by decide⟩, trivial⟩
  obtain ⟨-, -, hwrites, -, hunique, -⟩ := dense_map ht hu
  exact ⟨⟨ht, hu, hsame⟩, hunique hsame, hwrites _ hws 50⟩

end RangeTable

end EventMatch
