import EventMatch.Automaton.RangeTable

/-!
# What runs of bytes say about single bytes

A list of runs covers the byte values from a floor on (`Run.Covers`) if its
ceilings rise from the floor up to `byteCount`. On such runs `Run.target?` is the
target of one byte value, and each way of building runs is described by it:
joining neighbours changes no target (`target?_cons`, `target?_append`), and
setting a range changes the targets in the range and no others
(`target?_setRuns`).

Neighbours are joined when `==` holds of their targets, so targets stay what they
were up to a relation that follows from `==` (`Identifies`). That is equality where
`==` tells the targets at hand apart (`Separated`).
-/

namespace EventMatch

variable {α : Type}

/-- `==` holds of two of these values only if they are equal. -/
def Separated [BEq α] (P : α → Prop) : Prop := ∀ a b, P a → P b → a == b → a = b

theorem Separated.option [BEq α] {P : α → Prop} (h : Separated P) {x y : Option α}
    (hx : ∀ a, x = some a → P a) (hy : ∀ a, y = some a → P a) (hxy : x == y) : x = y := by
  cases x with
  | none => cases y with
    | none => rfl
    | some b => cases hxy
  | some a => cases y with
    | none => cases hxy
    | some b => exact congrArg some (h a b (hx a rfl) (hy b rfl) hxy)

/-- `R` relates every two targets that `==` holds of, as far as they have the property `P`. -/
structure Identifies [BEq α] (P : α → Prop) (R : Option α → Option α → Prop) : Prop where
  refl : ∀ x, R x x
  trans : ∀ {x y z}, R x y → R y z → R x z
  of_beq : ∀ {x y}, (∀ a, x = some a → P a) → (∀ a, y = some a → P a) → x == y → R x y

theorem Separated.identifies [BEq α] {P : α → Prop} (h : Separated P) :
    Identifies P (Eq : Option α → Option α → Prop) := ⟨fun _ => rfl, Eq.trans, h.option⟩

namespace Run

/-- The runs divide the byte values from `floor` up to `byteCount`. -/
def Covers (floor : Nat) : List (Run α) → Prop
  | [] => floor = byteCount
  | r :: runs => floor < r.ceiling ∧ Covers r.ceiling runs

/-- All targets of the runs have a property. -/
def AllTargets (P : α → Prop) (runs : List (Run α)) : Prop :=
  ∀ r ∈ runs, ∀ a, r.target = some a → P a

/-- The target of a byte value. -/
def target? (runs : List (Run α)) (n : Nat) : Option α :=
  (runs.find? fun r => n < r.ceiling).bind Run.target

theorem Covers.le {floor : Nat} : ∀ {runs : List (Run α)}, Covers floor runs → floor ≤ byteCount
  | [], h => Nat.le_of_eq h
  | _ :: _, h => Nat.le_trans (Nat.le_of_lt h.1) (Covers.le h.2)

theorem AllTargets.mono {P Q : α → Prop} {runs : List (Run α)} (h : AllTargets P runs)
    (hPQ : ∀ a, P a → Q a) : AllTargets Q runs := fun r hr a ha => hPQ a (h r hr a ha)

theorem allTargets_cons {P : α → Prop} {r : Run α} {runs : List (Run α)} :
    AllTargets P (r :: runs) ↔ (∀ a, r.target = some a → P a) ∧ AllTargets P runs :=
  List.forall_mem_cons

@[simp]
theorem target?_nil (n : Nat) : target? ([] : List (Run α)) n = none := rfl

theorem target?_cons_eq (r : Run α) (runs : List (Run α)) (n : Nat) :
    target? (r :: runs) n = if n < r.ceiling then r.target else target? runs n := by
  by_cases h : n < r.ceiling <;> simp [target?, h]

theorem target?_cons_of_lt {r : Run α} {runs : List (Run α)} {n : Nat} (h : n < r.ceiling) :
    target? (r :: runs) n = r.target := by
  rw [target?_cons_eq, if_pos h]

theorem target?_cons_of_le {r : Run α} {runs : List (Run α)} {n : Nat} (h : r.ceiling ≤ n) :
    target? (r :: runs) n = target? runs n := by
  rw [target?_cons_eq, if_neg (Nat.not_lt.mpr h)]

theorem AllTargets.target? {P : α → Prop} :
    ∀ {runs : List (Run α)}, AllTargets P runs → ∀ {n a}, Run.target? runs n = some a → P a
  | r :: runs, h, n, a, ha => by
    rw [target?_cons_eq] at ha
    split at ha
    · exact h r List.mem_cons_self a ha
    · exact AllTargets.target? (allTargets_cons.mp h).2 ha

/-! ## Joining neighbours -/

section Join

variable [BEq α]

theorem cons_cons (r s : Run α) (runs : List (Run α)) :
    cons r (s :: runs) =
      if r.target == s.target then ⟨s.ceiling, r.target⟩ :: runs else r :: s :: runs := rfl

theorem covers_cons {floor : Nat} {r : Run α} :
    ∀ {runs : List (Run α)}, Covers floor (r :: runs) → Covers floor (cons r runs)
  | [], h => h
  | s :: runs, h => by
    rw [cons_cons]
    split
    · exact ⟨Nat.lt_trans h.1 h.2.1, h.2.2⟩
    · exact h

theorem allTargets_join {P : α → Prop} {r : Run α} :
    ∀ {runs : List (Run α)}, AllTargets P (r :: runs) → AllTargets P (cons r runs)
  | [], h => h
  | s :: runs, h => by
    rw [cons_cons]
    split
    · have := allTargets_cons.mp h
      exact allTargets_cons.mpr ⟨this.1, (allTargets_cons.mp this.2).2⟩
    · exact h

/-- Joining a run to those above it changes no target. -/
theorem related_target?_cons {P : α → Prop} {R : Option α → Option α → Prop}
    (hR : Identifies P R) {floor : Nat} {r : Run α} :
    ∀ {runs : List (Run α)}, Covers floor (r :: runs) → AllTargets P (r :: runs) →
      ∀ n, R (target? (cons r runs) n) (target? (r :: runs) n)
  | [], _, _, _ => hR.refl _
  | s :: runs, hc, ht, n => by
    rw [cons_cons]
    split
    · rename_i he
      have ht' := allTargets_cons.mp ht
      have e : R r.target s.target := hR.of_beq ht'.1 (allTargets_cons.mp ht'.2).1 he
      have hlt : r.ceiling < s.ceiling := hc.2.1
      simp only [target?_cons_eq]
      by_cases h₁ : n < r.ceiling
      · rw [if_pos h₁, if_pos (Nat.lt_trans h₁ hlt)]
        exact hR.refl _
      · rw [if_neg h₁]
        split
        · exact e
        · exact hR.refl _
    · exact hR.refl _

theorem target?_cons {P : α → Prop} (hP : Separated P) {floor : Nat} {r : Run α}
    {runs : List (Run α)} (hc : Covers floor (r :: runs)) (ht : AllTargets P (r :: runs)) (n : Nat) :
    target? (cons r runs) n = target? (r :: runs) n :=
  related_target?_cons hP.identifies hc ht n

theorem covers_append {floor : Nat} :
    ∀ {front runs : List (Run α)}, Covers floor (front ++ runs) → Covers floor (append front runs)
  | [], _, h => h
  | r :: front, runs, h =>
    show Covers floor (cons r (append front runs)) from covers_cons ⟨h.1, covers_append h.2⟩

theorem allTargets_append {P : α → Prop} :
    ∀ {front runs : List (Run α)}, AllTargets P (front ++ runs) → AllTargets P (append front runs)
  | [], _, h => h
  | r :: front, runs, h =>
    have h' := allTargets_cons.mp h
    show AllTargets P (cons r (append front runs)) from
      allTargets_join (allTargets_cons.mpr ⟨h'.1, allTargets_append h'.2⟩)

/-- Joining several runs to those above them changes no target. -/
theorem related_target?_append {P : α → Prop} {R : Option α → Option α → Prop}
    (hR : Identifies P R) {floor : Nat} :
    ∀ {front runs : List (Run α)}, Covers floor (front ++ runs) → AllTargets P (front ++ runs) →
      ∀ n, R (target? (append front runs) n) (target? (front ++ runs) n)
  | [], _, _, _, _ => hR.refl _
  | r :: front, runs, hc, ht, n => by
    have ht' := allTargets_cons.mp ht
    have hc' : Covers floor (r :: append front runs) := ⟨hc.1, covers_append hc.2⟩
    have ht'' := allTargets_cons.mpr ⟨ht'.1, allTargets_append ht'.2⟩
    refine hR.trans (related_target?_cons hR hc' ht'' n) ?_
    rw [List.cons_append, target?_cons_eq, target?_cons_eq]
    split
    · exact hR.refl _
    · exact related_target?_append hR hc.2 ht'.2 n

end Join

end Run

namespace RangeTable

open Run

/-- The table's runs divide all byte values, and its targets have a property. -/
structure WellFormed (P : α → Prop) (t : RangeTable α) : Prop where
  covers : Covers 0 t.runs
  targets : AllTargets P t.runs

theorem WellFormed.mono {P Q : α → Prop} {t : RangeTable α} (h : t.WellFormed P)
    (hPQ : ∀ a, P a → Q a) : t.WellFormed Q := ⟨h.covers, h.targets.mono hPQ⟩

theorem step_eq_target? (t : RangeTable α) (b : UInt8) : t.step b = target? t.runs b.toNat := rfl

theorem WellFormed.step {P : α → Prop} {t : RangeTable α} (h : t.WellFormed P) {b : UInt8} {a : α}
    (ha : t.step b = some a) : P a := h.targets.target? ha

theorem wellFormed_empty (P : α → Prop) : (empty : RangeTable α).WellFormed P :=
  ⟨⟨show 0 < byteCount by decide, rfl⟩, fun r hr a ha => by
    rw [List.mem_singleton.mp hr] at ha
    cases ha⟩

theorem wellFormed_uniform {P : α → Prop} {a : α} (ha : P a) : (uniform a).WellFormed P where
  covers := ⟨show 0 < byteCount by decide, rfl⟩
  targets := fun r hr b hb => by
    cases List.mem_singleton.mp hr
    exact Option.some.inj hb ▸ ha

/-- Without targets no byte has one. -/
theorem step_of_isEmpty {t : RangeTable α} (h : t.isEmpty) (b : UInt8) : t.step b = none := by
  have hn : AllTargets (fun _ => False) t.runs := fun r hr a ha => by
    have := List.all_eq_true.mp h r hr
    rw [ha] at this
    cases this
  cases hs : t.step b with
  | none => rfl
  | some a => exact (hn.target? hs).elim

/-- A target that some run has is the target of some byte value. -/
theorem exists_target?_of_covers {floor : Nat} {a : α} :
    ∀ {runs : List (Run α)}, Covers floor runs → (∃ r ∈ runs, r.target = some a) →
      ∃ n, floor ≤ n ∧ n < byteCount ∧ ∃ b, target? runs n = some b
  | [], _, h => absurd h (by simp)
  | r :: runs, hc, ⟨s, hs, ha⟩ => by
    have hle := hc.2.le
    have hlt := hc.1
    cases hr : r.target with
    | some b => exact ⟨floor, Nat.le_refl _, by omega, b, by rw [target?_cons_of_lt hlt, hr]⟩
    | none =>
      have hs' : s ∈ runs := (List.mem_cons.mp hs).resolve_left fun e => by
        rw [e, hr] at ha
        cases ha
      obtain ⟨n, hn, hn', b, hb⟩ := exists_target?_of_covers hc.2 ⟨s, hs', ha⟩
      exact ⟨n, by omega, hn', b, by rw [target?_cons_of_le hn, hb]⟩

/-- A table that is not empty has a target for some byte. -/
theorem WellFormed.exists_step {P : α → Prop} {t : RangeTable α} (h : t.WellFormed P)
    (he : ¬ t.isEmpty) : ∃ b a, t.step b = some a := by
  obtain ⟨r, hr, hn⟩ : ∃ r ∈ t.runs, r.target ≠ none := by
    simpa [isEmpty] using he
  obtain ⟨a, ha⟩ := Option.ne_none_iff_exists'.mp hn
  obtain ⟨n, -, hn, b, hb⟩ := exists_target?_of_covers h.covers ⟨r, hr, ha⟩
  refine ⟨UInt8.ofNat n, b, ?_⟩
  rwa [step_eq_target?, UInt8.toNat_ofNat_of_lt' hn]

/-! ## Setting ranges -/

section Set

variable {P : α → Prop} {lo hi : Nat} {a : α}

theorem covers_split {floor : Nat} {r : Run α} {runs : List (Run α)} (hlt : lo < hi)
    (hr : floor < r.ceiling) (hc : Covers r.ceiling runs) :
    Covers floor (split lo hi a floor r ++ runs) := by
  unfold split
  split
  · exact ⟨hr, hc⟩
  · rename_i h
    rw [List.append_assoc, List.cons_append]
    by_cases h₁ : floor < lo <;> by_cases h₂ : hi < r.ceiling <;>
      simp only [h₁, h₂, ite_true, ite_false, List.nil_append, List.cons_append, Covers]
    · exact ⟨trivial, by omega, by omega, hc⟩
    · rw [Nat.min_eq_left (by omega)]
      exact ⟨trivial, by omega, hc⟩
    · exact ⟨by omega, by omega, hc⟩
    · rw [Nat.min_eq_left (by omega)]
      exact ⟨by omega, hc⟩

theorem allTargets_split {floor : Nat} {r : Run α} (ha : P a) (hr : ∀ b, r.target = some b → P b) :
    AllTargets P (split lo hi a floor r) := by
  intro s hs b hb
  unfold split at hs
  split at hs
  · rw [List.mem_singleton.mp hs] at hb
    exact hr b hb
  · rcases List.mem_append.mp hs with hs | hs
    · split at hs
      · rw [List.mem_singleton.mp hs] at hb
        exact hr b hb
      · cases hs
    · rcases List.mem_cons.mp hs with rfl | hs
      · cases hb
        exact ha
      · split at hs
        · rw [List.mem_singleton.mp hs] at hb
          exact hr b hb
        · cases hs

/-- Below the run's ceiling the parts of a run have the new target in the range
and the old one outside; from the ceiling on they say nothing. -/
theorem target?_split {floor : Nat} {r : Run α} {runs : List (Run α)} (hlt : lo < hi) {n : Nat}
    (hn : floor ≤ n) :
    target? (split lo hi a floor r ++ runs) n =
      if n < r.ceiling then (if lo ≤ n ∧ n < hi then some a else r.target)
      else target? runs n := by
  unfold split
  split
  · rename_i h
    rw [List.singleton_append, target?_cons_eq]
    split
    · rw [ite_cond_eq_false _ _ (by simp only [eq_iff_iff, iff_false]; omega)]
    · rfl
  · rename_i h
    rw [List.append_assoc, List.cons_append]
    by_cases h₁ : floor < lo <;> by_cases h₂ : hi < r.ceiling <;>
      simp only [h₁, h₂, ite_true, ite_false, List.nil_append, List.cons_append, target?_cons_eq]
      <;> grind

variable [BEq α]

theorem setRuns_wellFormed (ha : P a) (hlt : lo < hi) :
    ∀ {floor : Nat} {runs : List (Run α)}, Covers floor runs → AllTargets P runs →
      Covers floor (setRuns lo hi a floor runs) ∧ AllTargets P (setRuns lo hi a floor runs)
  | _, [], hc, ht => ⟨hc, ht⟩
  | floor, r :: runs, hc, ht => by
    have ht' := allTargets_cons.mp ht
    obtain ⟨hc₁, ht₁⟩ := setRuns_wellFormed ha hlt hc.2 ht'.2
    refine ⟨covers_append (covers_split hlt hc.1 hc₁), allTargets_append fun s hs => ?_⟩
    rcases List.mem_append.mp hs with hs | hs
    · exact allTargets_split ha ht'.1 s hs
    · exact ht₁ s hs

/-- After setting a range the bytes in it have the new target, and no other
byte's target has changed. -/
theorem related_target?_setRuns {R : Option α → Option α → Prop} (hR : Identifies P R) (ha : P a)
    (hlt : lo < hi) :
    ∀ {floor : Nat} {runs : List (Run α)}, Covers floor runs → AllTargets P runs →
      ∀ {n}, floor ≤ n → n < byteCount →
        R (target? (setRuns lo hi a floor runs) n)
          (if lo ≤ n ∧ n < hi then some a else target? runs n)
  | floor, [], hc, _, n, hn, hlt' => absurd (show floor = byteCount from hc) (by omega)
  | floor, r :: runs, hc, ht, n, hn, hlt' => by
    have ht' := allTargets_cons.mp ht
    obtain ⟨hc₁, ht₁⟩ := setRuns_wellFormed ha hlt hc.2 ht'.2
    have happ : AllTargets P (split lo hi a floor r ++ setRuns lo hi a r.ceiling runs) :=
      fun s hs => (List.mem_append.mp hs).elim (allTargets_split ha ht'.1 s) (ht₁ s)
    refine hR.trans (related_target?_append hR (covers_split hlt hc.1 hc₁) happ n) ?_
    rw [target?_split hlt hn, target?_cons_eq]
    split
    · exact hR.refl _
    · exact related_target?_setRuns hR ha hlt hc.2 ht'.2 (by omega) hlt'

theorem wellFormed_setRange {t : RangeTable α} (h : t.WellFormed P) (ha : P a) (hlt : lo < hi) :
    (t.setRange lo hi a).WellFormed P :=
  have := setRuns_wellFormed ha hlt h.covers h.targets
  ⟨this.1, this.2⟩

theorem related_step_setRange {R : Option α → Option α → Prop} (hR : Identifies P R)
    {t : RangeTable α} (h : t.WellFormed P) (ha : P a) (hlt : lo < hi) (b : UInt8) :
    R ((t.setRange lo hi a).step b)
      (if lo ≤ b.toNat ∧ b.toNat < hi then some a else t.step b) :=
  related_target?_setRuns hR ha hlt h.covers h.targets (Nat.zero_le _) (UInt8.toNat_lt b)

theorem step_setRange (hP : Separated P) {t : RangeTable α} (h : t.WellFormed P) (ha : P a)
    (hlt : lo < hi) (b : UInt8) :
    (t.setRange lo hi a).step b = if lo ≤ b.toNat ∧ b.toNat < hi then some a else t.step b :=
  related_step_setRange hP.identifies h ha hlt b

theorem wellFormed_setByte {t : RangeTable α} (h : t.WellFormed P) (ha : P a) (b : UInt8) :
    (t.setByte b a).WellFormed P := wellFormed_setRange h ha (Nat.lt_succ_self _)

theorem step_setByte (hP : Separated P) {t : RangeTable α} (h : t.WellFormed P) (ha : P a)
    (b c : UInt8) : (t.setByte b a).step c = if c.toNat = b.toNat then some a else t.step c := by
  rw [setByte, step_setRange hP h ha (Nat.lt_succ_self _)]
  refine ite_congr (propext ?_) (fun _ => rfl) (fun _ => rfl)
  omega

end Set

end RangeTable

end EventMatch
