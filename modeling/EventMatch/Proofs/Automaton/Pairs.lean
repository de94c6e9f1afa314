import EventMatch.Proofs.Automaton.Merge
import EventMatch.Proofs.Automaton.NormalForm
import Mathlib.Data.Set.Card

/-!
# The pairs that a merge makes states for

A pair of different states is met if some bytes lead to the one in the first automaton and to the
other in the second. What a merge adds to its memo are pairs that are met, and it uses up one
label for each (`mergeStates_adds`, `mergeRuns_adds`). In the other direction, a merge is joined
from both automata along every word (`mergeWith_joined`), so a pair that is met has an entry. After
a merge that begins with no pair merged the memo holds just the pairs that are met
(`mem_memo_mergeWith`), and as many states are new (`mergeWith_pairs`).
-/

namespace EventMatch

variable {β : Type}

/-! ## Pairs that are met -/

/-- Some bytes lead from the two states to different states with these labels. -/
def Meets (s t : State β) (k : Nat × Nat) : Prop :=
  k.1 ≠ k.2 ∧ ∃ w s' t', s.follow? w = some s' ∧ t.follow? w = some t' ∧ k = (s'.label, t'.label)

/-- Both targets are there, and the labels are met from them. -/
def TargetsMeet (x y : Option (State β)) (k : Nat × Nat) : Prop := ∃ s t, x = some s ∧ y = some t ∧ Meets s t k

/-- The labels are met from the targets of a byte value that is not below the floor. -/
def RunsMeet (floor : Nat) (f g : Nat → Option (State β)) (k : Nat × Nat) : Prop :=
  ∃ n, floor ≤ n ∧ n < byteCount ∧ TargetsMeet (f n) (g n) k

variable {k : Nat × Nat}

theorem meets_self {s t : State β} (h : s.label ≠ t.label) : Meets s t (s.label, t.label) :=
  ⟨h, [], s, t, rfl, rfl, rfl⟩

/-- What is met from the targets of two tables' runs is met along some bytes. -/
theorem RunsMeet.exists_stateAt? {t u : Automaton β} {floor : Nat}
    (h : RunsMeet floor (Run.target? t.runs) (Run.target? u.runs) k) :
    k.1 ≠ k.2 ∧ ∃ b w s' t', t.stateAt? (b :: w) = some s' ∧ u.stateAt? (b :: w) = some t' ∧ k = (s'.label, t'.label) := by
  obtain ⟨n, -, hn, s₁, t₁, hs, ht, hne, w, s', t', hs', ht', hk⟩ := h
  have hbyte : (UInt8.ofNat n).toNat = n := UInt8.toNat_ofNat_of_lt' hn
  refine ⟨hne, UInt8.ofNat n, w, s', t', ?_, ?_, hk⟩
  · rw [Automaton.stateAt?_cons, RangeTable.step_eq_target?, hbyte, hs]
    exact hs'
  · rw [Automaton.stateAt?_cons, RangeTable.step_eq_target?, hbyte, ht]
    exact ht'

theorem RunsMeet.meets {s t : State β} {floor : Nat}
    (h : RunsMeet floor (Run.target? s.table.runs) (Run.target? t.table.runs) k) : Meets s t k := by
  obtain ⟨hne, b, w, s', t', hs', ht', hk⟩ := h.exists_stateAt?
  rw [Automaton.stateAt?_cons, ← State.follow?_cons] at hs' ht'
  exact ⟨hne, b :: w, s', t', hs', ht', hk⟩

/-- What is met from a higher floor on. -/
theorem RunsMeet.mono {floor c : Nat} {f g f' g' : Nat → Option (State β)} (h : RunsMeet c f g k) (hle : floor ≤ c)
    (hf : ∀ n, c ≤ n → f' n = f n) (hg : ∀ n, c ≤ n → g' n = g n) : RunsMeet floor f' g' k := by
  obtain ⟨n, hn, hlt, hmeet⟩ := h
  refine ⟨n, Nat.le_trans hle hn, hlt, ?_⟩
  rw [hf n hn, hg n hn]
  exact hmeet

/-! ## What a merge adds -/

/-- The pairs that came into the memo have the property, and each of them has used up a label. -/
structure Adds (p p' : MergePass β) (P : Nat × Nat → Prop) : Prop where
  keys : ∀ k, k ∈ p'.memo → k ∈ p.memo ∨ P k
  labels : p'.next + p.memo.size = p.next + p'.memo.size

namespace Adds

variable {p p₁ p₂ : MergePass β} {P Q R : Nat × Nat → Prop}

theorem refl (p : MergePass β) (P : Nat × Nat → Prop) : Adds p p P := ⟨fun _ => .inl, rfl⟩

theorem mono (h : Adds p p₁ P) (hP : ∀ k, P k → Q k) : Adds p p₁ Q :=
  ⟨fun k hk => (h.keys k hk).imp_right (hP k), h.labels⟩

theorem trans (h₁ : Adds p p₁ P) (h₂ : Adds p₁ p₂ Q) (hP : ∀ k, P k → R k) (hQ : ∀ k, Q k → R k) : Adds p p₂ R where
  keys := fun k hk => by
    rcases h₂.keys k hk with hk | hk
    · exact (h₁.keys k hk).imp_right (hP k)
    · exact .inr (hQ k hk)
  labels := by
    have := h₁.labels
    have := h₂.labels
    omega

/-- A state that is made for one more pair. -/
theorem insert (h : Adds p p₁ P) {k : Nat × Nat} (hn : p₁.memo[k]? = none) (m : State β) (hP : ∀ k, P k → Q k)
    (hk : Q k) : Adds p ⟨p₁.next + 1, p₁.memo.insert k m⟩ Q where
  keys := fun k' hk' => by
    rcases Std.HashMap.mem_insert.mp hk' with he | hk'
    · exact .inr (beq_iff_eq.mp he ▸ hk)
    · exact (h.keys k' hk').imp_right (hP k')
  labels := by
    have hnot : k ∉ p₁.memo := fun hmem => by
      rw [Std.HashMap.getElem?_eq_some_getElem hmem] at hn
      cases hn
    have hsize : (p₁.memo.insert k m).size = p₁.memo.size + 1 := by
      rw [Std.HashMap.size_insert, if_neg hnot]
    have := h.labels
    show p₁.next + 1 + p.memo.size = p.next + (p₁.memo.insert k m).size
    omega

/-- The targets at a floor, then what is met from a higher one on. -/
theorem runs {floor c : Nat} {x y : Option (State β)} {f g f' g' : Nat → Option (State β)}
    (h₁ : Adds p p₁ (TargetsMeet x y)) (h₂ : Adds p₁ p₂ (RunsMeet c f g)) (hlt : floor < c) (hle : c ≤ byteCount)
    (hx : f' floor = x) (hy : g' floor = y) (hf : ∀ n, c ≤ n → f' n = f n) (hg : ∀ n, c ≤ n → g' n = g n) :
    Adds p p₂ (RunsMeet floor f' g') :=
  h₁.trans h₂ (fun k hk => ⟨floor, Nat.le_refl floor, Nat.lt_of_lt_of_le hlt hle, by rw [hx, hy]; exact hk⟩)
    fun k hk => hk.mono (Nat.le_of_lt hlt) hf hg

end Adds

variable [BEq β]

open Run in
mutual

theorem mergeStates_adds {S : Set (State β)} : ∀ (s t : State β) (p : MergePass β), SoundPass S p →
    s ∈ S → t ∈ S → Adds p (mergeStates s t p).2 (Meets s t)
  | .mk l₁ ⟨runs₁⟩ exits₁, .mk l₂ ⟨runs₂⟩ exits₂, p, hp, hs, ht => by
    rw [mergeStates]
    split
    · exact .refl p _
    rename_i hne
    split
    · exact .refl p _
    rename_i hn
    have w₁ := hp.pool.closed _ hs
    have w₂ := hp.pool.closed _ ht
    obtain ⟨S₁, hg, -⟩ := mergeRuns_ok runs₁ runs₂ p hp w₁.covers w₂.covers w₁.targets w₂.targets
    have hruns := mergeRuns_adds runs₁ runs₂ p hp w₁.covers w₂.covers w₁.targets w₂.targets
    -- What is merged below the two states is not the two states, so their pair is still new.
    exact hruns.insert (hg.getElem?_eq_none (hg.pool hs) (hg.pool ht) hn) _ (fun _ h => h.meets) (meets_self hne)
termination_by s t => sizeOf s + sizeOf t

theorem mergeTargets_adds {S : Set (State β)} : ∀ (x y : Option (State β)) (p : MergePass β),
    SoundPass S p → (∀ s, x = some s → s ∈ S) → (∀ t, y = some t → t ∈ S) →
    Adds p (mergeTargets x y p).2 (TargetsMeet x y)
  | some s, some t, p, hp, hx, hy => by
    rw [mergeTargets]
    exact (mergeStates_adds s t p hp (hx s rfl) (hy t rfl)).mono fun k hk => ⟨s, t, rfl, rfl, hk⟩
  | some s, none, p, _, _, _ => by
    rw [mergeTargets]
    exact .refl p _
  | none, y, p, _, _, _ => by
    rw [mergeTargets]
    exact .refl p _
termination_by x y => sizeOf x + sizeOf y

theorem mergeRuns_adds {S : Set (State β)} : ∀ (runs₁ runs₂ : List (Run (State β)))
    (p : MergePass β), SoundPass S p → ∀ {floor : Nat}, Covers floor runs₁ → Covers floor runs₂ →
    AllTargets (· ∈ S) runs₁ → AllTargets (· ∈ S) runs₂ →
    Adds p (mergeRuns runs₁ runs₂ p).2 (RunsMeet floor (target? runs₁) (target? runs₂))
  | [], _, p, _, _, _, _, _, _ => by
    rw [mergeRuns]
    exact .refl p _
  | _ :: _, [], p, _, _, _, _, _, _ => by
    rw [mergeRuns]
    exact .refl p _
  | ⟨c₁, x₁⟩ :: runs₁, ⟨c₂, x₂⟩ :: runs₂, p, hp, floor, hc₁, hc₂, ht₁, ht₂ => by
    have t₁ := allTargets_cons.mp ht₁
    have t₂ := allTargets_cons.mp ht₂
    have hf₁ : floor < c₁ := hc₁.1
    have hf₂ : floor < c₂ := hc₂.1
    obtain ⟨S₁, hg, -⟩ := mergeTargets_ok x₁ x₂ p hp t₁.1 t₂.1
    have hfirst := mergeTargets_adds x₁ x₂ p hp t₁.1 t₂.1
    have up : ∀ {runs : List (Run (State β))}, AllTargets (· ∈ S) runs → AllTargets (· ∈ S₁) runs :=
      fun h => h.mono fun _ hs => hg.pool hs
    rw [mergeRuns]
    split
    · rename_i hlt
      have hrest := mergeRuns_adds runs₁ (⟨c₂, x₂⟩ :: runs₂) _ hg.sound hc₁.2 ⟨hlt, hc₂.2⟩ (up t₁.2) (up ht₂)
      exact hfirst.runs hrest hf₁ hc₁.2.le (target?_cons_of_lt hf₁) (target?_cons_of_lt hf₂)
        (fun _ h => target?_cons_of_le h) fun _ _ => rfl
    split
    · rename_i hlt
      have hrest := mergeRuns_adds (⟨c₁, x₁⟩ :: runs₁) runs₂ _ hg.sound ⟨hlt, hc₁.2⟩ hc₂.2 (up ht₁) (up t₂.2)
      exact hfirst.runs hrest hf₂ hc₂.2.le (target?_cons_of_lt hf₁) (target?_cons_of_lt hf₂) (fun _ _ => rfl)
        fun _ h => target?_cons_of_le h
    · obtain rfl : c₁ = c₂ := by omega
      have hrest := mergeRuns_adds runs₁ runs₂ _ hg.sound hc₁.2 hc₂.2 (up t₁.2) (up t₂.2)
      exact hfirst.runs hrest hf₁ hc₁.2.le (target?_cons_of_lt hf₁) (target?_cons_of_lt hf₂)
        (fun _ h => target?_cons_of_le h) fun _ h => target?_cons_of_le h
termination_by runs₁ runs₂ => sizeOf runs₁ + sizeOf runs₂

end

/-! ## Whole merges -/

/-- The pairs of different states that some bytes lead to in the two automata. (No bytes lead to no
state.) -/
def Automaton.metPairs (t u : Automaton β) : Set (State β × State β) :=
  {q | q.1.label ≠ q.2.label ∧ ∃ w, t.stateAt? w = some q.1 ∧ u.stateAt? w = some q.2}

omit [BEq β] in
theorem metPairs_empty (u : Automaton β) : Automaton.metPairs .empty u = ∅ := by
  refine Set.eq_empty_of_forall_notMem ?_
  rintro q ⟨-, w, hs, -⟩
  cases w with
  | nil => cases hs
  | cons b w =>
    rw [Automaton.stateAt?_cons, RangeTable.step_empty] at hs
    cases hs

omit [BEq β] in
/-- Where every byte leads to the same two states, these are met, and then what is met from them. -/
theorem metPairs_uniform {s s' : State β} (hne : s.label ≠ s'.label) :
    Automaton.metPairs (.uniform s) (.uniform s') = insert (s, s') (Automaton.metPairs s.table s'.table) := by
  have hafter (s : State β) (b c : UInt8) (w : Bytes) :
      Automaton.stateAt? (.uniform s) (b :: c :: w) = Automaton.stateAt? s.table (c :: w) := by
    rw [Automaton.stateAt?_cons, RangeTable.step_uniform, Option.bind_some, State.follow?_cons, Automaton.stateAt?_cons]
  ext q
  constructor
  · rintro ⟨hq, w, hs, hs'⟩
    match w with
    | [] => cases hs
    | [b] =>
      simp only [Automaton.stateAt?, RangeTable.step_uniform, Option.some.injEq] at hs hs'
      exact .inl (Prod.ext hs.symm hs'.symm)
    | b :: c :: w =>
      rw [hafter] at hs hs'
      exact .inr ⟨hq, c :: w, hs, hs'⟩
  · rintro (rfl | ⟨hq, w, hs, hs'⟩)
    · exact ⟨hne, [0], RangeTable.step_uniform s 0, RangeTable.step_uniform s' 0⟩
    · cases w with
      | nil => cases hs
      | cons c w => exact ⟨hq, 0 :: c :: w, (hafter _ _ _ _).trans hs, (hafter _ _ _ _).trans hs'⟩

omit [BEq β] in
/-- Where the second automaton leads nowhere, the merge leads where the first does. -/
theorem Joined.eq_left {memo : MergeMemo β} : ∀ {x z : Option (State β)}, Joined memo x none z → z = x
  | none, _, h => h
  | some _, _, h => h

variable {S : Set (State β)} {n : Nat} {t u : Automaton β}

/-- After a merge that begins with no pair merged, the pairs in the memo are those that are met. -/
theorem mem_memo_mergeWith (hS : Pool S n) (ht : t.WellFormed (· ∈ S)) (hu : u.WellFormed (· ∈ S)) (k : Nat × Nat) :
    k ∈ ((t.mergeWith u).run ⟨n, ∅⟩).2.memo ↔ ∃ q ∈ t.metPairs u, (q.1.label, q.2.label) = k := by
  have hp : SoundPass S ⟨n, ∅⟩ := .start hS
  constructor
  · intro hk
    have hadds := mergeRuns_adds t.runs u.runs _ hp ht.covers hu.covers ht.targets hu.targets
    obtain ⟨hne, b, w, s', t', hs', ht', rfl⟩ := ((hadds.keys k hk).resolve_left Std.HashMap.not_mem_empty).exists_stateAt?
    exact ⟨(s', t'), ⟨hne, b :: w, hs', ht'⟩, rfl⟩
  · rintro ⟨⟨s', t'⟩, ⟨hne, w, hs', ht'⟩, rfl⟩
    exact mem_memo_of_stateAt? hp ht hu hs' ht' hne

theorem size_memo_mergeWith (hS : Pool S n) (ht : t.WellFormed (· ∈ S)) (hu : u.WellFormed (· ∈ S)) :
    ((t.mergeWith u).run ⟨n, ∅⟩).2.memo.size = (t.metPairs u).ncard := by
  have hkeys : (fun q : State β × State β => (q.1.label, q.2.label)) '' t.metPairs u =
      (((t.mergeWith u).run ⟨n, ∅⟩).2.memo.keys.toFinset : Set (Nat × Nat)) := by
    ext k
    rw [Set.mem_image, Finset.mem_coe, List.mem_toFinset, Std.HashMap.mem_keys, mem_memo_mergeWith hS ht hu]
  have hinj : Set.InjOn (fun q : State β × State β => (q.1.label, q.2.label)) (t.metPairs u) := by
    rintro ⟨s₁, t₁⟩ ⟨-, w₁, hs₁, ht₁⟩ ⟨s₂, t₂⟩ ⟨-, w₂, hs₂, ht₂⟩ he
    obtain ⟨hs, ht'⟩ := Prod.mk.inj he
    exact Prod.ext (hS.unique _ (hS.stateAt? ht hs₁) _ (hS.stateAt? ht hs₂) hs)
      (hS.unique _ (hS.stateAt? hu ht₁) _ (hS.stateAt? hu ht₂) ht')
  rw [← hinj.ncard_image, hkeys, Set.ncard_coe_finset, List.toFinset_card_of_nodup Std.HashMap.nodup_keys,
    Std.HashMap.length_keys]

/-! ## Merges with itself -/

theorem mergeStates_self (s : State β) (p : MergePass β) : mergeStates s s p = (s, p) := by
  obtain ⟨l, ⟨runs⟩, exits⟩ := s
  rw [mergeStates, if_pos rfl]

theorem mergeTargets_self (x : Option (State β)) (p : MergePass β) : mergeTargets x x p = (x, p) := by
  cases x with
  | none => rw [mergeTargets]
  | some s => rw [mergeTargets, mergeStates_self]

open Run in
/-- Where no neighbours have the same target, runs merged with themselves stay what they are. -/
theorem mergeRuns_self : ∀ {runs : List (Run (State β))}, Apart runs → ∀ p, mergeRuns runs runs p = (runs, p)
  | [], _, p => by rw [mergeRuns]
  | ⟨c, x⟩ :: runs, h, p => by
    have hrest : mergeRuns runs runs p = (runs, p) := mergeRuns_self h.tail p
    have hcons : Run.cons ⟨c, x⟩ runs = ⟨c, x⟩ :: runs := by
      cases runs with
      | nil => rfl
      | cons r runs => exact if_neg (List.isChain_cons_cons.mp h).1
    rw [mergeRuns, mergeTargets_self, if_neg (Nat.lt_irrefl c), if_neg (Nat.lt_irrefl c)]
    simp only [hrest, hcons]

/-- A merge makes one state for each pair of different states that some bytes lead to in the two
automata, and shares it: bytes that lead to the same pair lead to the same merged state. Where one
automaton leads nowhere or both lead to one state, this very state is shared. An automaton that is
merged with itself stays what it is. -/
theorem mergeWith_pairs (hS : Pool S n) (ht : t.WellFormed (· ∈ S)) (hu : u.WellFormed (· ∈ S)) :
    let r := (t.mergeWith u).run ⟨n, ∅⟩
    r.2.memo.size = (t.metPairs u).ncard ∧
      -- As many states are new.
      r.2.next = n + r.2.memo.size ∧
      (∀ w w', t.stateAt? w = t.stateAt? w' → u.stateAt? w = u.stateAt? w' → r.1.stateAt? w = r.1.stateAt? w') ∧
      (∀ w, u.stateAt? w = none → r.1.stateAt? w = t.stateAt? w) ∧
      (∀ w, t.stateAt? w = none → r.1.stateAt? w = u.stateAt? w) ∧
      (∀ w s s', t.stateAt? w = some s → u.stateAt? w = some s' → s.label = s'.label → r.1.stateAt? w = some s) ∧
      (t.NormalForm → ∀ p, (t.mergeWith t).run p = (t, p)) := by
  intro r
  have hp : SoundPass S ⟨n, ∅⟩ := .start hS
  obtain ⟨-, -, -, hj⟩ := mergeWith_joined hp ht hu
  have hadds := mergeRuns_adds t.runs u.runs _ hp ht.covers hu.covers ht.targets hu.targets
  refine ⟨size_memo_mergeWith hS ht hu, ?_, fun w w' hw hw' => ?_, fun w hw => ?_, fun w hw => ?_,
    fun w s s' hs hs' hl => ?_, fun h p => ?_⟩
  · have hlabels := hadds.labels
    rw [Std.HashMap.size_empty] at hlabels
    exact hlabels
  · exact (hj w).unique (hw ▸ hw' ▸ hj w')
  · have h := hj w
    rw [hw] at h
    exact h.eq_left
  · have h := hj w
    rw [hw] at h
    exact h
  · have h := hj w
    rw [hs, hs'] at h
    obtain ⟨m, hm, hmerged⟩ := h
    rw [if_pos hl] at hmerged
    rw [← hmerged]
    exact hm
  · exact congrArg (fun r => (RangeTable.mk r.1, r.2)) (mergeRuns_self h.apart p)

/-- All strings of two bytes lead to one pair of states, and all single bytes to another. -/
theorem mergeWith_pairs_uniform :
    let t : Automaton Bool := .uniform (.mk 1 (.uniform (.mk 0 .empty [true])) [])
    let u : Automaton Bool := .uniform (.mk 3 (.uniform (.mk 2 .empty [false])) [])
    let r := (t.mergeWith u).run ⟨4, ∅⟩
    (t.metPairs u).ncard = 2 ∧ r.1.stateAt? [0x30, 0x71] = r.1.stateAt? [0x39, 0x72] ∧
      (t.mergeWith t).run ⟨4, ∅⟩ = (t, ⟨4, ∅⟩) := by
  intro t u r
  have h₀ := (Pool.empty 0).insert (s := .mk 0 .empty [true]) rfl (RangeTable.wellFormed_empty _)
  have h₁ := h₀.insert (s := .mk 1 (.uniform (.mk 0 .empty [true])) []) rfl
    (RangeTable.wellFormed_uniform (Set.mem_insert _ _))
  have h₂ := h₁.insert (s := .mk 2 .empty [false]) rfl (RangeTable.wellFormed_empty _)
  have h₃ := h₂.insert (s := .mk 3 (.uniform (.mk 2 .empty [false])) []) rfl
    (RangeTable.wellFormed_uniform (Set.mem_insert _ _))
  have hnormal : t.NormalForm := ⟨⟨show 0 < byteCount by decide, rfl⟩, List.isChain_singleton _⟩
  obtain ⟨-, -, hsame, -, -, -, hself⟩ := mergeWith_pairs (t := t) (u := u) h₃
    (RangeTable.wellFormed_uniform (.inr (.inr (Set.mem_insert _ _)))) (RangeTable.wellFormed_uniform (Set.mem_insert _ _))
  refine ⟨?_, hsame _ _ rfl rfl, hself hnormal _⟩
  have hmet : t.metPairs u = {(.mk 1 (.uniform (.mk 0 .empty [true])) [], .mk 3 (.uniform (.mk 2 .empty [false])) []),
      (.mk 0 .empty [true], .mk 2 .empty [false])} := by
    rw [metPairs_uniform (by decide), State.table, State.table, metPairs_uniform (by decide), State.table, State.table,
      metPairs_empty, insert_empty_eq]
  rw [hmet]
  exact Set.ncard_pair (by simp)

end EventMatch
