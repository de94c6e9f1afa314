import EventMatch.Automaton.Merge
import EventMatch.Proofs.Automaton.Pool
import Std.Data.HashMap.Lemmas

/-!
# What a merge of automata steps to

A memo is sound in a pool if each merged state it holds steps, on every byte, to
what the memo gives for the two states' own steps (`Joined`): where only one side
steps, to that very state, and where both do, to the merge of the two targets.
Merging keeps the pass sound, never changes an entry, and its result is joined
from the two arguments (`mergeStates_ok`, `mergeRuns_ok`). Followed along a word
this gives `exitsAt?_mergeWith`: after any merges, with any memo, the exits of the
merge on a word are those of the first automaton, then those of the second that
are not among them.
-/

namespace EventMatch

variable {β : Type}

/-- What the memo makes of two optional targets. -/
def Joined (memo : MergeMemo β) : Option (State β) → Option (State β) → Option (State β) → Prop
  | none, y, z => z = y
  | some s, none, z => z = some s
  | some s, some t, z =>
    ∃ m, z = some m ∧ if s.label = t.label then m = s else memo[(s.label, t.label)]? = some m

/-- Every entry of the first memo is in the second. -/
def MemoLE (memo later : MergeMemo β) : Prop :=
  ∀ (k : Nat × Nat) (m : State β), memo[k]? = some m → later[k]? = some m

theorem MemoLE.refl (memo : MergeMemo β) : MemoLE memo memo := fun _ _ h => h

theorem MemoLE.trans {a b c : MergeMemo β} (h₁ : MemoLE a b) (h₂ : MemoLE b c) : MemoLE a c :=
  fun k m h => h₂ k m (h₁ k m h)

theorem Joined.mono {memo later : MergeMemo β} (hle : MemoLE memo later) :
    ∀ {x y z : Option (State β)}, Joined memo x y z → Joined later x y z
  | none, _, _, h => h
  | some _, none, _, h => h
  | some s, some t, _, ⟨m, hz, hm⟩ => by
    refine ⟨m, hz, ?_⟩
    split
    · rename_i e
      rwa [if_pos e] at hm
    · rename_i e
      rw [if_neg e] at hm
      exact hle _ _ hm

/-- Nothing else comes of the same two targets. -/
theorem Joined.unique {memo : MergeMemo β} :
    ∀ {x y z z' : Option (State β)}, Joined memo x y z → Joined memo x y z' → z = z'
  | none, _, _, _, h, h' => h.trans h'.symm
  | some _, none, _, _, h, h' => h.trans h'.symm
  | some s, some t, _, _, ⟨m, hz, hm⟩, ⟨m', hz', hm'⟩ => by
    rw [hz, hz']
    split at hm
    · rename_i e
      rw [if_pos e] at hm'
      rw [hm, hm']
    · rename_i e
      rw [if_neg e] at hm'
      exact hm.symm.trans hm'

theorem Joined.self (memo : MergeMemo β) : ∀ x : Option (State β), Joined memo x x x
  | none => rfl
  | some s => ⟨s, rfl, (if_pos rfl).mpr rfl⟩

variable [BEq β]

/-- The entry for two states is their merge. -/
structure SoundEntry (S : Set (State β)) (memo : MergeMemo β) (s t m : State β) : Prop where
  left : s ∈ S
  right : t ∈ S
  merged : m ∈ S
  exits : m.exits = union s.exits t.exits
  step : ∀ b, Joined memo (s.table.step b) (t.table.step b) (m.table.step b)

/-- A pass whose next label is new to the pool and whose entries are all sound. -/
structure SoundPass (S : Set (State β)) (p : MergePass β) : Prop where
  pool : Pool S p.next
  entry : ∀ l₁ l₂ m, p.memo[(l₁, l₂)]? = some m →
    ∃ s t, s.label = l₁ ∧ t.label = l₂ ∧ SoundEntry S p.memo s t m

theorem SoundEntry.mono {S S' : Set (State β)} {memo later : MergeMemo β} {s t m : State β}
    (h : SoundEntry S memo s t m) (hS : S ⊆ S') (hle : MemoLE memo later) :
    SoundEntry S' later s t m :=
  ⟨hS h.left, hS h.right, hS h.merged, h.exits, fun b => (h.step b).mono hle⟩

/-- A pass without entries is sound in every pool. -/
theorem SoundPass.start {S : Set (State β)} {next : Nat} (h : Pool S next) :
    SoundPass S ⟨next, ∅⟩ :=
  ⟨h, fun l₁ l₂ m hm => by
    rw [Std.HashMap.getElem?_empty] at hm
    cases hm⟩

/-- A pass stays sound when the pool grows and labels are used up outside of it. -/
theorem SoundPass.grow {S S' : Set (State β)} {p : MergePass β} (h : SoundPass S p) (hS : S ⊆ S')
    {next : Nat} (hp : Pool S' next) : SoundPass S' ⟨next, p.memo⟩ :=
  ⟨hp, fun l₁ l₂ m hm => by
    obtain ⟨s, t, e₁, e₂, he⟩ := h.entry l₁ l₂ m hm
    exact ⟨s, t, e₁, e₂, he.mono hS (.refl _)⟩⟩

/-- What one merge does to pool and pass. The pairs that it adds to the memo are
smaller than `size`, and the states that it adds to the pool are in the memo. -/
structure PassGrows (size : Nat) (S : Set (State β)) (p : MergePass β) (S' : Set (State β))
    (p' : MergePass β) : Prop where
  pool : S ⊆ S'
  next : p.next ≤ p'.next
  memo : MemoLE p.memo p'.memo
  added : ∀ l₁ l₂ m, p'.memo[(l₁, l₂)]? = some m → p.memo[(l₁, l₂)]? = some m ∨
    ∃ s ∈ S', ∃ t ∈ S', s.label = l₁ ∧ t.label = l₂ ∧ sizeOf s + sizeOf t < size
  origin : ∀ s ∈ S', s ∈ S ∨ ∃ k : Nat × Nat, p'.memo[k]? = some s
  sound : SoundPass S' p'

namespace PassGrows

variable {size size' : Nat} {S S₁ S₂ : Set (State β)} {p p₁ p₂ : MergePass β}

theorem refl (h : SoundPass S p) : PassGrows size S p S p :=
  ⟨subset_rfl, Nat.le_refl _, .refl _, fun _ _ _ h => .inl h, fun _ h => .inl h, h⟩

theorem trans (h₁ : PassGrows size S p S₁ p₁) (h₂ : PassGrows size' S₁ p₁ S₂ p₂)
    (hle : size' ≤ size) : PassGrows size S p S₂ p₂ where
  pool := h₁.pool.trans h₂.pool
  next := h₁.next.trans h₂.next
  memo := h₁.memo.trans h₂.memo
  added := fun l₁ l₂ m h => by
    rcases h₂.added l₁ l₂ m h with h | ⟨s, hs, t, ht, e₁, e₂, hlt⟩
    · rcases h₁.added l₁ l₂ m h with h | ⟨s, hs, t, ht, e⟩
      · exact .inl h
      · exact .inr ⟨s, h₂.pool hs, t, h₂.pool ht, e⟩
    · exact .inr ⟨s, hs, t, ht, e₁, e₂, by omega⟩
  origin := fun s hs => by
    rcases h₂.origin s hs with hs | hk
    · exact (h₁.origin s hs).imp_right fun ⟨k, hk⟩ => ⟨k, h₂.memo k s hk⟩
    · exact .inr hk
  sound := h₂.sound

theorem widen (h : PassGrows size S p S₁ p₁) (hle : size ≤ size') : PassGrows size' S p S₁ p₁ :=
  ⟨h.pool, h.next, h.memo, fun l₁ l₂ m hm => by
    rcases h.added l₁ l₂ m hm with hm | ⟨s, hs, t, ht, e₁, e₂, hlt⟩
    · exact .inl hm
    · exact .inr ⟨s, hs, t, ht, e₁, e₂, by omega⟩, h.origin, h.sound⟩

/-- The targets of two states' runs are smaller than the states, so their merges add no entry
for the two. -/
theorem getElem?_eq_none {l₁ l₂ : Nat} {runs₁ runs₂ : List (Run (State β))} {exits₁ exits₂ : List β}
    (h : PassGrows (sizeOf runs₁ + sizeOf runs₂) S p S₁ p₁) (hs : State.mk l₁ ⟨runs₁⟩ exits₁ ∈ S₁)
    (ht : State.mk l₂ ⟨runs₂⟩ exits₂ ∈ S₁) (hn : p.memo[(l₁, l₂)]? = none) : p₁.memo[(l₁, l₂)]? = none := by
  refine Option.eq_none_iff_forall_ne_some.mpr fun m hm => ?_
  rcases h.added _ _ _ hm with hm | ⟨s', hs', t', ht', e₁, e₂, hlt⟩
  · rw [hn] at hm
    cases hm
  · rw [h.sound.pool.unique s' hs' _ hs e₁, h.sound.pool.unique t' ht' _ ht e₂] at hlt
    simp only [State.mk.sizeOf_spec, RangeTable.mk.sizeOf_spec] at hlt
    omega

end PassGrows

/-- A new entry, for a pair that no entry is for, keeps a pass sound. -/
theorem SoundPass.insert {S : Set (State β)} {p : MergePass β} (h : SoundPass S p)
    {s t : State β} (hs : s ∈ S) (ht : t ∈ S) (hn : p.memo[(s.label, t.label)]? = none)
    {table : RangeTable (State β)} (hw : table.WellFormed (· ∈ S))
    (hj : ∀ b, Joined p.memo (s.table.step b) (t.table.step b) (table.step b)) :
    let m := State.mk p.next table (union s.exits t.exits)
    PassGrows (sizeOf s + sizeOf t + 1) S p (insert m S)
      ⟨p.next + 1, p.memo.insert (s.label, t.label) m⟩ := by
  intro m
  have hle : MemoLE p.memo (p.memo.insert (s.label, t.label) m) := fun k m' hk => by
    rw [Std.HashMap.getElem?_insert, if_neg, hk]
    intro e
    rw [← beq_iff_eq.mp e, hn] at hk
    cases hk
  have hsub : S ⊆ Insert.insert m S := Set.subset_insert _ _
  have hcase : ∀ l₁ l₂ m', (p.memo.insert (s.label, t.label) m)[(l₁, l₂)]? = some m' →
      (s.label = l₁ ∧ t.label = l₂ ∧ m = m') ∨ p.memo[(l₁, l₂)]? = some m' := by
    intro l₁ l₂ m' hm'
    rw [Std.HashMap.getElem?_insert] at hm'
    split at hm'
    · rename_i e
      have e := Prod.mk.inj (beq_iff_eq.mp e)
      exact .inl ⟨e.1, e.2, Option.some.inj hm'⟩
    · exact .inr hm'
  refine ⟨hsub, Nat.le_succ _, hle, fun l₁ l₂ m' hm' => ?_, ?_, h.pool.insert rfl hw, ?_⟩
  · rcases hcase l₁ l₂ m' hm' with ⟨e₁, e₂, -⟩ | hm'
    · exact .inr ⟨s, hsub hs, t, hsub ht, e₁, e₂, Nat.lt_succ_self _⟩
    · exact .inl hm'
  · rintro a (rfl | ha)
    · exact .inr ⟨(s.label, t.label), Std.HashMap.getElem?_insert_self⟩
    · exact .inl ha
  · intro l₁ l₂ m' hm'
    rcases hcase l₁ l₂ m' hm' with ⟨e₁, e₂, rfl⟩ | hm'
    · exact ⟨s, t, e₁, e₂, hsub hs, hsub ht, Set.mem_insert _ _, rfl, fun b => (hj b).mono hle⟩
    · obtain ⟨s', t', e₁, e₂, he⟩ := h.entry l₁ l₂ m' hm'
      exact ⟨s', t', e₁, e₂, he.mono hsub hle⟩

open Run in
/-- A list of runs and a pass that come of merging, from `floor` on, runs with the
targets `f` and `g`. -/
def RunsMerged (size : Nat) (S : Set (State β)) (p : MergePass β) (floor : Nat)
    (f g : Nat → Option (State β)) (r : List (Run (State β)) × MergePass β) : Prop :=
  ∃ S', PassGrows size S p S' r.2 ∧ Covers floor r.1 ∧ AllTargets (· ∈ S') r.1 ∧
    ∀ n, floor ≤ n → n < byteCount → Joined r.2.memo (f n) (g n) (target? r.1 n)

open Run in
/-- Merged runs from `c` on, and before them one run of merged targets up to `c`. -/
theorem RunsMerged.cons {size size₁ size₂ : Nat} {S S₁ : Set (State β)} {p p₁ : MergePass β}
    {floor c : Nat} {x y z : Option (State β)} {f g : Nat → Option (State β)}
    {rest : List (Run (State β)) × MergePass β} (hg : PassGrows size₁ S p S₁ p₁)
    (hj : Joined p₁.memo x y z) (hz : ∀ m, z = some m → m ∈ S₁)
    (hr : RunsMerged size₂ S₁ p₁ c f g rest) (h₁ : size₁ ≤ size) (h₂ : size₂ ≤ size)
    (hc : floor < c) (hf : ∀ n < c, f n = x) (hg' : ∀ n < c, g n = y) :
    RunsMerged size S p floor f g (Run.cons ⟨c, z⟩ rest.1, rest.2) := by
  obtain ⟨S₂, hr, hcov, hall, hjs⟩ := hr
  have hc' : Covers floor (⟨c, z⟩ :: rest.1) := ⟨hc, hcov⟩
  have ht' : AllTargets (· ∈ S₂) (⟨c, z⟩ :: rest.1) :=
    allTargets_cons.mpr ⟨fun m e => hr.pool (hz m e), hall⟩
  refine ⟨S₂, (hg.widen h₁).trans hr h₂, covers_cons hc', allTargets_join ht', fun n hn hlt => ?_⟩
  show Joined rest.2.memo (f n) (g n) (target? (Run.cons ⟨c, z⟩ rest.1) n)
  rw [target?_cons hr.sound.pool.separated hc' ht', target?_cons_eq]
  split
  · rename_i h
    rw [hf n h, hg' n h]
    exact hj.mono hr.memo
  · rename_i h
    exact hjs n (Nat.le_of_not_lt h) hlt

/-- Merged runs depend on the targets from the floor on only. -/
theorem RunsMerged.congr {size : Nat} {S : Set (State β)} {p : MergePass β} {floor : Nat}
    {f g f' g' : Nat → Option (State β)} {r : List (Run (State β)) × MergePass β}
    (h : RunsMerged size S p floor f g r) (hf : ∀ n, floor ≤ n → f' n = f n)
    (hg : ∀ n, floor ≤ n → g' n = g n) : RunsMerged size S p floor f' g' r := by
  obtain ⟨S', h₁, h₂, h₃, h₄⟩ := h
  refine ⟨S', h₁, h₂, h₃, fun n hn hlt => ?_⟩
  rw [hf n hn, hg n hn]
  exact h₄ n hn hlt

open Run in
mutual

theorem mergeStates_ok {S : Set (State β)} : ∀ (s t : State β) (p : MergePass β), SoundPass S p →
    s ∈ S → t ∈ S → ∃ S', PassGrows (sizeOf s + sizeOf t + 1) S p S' (mergeStates s t p).2 ∧
      Joined (mergeStates s t p).2.memo (some s) (some t) (some (mergeStates s t p).1) ∧
      (mergeStates s t p).1 ∈ S'
  | .mk l₁ ⟨runs₁⟩ exits₁, .mk l₂ ⟨runs₂⟩ exits₂, p, hp, hs, ht => by
    rw [mergeStates]
    split
    · rename_i e
      exact ⟨S, .refl hp, ⟨_, rfl, (if_pos (show l₁ = l₂ from e)).mpr rfl⟩, hs⟩
    rename_i e
    split
    · rename_i m hm
      obtain ⟨_, _, _, _, he⟩ := hp.entry _ _ _ hm
      exact ⟨S, .refl hp, ⟨m, rfl, (if_neg (show ¬ l₁ = l₂ from e)).mpr hm⟩, he.merged⟩
    rename_i hn
    have w₁ := hp.pool.closed _ hs
    have w₂ := hp.pool.closed _ ht
    obtain ⟨S₁, hg, hc, hall, hj⟩ :=
      mergeRuns_ok runs₁ runs₂ p hp w₁.covers w₂.covers w₁.targets w₂.targets
    have hs₁ := hg.pool hs
    have ht₁ := hg.pool ht
    have hn₁ := hg.getElem?_eq_none hs₁ ht₁ hn
    have hw : RangeTable.WellFormed (· ∈ S₁) ⟨(mergeRuns runs₁ runs₂ p).1⟩ := ⟨hc, hall⟩
    have hnew := hg.sound.insert hs₁ ht₁ hn₁ hw
      fun b => hj b.toNat (Nat.zero_le _) (UInt8.toNat_lt b)
    refine ⟨_, (hg.widen ?_).trans hnew (Nat.le_refl _), ?_, Set.mem_insert _ _⟩
    · simp only [State.mk.sizeOf_spec, RangeTable.mk.sizeOf_spec]
      omega
    · exact ⟨_, rfl, (if_neg (show ¬ l₁ = l₂ from e)).mpr Std.HashMap.getElem?_insert_self⟩
termination_by s t => sizeOf s + sizeOf t

theorem mergeTargets_ok {S : Set (State β)} : ∀ (x y : Option (State β)) (p : MergePass β),
    SoundPass S p → (∀ s, x = some s → s ∈ S) → (∀ t, y = some t → t ∈ S) →
    ∃ S', PassGrows (sizeOf x + sizeOf y) S p S' (mergeTargets x y p).2 ∧
      Joined (mergeTargets x y p).2.memo x y (mergeTargets x y p).1 ∧
      ∀ m, (mergeTargets x y p).1 = some m → m ∈ S'
  | some s, some t, p, hp, hx, hy => by
    rw [mergeTargets]
    obtain ⟨S', hg, hj, hm⟩ := mergeStates_ok s t p hp (hx s rfl) (hy t rfl)
    refine ⟨S', hg.widen ?_, hj, fun m e => Option.some.inj e ▸ hm⟩
    simp only [Option.some.sizeOf_spec]
    omega
  | some s, none, p, hp, hx, _ => by
    rw [mergeTargets]
    exact ⟨S, .refl hp, rfl, fun m e => hx m e⟩
  | none, y, p, hp, _, hy => by
    rw [mergeTargets]
    exact ⟨S, .refl hp, rfl, fun m e => hy m e⟩
termination_by x y => sizeOf x + sizeOf y

theorem mergeRuns_ok {S : Set (State β)} : ∀ (runs₁ runs₂ : List (Run (State β)))
    (p : MergePass β), SoundPass S p → ∀ {floor : Nat}, Covers floor runs₁ → Covers floor runs₂ →
    AllTargets (· ∈ S) runs₁ → AllTargets (· ∈ S) runs₂ →
    RunsMerged (sizeOf runs₁ + sizeOf runs₂) S p floor (target? runs₁) (target? runs₂)
      (mergeRuns runs₁ runs₂ p)
  | [], _, p, hp, floor, hc₁, _, _, _ => by
    rw [mergeRuns]
    exact ⟨S, .refl hp, hc₁, fun _ h => (List.not_mem_nil h).elim,
      fun n hn hlt => absurd (show floor = byteCount from hc₁) (by omega)⟩
  | r :: runs₁, [], p, hp, floor, hc₁, hc₂, _, _ => by
    have := hc₁.2.le
    exact absurd (show floor = byteCount from hc₂) (by have := hc₁.1; omega)
  | ⟨c₁, x₁⟩ :: runs₁, ⟨c₂, x₂⟩ :: runs₂, p, hp, floor, hc₁, hc₂, ht₁, ht₂ => by
    have t₁ := allTargets_cons.mp ht₁
    have t₂ := allTargets_cons.mp ht₂
    have hf₁ : floor < c₁ := hc₁.1
    have hf₂ : floor < c₂ := hc₂.1
    rw [mergeRuns]
    obtain ⟨S₁, hg, hj, hm⟩ := mergeTargets_ok x₁ x₂ p hp t₁.1 t₂.1
    have up : ∀ {runs : List (Run (State β))}, AllTargets (· ∈ S) runs → AllTargets (· ∈ S₁) runs :=
      fun h => h.mono fun _ hs => hg.pool hs
    split
    · rename_i hlt
      refine .cons hg hj hm
        (.congr (mergeRuns_ok runs₁ (⟨c₂, x₂⟩ :: runs₂) _ hg.sound hc₁.2 ⟨hlt, hc₂.2⟩ (up t₁.2) (up ht₂))
          (fun _ h => target?_cons_of_le h) (fun _ _ => rfl)) ?_ ?_ hf₁
        (fun _ h => target?_cons_of_lt h) (fun _ h => target?_cons_of_lt (Nat.lt_trans h hlt))
      all_goals
        simp only [List.cons.sizeOf_spec, Run.mk.sizeOf_spec]
        omega
    split
    · rename_i hlt
      refine .cons hg hj hm
        (.congr (mergeRuns_ok (⟨c₁, x₁⟩ :: runs₁) runs₂ _ hg.sound ⟨hlt, hc₁.2⟩ hc₂.2 (up ht₁) (up t₂.2))
          (fun _ _ => rfl) (fun _ h => target?_cons_of_le h)) ?_ ?_ hf₂
        (fun _ h => target?_cons_of_lt (Nat.lt_trans h hlt)) (fun _ h => target?_cons_of_lt h)
      all_goals
        simp only [List.cons.sizeOf_spec, Run.mk.sizeOf_spec]
        omega
    · obtain rfl : c₁ = c₂ := by omega
      refine .cons hg hj hm
        (.congr (mergeRuns_ok runs₁ runs₂ _ hg.sound hc₁.2 hc₂.2 (up t₁.2) (up t₂.2))
          (fun _ h => target?_cons_of_le h) (fun _ h => target?_cons_of_le h)) ?_ ?_ hf₁
        (fun _ h => target?_cons_of_lt h) (fun _ h => target?_cons_of_lt h)
      all_goals
        simp only [List.cons.sizeOf_spec, Run.mk.sizeOf_spec]
        omega
termination_by runs₁ runs₂ => sizeOf runs₁ + sizeOf runs₂

end

/-! ## Merges along words -/

/-- Nothing comes of what is there already. -/
theorem union_of_forall_any {as : List β} :
    ∀ {bs : List β}, (∀ b ∈ bs, as.any (· == b) = true) → union as bs = as
  | [], _ => rfl
  | b :: bs, h => by
    show union (if as.any (· == b) then as else as ++ [b]) bs = as
    rw [if_pos (h b List.mem_cons_self)]
    exact union_of_forall_any fun c hc => h c (List.mem_cons_of_mem _ hc)

theorem union_self [ReflBEq β] (as : List β) : union as as = as :=
  union_of_forall_any fun b hb => List.any_eq_true.mpr ⟨b, hb, BEq.rfl⟩

section

variable {S : Set (State β)} {p : MergePass β}

/-- The entry for two states of the pool is theirs. -/
theorem SoundPass.get (hp : SoundPass S p) {s t m : State β} (hs : s ∈ S) (ht : t ∈ S)
    (hm : p.memo[(s.label, t.label)]? = some m) : SoundEntry S p.memo s t m := by
  obtain ⟨s', t', e₁, e₂, he⟩ := hp.entry _ _ _ hm
  rwa [hp.pool.unique _ he.left _ hs e₁, hp.pool.unique _ he.right _ ht e₂] at he

/-- What is joined stays so along every word. -/
theorem Joined.follow (hp : SoundPass S p) :
    ∀ (w : Bytes) {x y z : Option (State β)}, (∀ s, x = some s → s ∈ S) →
      (∀ t, y = some t → t ∈ S) → Joined p.memo x y z →
      Joined p.memo (x.bind (·.follow? w)) (y.bind (·.follow? w)) (z.bind (·.follow? w))
  | _, none, y, _, _, _, h => by
    rw [show _ = y from h]
    rfl
  | w, some s, none, _, _, _, h => by
    rw [show _ = some s from h]
    show Joined p.memo (s.follow? w) none (s.follow? w)
    cases s.follow? w <;> rfl
  | [], some _, some _, _, _, _, h => by
    obtain ⟨m, rfl, hm⟩ := h
    exact ⟨m, rfl, hm⟩
  | b :: w, some s, some t, _, hx, hy, h => by
    obtain ⟨m, rfl, hm⟩ := h
    have hs := hx s rfl
    have ht := hy t rfl
    split at hm
    · rename_i e
      obtain rfl := hp.pool.unique s hs t ht e
      rw [hm]
      exact .self _ _
    · exact Joined.follow hp w (fun _ => hp.pool.step hs) (fun _ => hp.pool.step ht)
        ((hp.get hs ht hm).step b)

theorem Joined.exits [ReflBEq β] (hp : SoundPass S p) :
    ∀ {x y z : Option (State β)}, (∀ s, x = some s → s ∈ S) → (∀ t, y = some t → t ∈ S) →
      Joined p.memo x y z →
      z.map State.exits = Option.merge union (x.map State.exits) (y.map State.exits)
  | none, y, _, _, _, h => by
    rw [show _ = y from h]
    cases y <;> rfl
  | some s, none, _, _, _, h => by
    rw [show _ = some s from h]
    rfl
  | some s, some t, _, hx, hy, h => by
    obtain ⟨m, rfl, hm⟩ := h
    have hs := hx s rfl
    have ht := hy t rfl
    show some m.exits = some (union s.exits t.exits)
    split at hm
    · rename_i e
      obtain rfl := hp.pool.unique s hs t ht e
      rw [hm, union_self]
    · exact congrArg some (hp.get hs ht hm).exits

/-- The merge of two automata of a pool: the pool grows, the memo stays sound, and
on every word the merge is joined from both. -/
theorem mergeWith_joined (hp : SoundPass S p) {t u : Automaton β} (ht : t.WellFormed (· ∈ S))
    (hu : u.WellFormed (· ∈ S)) :
    ∃ S', PassGrows (sizeOf t.runs + sizeOf u.runs) S p S' ((t.mergeWith u).run p).2 ∧
      ((t.mergeWith u).run p).1.WellFormed (· ∈ S') ∧
      ∀ w, Joined ((t.mergeWith u).run p).2.memo (t.stateAt? w) (u.stateAt? w)
        (((t.mergeWith u).run p).1.stateAt? w) := by
  obtain ⟨S', hg, hc, hall, hj⟩ :=
    mergeRuns_ok t.runs u.runs p hp ht.covers hu.covers ht.targets hu.targets
  refine ⟨S', hg, ⟨hc, hall⟩, fun w => ?_⟩
  cases w with
  | nil => rfl
  | cons b w =>
    have hx : ∀ s, t.step b = some s → s ∈ S' := fun s h => hg.pool (ht.step h)
    have hy : ∀ s, u.step b = some s → s ∈ S' := fun s h => hg.pool (hu.step h)
    simp only [Automaton.stateAt?_cons]
    exact Joined.follow hg.sound w hx hy (hj b.toNat (Nat.zero_le _) (UInt8.toNat_lt b))

/-- A pair of different states that some bytes lead to is in the memo after the merge. -/
theorem mem_memo_of_stateAt? (hp : SoundPass S p) {t u : Automaton β} (ht : t.WellFormed (· ∈ S))
    (hu : u.WellFormed (· ∈ S)) {w : Bytes} {s s' : State β} (hs : t.stateAt? w = some s)
    (hs' : u.stateAt? w = some s') (hne : s.label ≠ s'.label) :
    (s.label, s'.label) ∈ ((t.mergeWith u).run p).2.memo := by
  obtain ⟨-, -, -, hj⟩ := mergeWith_joined hp ht hu
  have hw := hj w
  rw [hs, hs'] at hw
  obtain ⟨m, -, hm⟩ := hw
  rw [if_neg hne] at hm
  exact Std.HashMap.mem_iff_isSome_getElem?.mpr (Option.isSome_of_eq_some hm)

/-- On every word the merge of two automata of a pool has the exits of both. -/
theorem mergeWith_ok [ReflBEq β] (hp : SoundPass S p) {t u : Automaton β}
    (ht : t.WellFormed (· ∈ S)) (hu : u.WellFormed (· ∈ S)) :
    ∃ S', PassGrows (sizeOf t.runs + sizeOf u.runs) S p S' ((t.mergeWith u).run p).2 ∧
      ((t.mergeWith u).run p).1.WellFormed (· ∈ S') ∧
      ∀ w, ((t.mergeWith u).run p).1.exitsAt? w =
        Option.merge union (t.exitsAt? w) (u.exitsAt? w) := by
  obtain ⟨S', hg, hw, hj⟩ := mergeWith_joined hp ht hu
  refine ⟨S', hg, hw, fun w => ?_⟩
  exact (hj w).exits hg.sound (fun _ h => hg.pool (hp.pool.stateAt? ht h)) fun _ h => hg.pool (hp.pool.stateAt? hu h)

end

end EventMatch
