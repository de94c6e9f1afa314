import EventMatch.Proofs.Automaton.Recognition
import Mathlib.Data.List.Induction

/-!
# Merges after other merges

A pass may have come of any merges before (`PassHistory`): of automata of a pool
that grew in between, the merged ones among them. Every such pass is sound
(`PassHistory.sound`), so what it has in its memo does not show in what it makes:
`mergeWith_isUnion` says that the merge of two automata is their union, state by
state, and with that on every value.
-/

namespace EventMatch

variable {β : Type}

/-! ## Exits along a value -/

namespace Automaton

variable {t u m : Automaton β} {v w : Bytes}

/-- The last byte of a value adds the exits that the whole value leads to. -/
theorem exitsAlong_concat (b : UInt8) : ∀ (v : Bytes) (t : Automaton β),
    t.exitsAlong (v ++ [b]) = t.exitsAlong v ++ t.exitsAt (v ++ [b])
  | [], t => by
    simp only [List.nil_append, exitsAlong, exitsAt, exitsAt?_cons]
    cases t.step b <;> simp
  | c :: v, t => by
    simp only [List.cons_append, exitsAlong, exitsAt, exitsAt?_cons]
    cases h : t.step c with
    | none => rfl
    | some s =>
      have hs : s.exitsOn? (v ++ [b]) = exitsAt? s.table (v ++ [b]) := by
        cases v <;> exact (exitsAt?_table s _ _).symm
      simp only [exitsAlong_concat b v s.table, Option.bind_some, hs, List.append_assoc]
      rfl

/-- Nothing is reached on a value before its end. -/
def ExitsAtEndOf (t : Automaton β) (v : Bytes) : Prop := ∀ w, w <+: v → t.exitsAt w = []

theorem exitsAlong_of_exitsAtEndOf (h : t.ExitsAtEndOf v) : t.exitsAlong v = [] := by
  induction v using List.reverseRecOn with
  | nil => rfl
  | append_singleton v b ih =>
    rw [exitsAlong_concat, ih fun w hw => h w (hw.trans (List.prefix_append v [b])),
      h _ List.prefix_rfl, List.nil_append]

/-- If nothing is reached before, a value reaches what it leads to with the terminator. -/
theorem run_of_exitsAtEndOf (h : t.ExitsAtEndOf v) : t.run v = t.exitsAt (v ++ [terminator]) := by
  rw [run, exitsAlong_concat, exitsAlong_of_exitsAtEndOf h, List.nil_append]

theorem exitsAt_mem_exitsAlong {e : β} (hw : w <+: v) (he : e ∈ t.exitsAt w) :
    e ∈ t.exitsAlong v := by
  induction v using List.reverseRecOn with
  | nil =>
    rw [List.prefix_nil.mp hw] at he
    cases he
  | append_singleton v b ih =>
    rw [exitsAlong_concat, List.mem_append]
    rcases List.prefix_concat_iff.mp hw with rfl | hw
    · exact .inr he
    · exact .inl (ih hw)

end Automaton

/-! ## Unions of lists -/

section

variable [BEq β]

/-- A union is the first list, then some elements of the second that are not in the first. -/
theorem exists_union_eq_append (as bs : List β) :
    ∃ rest, union as bs = as ++ rest ∧ rest.Sublist bs ∧
      ∀ b ∈ rest, as.any (· == b) = false := by
  induction bs generalizing as with
  | nil => exact ⟨[], (List.append_nil as).symm, .slnil, fun _ h => by cases h⟩
  | cons b bs ih =>
    rw [show union as (b :: bs) = union (if as.any (· == b) then as else as ++ [b]) bs from rfl]
    cases hb : as.any (· == b) with
    | true =>
      obtain ⟨rest, he, hs, hn⟩ := ih as
      exact ⟨rest, he, hs.cons b, hn⟩
    | false =>
      obtain ⟨rest, he, hs, hn⟩ := ih (as ++ [b])
      refine ⟨b :: rest, ?_, hs.cons_cons b, ?_⟩
      · simp only [Bool.false_eq_true, ↓reduceIte, he, List.append_assoc, List.singleton_append]
      · intro c hc
        rcases List.mem_cons.mp hc with rfl | hc
        · exact hb
        · have := hn c hc
          rw [List.any_append, Bool.or_eq_false_iff] at this
          exact this.1

/-- What is in a union is in one of the lists. -/
theorem mem_or_mem_of_mem_union {as bs : List β} {x : β} (h : x ∈ union as bs) : x ∈ as ∨ x ∈ bs := by
  obtain ⟨rest, hunion, hrest, -⟩ := exists_union_eq_append as bs
  rw [hunion] at h
  exact (List.mem_append.mp h).imp_right fun h => hrest.subset h

/-- A union holds what either list does, up to `==`. -/
theorem any_union [EquivBEq β] (as bs : List β) (j : β) :
    (union as bs).any (· == j) = (as.any (· == j) || bs.any (· == j)) := by
  induction bs generalizing as with
  | nil => exact (Bool.or_false _).symm
  | cons b bs ih =>
    rw [show union as (b :: bs) = union (if as.any (· == b) then as else as ++ [b]) bs from rfl,
      ih, List.any_cons]
    cases hb : as.any (· == b) with
    | false => simp [Bool.or_assoc]
    | true =>
      rw [if_pos rfl]
      cases hj : b == j with
      | false => rw [Bool.false_or]
      | true =>
        -- `b` is left out for an element of `as` that is the same, and so the same as `j`.
        obtain ⟨a, ha, hab⟩ := List.any_eq_true.mp hb
        have : as.any (· == j) = true := List.any_eq_true.mpr ⟨a, ha, BEq.trans hab hj⟩
        simp [this]

/-! ## Unions of automata -/

/-- `m` goes where `t` or `u` does, and has there the exits of `t`, then those of `u`
that are not among them. -/
structure Automaton.IsUnion (t u m : Automaton β) : Prop where
  reaches : ∀ w, (m.stateAt? w).isSome ↔ (t.stateAt? w).isSome ∨ (u.stateAt? w).isSome
  exits : ∀ w, m.exitsAt? w = Option.merge union (t.exitsAt? w) (u.exitsAt? w)
  /-- A value reaches what it does in either automaton. -/
  run : ∀ v j, (m.run v).any (· == j) = ((t.run v).any (· == j) || (u.run v).any (· == j))
  run_subset : ∀ v, m.run v ⊆ t.run v ++ u.run v
  /-- If neither reaches anything before the end of the value, what `t` does comes first. -/
  run_first : ∀ v, t.ExitsAtEndOf v → u.ExitsAtEndOf v →
    ∃ rest, m.run v = t.run v ++ rest ∧ rest.Sublist (u.run v) ∧
      ∀ b ∈ rest, (t.run v).any (· == b) = false

namespace Automaton

variable {t u m : Automaton β}

/-- As `exists_union_eq_append`, where either list may be missing. -/
theorem exists_merge_getD (x y : Option (List β)) :
    ∃ rest, (Option.merge union x y).getD [] = x.getD [] ++ rest ∧ rest.Sublist (y.getD []) ∧
      ∀ b ∈ rest, (x.getD []).any (· == b) = false := by
  cases x with
  | none =>
    refine ⟨y.getD [], ?_, List.Sublist.refl _, fun b _ => rfl⟩
    rw [Option.merge_none_left]
    rfl
  | some as =>
    cases y with
    | none => exact ⟨[], (List.append_nil as).symm, .slnil, fun _ h => by cases h⟩
    | some bs => exact exists_union_eq_append as bs

theorem any_merge_getD [EquivBEq β] (x y : Option (List β)) (j : β) :
    ((Option.merge union x y).getD []).any (· == j) =
      ((x.getD []).any (· == j) || (y.getD []).any (· == j)) := by
  cases x with
  | none =>
    rw [Option.merge_none_left]
    rfl
  | some as =>
    cases y with
    | none => exact (Bool.or_false _).symm
    | some bs => exact any_union as bs j

/-- The exits on each word determine the rest. -/
theorem IsUnion.of_exits [EquivBEq β]
    (h : ∀ w, m.exitsAt? w = Option.merge union (t.exitsAt? w) (u.exitsAt? w)) :
    IsUnion t u m where
  reaches := fun w => by
    have hw := congrArg Option.isSome (h w)
    simp only [exitsAt?, Option.isSome_map] at hw
    cases ht : t.stateAt? w <;> cases hu : u.stateAt? w <;>
      simp only [ht, hu, Option.map_none, Option.map_some] at hw <;> simp [hw]
  exits := h
  run := fun v j => by
    rw [Automaton.run, Automaton.run, Automaton.run]
    induction v ++ [terminator] using List.reverseRecOn with
    | nil => rfl
    | append_singleton w b ih =>
      have hw : (m.exitsAt (w ++ [b])).any (· == j) =
          ((t.exitsAt (w ++ [b])).any (· == j) || (u.exitsAt (w ++ [b])).any (· == j)) := by
        rw [exitsAt, h]
        exact any_merge_getD _ _ j
      simp only [exitsAlong_concat, List.any_append, ih, hw]
      ac_rfl
  run_subset := fun v => by
    rw [Automaton.run, Automaton.run, Automaton.run]
    induction v ++ [terminator] using List.reverseRecOn with
    | nil => exact List.Subset.refl _
    | append_singleton w b ih =>
      intro e he
      rw [exitsAlong_concat, List.mem_append] at he
      rcases he with he | he
      · rcases List.mem_append.mp (ih he) with he | he
        · exact List.mem_append_left _ (by rw [exitsAlong_concat]; exact List.mem_append_left _ he)
        · exact List.mem_append_right _ (by rw [exitsAlong_concat]; exact List.mem_append_left _ he)
      · obtain ⟨rest, hr, hs, -⟩ := exists_merge_getD (t.exitsAt? (w ++ [b])) (u.exitsAt? (w ++ [b]))
        rw [exitsAt, h, hr] at he
        rcases List.mem_append.mp he with he | he
        · exact List.mem_append_left _ (exitsAt_mem_exitsAlong List.prefix_rfl he)
        · exact List.mem_append_right _ (exitsAt_mem_exitsAlong List.prefix_rfl (hs.subset he))
  run_first := fun v ht hu => by
    have hm : m.ExitsAtEndOf v := fun w hw => by
      obtain ⟨rest, hr, hs, -⟩ := exists_merge_getD (t.exitsAt? w) (u.exitsAt? w)
      have ht := ht w hw
      have hu := hu w hw
      rw [exitsAt] at ht hu ⊢
      rw [hu] at hs
      rw [h, hr, ht, List.sublist_nil.mp hs, List.append_nil]
    rw [run_of_exitsAtEndOf hm, run_of_exitsAtEndOf ht, run_of_exitsAtEndOf hu, exitsAt, h]
    exact exists_merge_getD _ _

end Automaton

/-! ## Passes that earlier merges have left -/

/-- The states in a pass's memo. -/
def MergePass.merged (p : MergePass β) : Set (State β) := { m | ∃ k : Nat × Nat, p.memo[k]? = some m }

/-- The passes that merges lead to, each with a pool for the next merge: its states may
be any that were made before, merged ones included. -/
inductive PassHistory : Set (State β) → MergePass β → Prop where
  | start {S : Set (State β)} {next : Nat} : Pool S next → PassHistory S ⟨next, ∅⟩
  | grow {S S' : Set (State β)} {p : MergePass β} {next : Nat} :
      PassHistory S p → S ⊆ S' → Pool S' next → PassHistory S' ⟨next, p.memo⟩
  | merge {S : Set (State β)} {p : MergePass β} {t u : Automaton β} :
      PassHistory S p → t.WellFormed (· ∈ S) → u.WellFormed (· ∈ S) →
      PassHistory (S ∪ ((t.mergeWith u).run p).2.merged) ((t.mergeWith u).run p).2

variable {S : Set (State β)} {p : MergePass β} {t u : Automaton β}

/-- A merge adds to the pool what is then in the memo. -/
theorem PassGrows.pool_eq {S' : Set (State β)} {size : Nat} {p' : MergePass β}
    (h : PassGrows size S p S' p') : S' = S ∪ p'.merged := by
  refine Set.Subset.antisymm (fun s hs => h.origin s hs) ?_
  rintro s (hs | ⟨⟨l₁, l₂⟩, hs⟩)
  · exact h.pool hs
  · obtain ⟨_, _, _, _, he⟩ := h.sound.entry l₁ l₂ s hs
    exact he.merged

section

variable [ReflBEq β]

theorem SoundPass.mergeWith (hp : SoundPass S p) (ht : t.WellFormed (· ∈ S))
    (hu : u.WellFormed (· ∈ S)) :
    SoundPass (S ∪ ((t.mergeWith u).run p).2.merged) ((t.mergeWith u).run p).2 ∧
      ((t.mergeWith u).run p).1.WellFormed (· ∈ S ∪ ((t.mergeWith u).run p).2.merged) := by
  obtain ⟨S', hg, hw, -⟩ := mergeWith_ok hp ht hu
  rw [← hg.pool_eq]
  exact ⟨hg.sound, hw⟩

/-- Whatever was merged before, the memo's entries are the merges of their pairs. -/
theorem PassHistory.sound (h : PassHistory S p) : SoundPass S p := by
  induction h with
  | start hS => exact .start hS
  | grow _ hS hp ih => exact ih.grow hS hp
  | merge _ ht hu ih => exact (ih.mergeWith ht hu).1

end

/-- Whatever was merged before, the merge of two automata is their union. -/
theorem mergeWith_isUnion [EquivBEq β] (hp : PassHistory S p) (ht : t.WellFormed (· ∈ S))
    (hu : u.WellFormed (· ∈ S)) : Automaton.IsUnion t u ((t.mergeWith u).run p).1 := by
  obtain ⟨_, -, -, he⟩ := mergeWith_ok hp.sound ht hu
  exact .of_exits he

end

/-- The texts `ab` and `ac`, merged twice: the second merge finds the pair of states
behind `a` in the memo. -/
theorem mergeWith_isUnion_again :
    let ab := (Automaton.literal (Bytes.ofString "ab") 0).run 0
    let ac := (Automaton.literal (Bytes.ofString "ac") 1).run ab.2
    let first := (ab.1.mergeWith ac.1).run ⟨ac.2, ∅⟩
    let again := (ab.1.mergeWith ac.1).run first.2
    first.2.memo.isEmpty = false ∧ Automaton.IsUnion ab.1 ac.1 again.1 ∧
      (again.1.run (Bytes.ofString "ac")).any (· == 1) = true := by
  intro ab ac first again
  obtain ⟨S₁, -, -, hp₁, hab, -⟩ := makes_literal (Pool.empty 0) (Bytes.ofString "ab") 0
  obtain ⟨S₂, hS₂, -, hp₂, hac, -⟩ := makes_literal hp₁ (Bytes.ofString "ac") 1
  have hab := hab.mono fun _ hs => hS₂ hs
  have hfirst : PassHistory _ first.2 := (PassHistory.start hp₂).merge hab hac
  have hu := mergeWith_isUnion hfirst (hab.mono fun _ => .inl) (hac.mono fun _ => .inl)
  refine ⟨?_, hu, ?_⟩
  · have hmem : (2, 5) ∈ first.2.memo :=
      mem_memo_of_stateAt? (.start hp₂) hab hac (w := Bytes.ofString "a") rfl rfl (by decide)
    exact Std.HashMap.isEmpty_eq_false_iff_exists_mem.mpr ⟨_, hmem⟩
  · rw [hu.run]
    decide

end EventMatch
