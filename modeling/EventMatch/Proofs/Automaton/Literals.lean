import EventMatch.Proofs.Automaton.History
import Mathlib.Data.List.Basic

/-!
# Merged literals

The automata of several values, merged one after the other, have at each word the exits of
the items whose value and a terminator are the word, in order and each once
(`ExitsOf.merge`, `exitsOf_mergeLiterals`). No item is left out because its value is the beginning
of another, holds the terminator or stands twice. A lookup collects these exits along the value
(`exitsAlong_eq_flatMap`), so it can be read off the list of items (`run_mergeLiterals`).
-/

namespace EventMatch

variable {β : Type}

namespace Automaton

/-! ## Exits on the way -/

/-- A lookup meets the exits of each beginning of the value, the shortest first. -/
theorem exitsAlong_eq_flatMap (t : Automaton β) (w : Bytes) :
    t.exitsAlong w = (List.range w.length).flatMap fun k => t.exitsAt (w.take (k + 1)) := by
  induction w using List.reverseRecOn with
  | nil => rfl
  | append_singleton w b ih =>
    have htake : ∀ k ∈ List.range w.length, t.exitsAt ((w ++ [b]).take (k + 1)) = t.exitsAt (w.take (k + 1)) :=
      fun k hk => by rw [List.take_append_of_le_length (List.mem_range.mp hk)]
    rw [exitsAlong_concat, ih, List.length_append, List.length_singleton, List.range_succ, List.flatMap_append,
      List.flatMap_congr htake, List.flatMap_singleton, List.take_of_length_le (by simp)]

end Automaton

section

variable [BEq β]

/-- A union is the first list, then what the second has besides, each once. -/
theorem union_eq_append_eraseDups [PartialEquivBEq β] (as bs : List β) :
    union as bs = as ++ (bs.filter fun b => !as.any (· == b)).eraseDups := by
  induction bs generalizing as with
  | nil => exact (List.append_nil as).symm
  | cons b bs ih =>
    rw [show union as (b :: bs) = union (if as.any (· == b) then as else as ++ [b]) bs from rfl, ih]
    cases hb : as.any (· == b) with
    | true => simp [hb]
    | false =>
      have hfilter : (bs.filter fun c => !(as ++ [b]).any (· == c)) =
          (bs.filter fun c => !as.any (· == c)).filter fun c => !c == b := by
        rw [List.filter_filter]
        refine List.filter_congr fun c _ => ?_
        rw [List.any_append, List.any_cons, List.any_nil, Bool.or_false, Bool.not_or, Bool.and_comm, BEq.comm]
      have hcons : ((b :: bs).filter fun c => !as.any (· == c)) = b :: bs.filter fun c => !as.any (· == c) :=
        List.filter_cons_of_pos (by rw [hb]; rfl)
      rw [if_neg Bool.false_ne_true, hfilter, hcons, List.eraseDups_cons, List.append_assoc, List.singleton_append]

theorem union_nil_left [PartialEquivBEq β] (bs : List β) : union [] bs = bs.eraseDups := by
  simp [union_eq_append_eraseDups]

/-- The union of a list without repetitions with another is the whole list without repetitions. -/
theorem union_eraseDups [PartialEquivBEq β] (as bs : List β) : union as.eraseDups bs = (as ++ bs).eraseDups := by
  rw [← union_nil_left, ← union_nil_left]
  exact List.foldl_append.symm

end

namespace Automaton

variable {items : List (Bytes × β)}

/-! ## Items at a word -/

/-- The exits of the items whose value and a terminator are the word. -/
def itemsAt (items : List (Bytes × β)) (w : Bytes) : List β :=
  (items.filter fun i => i.1 ++ [terminator] = w).map Prod.snd

theorem itemsAt_append (items later : List (Bytes × β)) (w : Bytes) :
    itemsAt (items ++ later) w = itemsAt items w ++ itemsAt later w := by
  simp [itemsAt]

/-- Where nothing ends in a terminator there are no items. -/
theorem itemsAt_of_not_mem {w : Bytes} (h : terminator ∉ w) : itemsAt items w = [] := by
  refine List.map_eq_nil_iff.mpr (List.filter_eq_nil_iff.mpr fun i _ hi => h ?_)
  rw [← of_decide_eq_true hi]
  exact List.mem_append_right _ (List.mem_singleton_self _)

theorem itemsAt_concat (items : List (Bytes × β)) (v : Bytes) :
    itemsAt items (v ++ [terminator]) = (items.filter fun i => i.1 = v).map Prod.snd := by
  simp only [itemsAt, List.append_cancel_right_eq]

theorem itemsAt_singleton_self (i : Bytes × β) : itemsAt [i] (i.1 ++ [terminator]) = [i.2] := by
  simp [itemsAt]

theorem itemsAt_singleton_of_ne {i : Bytes × β} {w : Bytes} (h : ¬ w = i.1 ++ [terminator]) : itemsAt [i] w = [] := by
  simp [itemsAt, Ne.symm h]

variable [BEq β]

/-- The exits at each word are those of the items at the word, each once. -/
def ExitsOf (t : Automaton β) (items : List (Bytes × β)) : Prop := ∀ w, t.exitsAt w = (itemsAt items w).eraseDups

/-! ## Merges -/

/-- The automaton of an item, merged behind others. Without a shared memo no pair counts as
merged before. -/
def addLiteral (shared : Bool) (t : Automaton β) (i : Bytes × β) : StateM (MergePass β) (Automaton β) := fun p =>
  let one := (literal i.1 i.2).run p.next
  (t.mergeWith one.1).run ⟨one.2, if shared then p.memo else ∅⟩

/-- The automata of some items, merged one after the other. -/
def mergeLiterals (shared : Bool) : List (Bytes × β) → StateM (MergePass β) (Automaton β)
  | [] => return .empty
  | i :: items => fun p =>
    let first := (literal i.1 i.2).run p.next
    (items.foldlM (addLiteral shared) first.1).run { p with next := first.2 }

variable [EquivBEq β] {t u m : Automaton β} {i : Bytes × β} {S : Set (State β)} {p : MergePass β}

/-- One more item has its exit behind those of the items at its word, unless it is among them. -/
theorem ExitsOf.merge (ht : t.ExitsOf items) (hu : u.Recognizes (fun w => w = i.1 ++ [terminator]) i.2)
    (hm : ∀ w, m.exitsAt? w = Option.merge union (t.exitsAt? w) (u.exitsAt? w)) : m.ExitsOf (items ++ [i]) := by
  intro w
  rw [itemsAt_append, ← union_eraseDups, ← ht w, exitsAt, exitsAt, hm]
  by_cases hw : w = i.1 ++ [terminator]
  · rw [hu.accept hw, hw, itemsAt_singleton_self]
    cases t.exitsAt? (i.1 ++ [terminator]) <;> rfl
  · rw [itemsAt_singleton_of_ne hw]
    rcases hu.eq_none_or hw with e | e <;> rw [e] <;> cases t.exitsAt? w <;> rfl

omit [EquivBEq β] in
theorem exitsOf_empty : ExitsOf (RangeTable.empty : Automaton β) [] := fun w => by
  rw [exitsAt, exitsAt?_empty]
  rfl

theorem exitsOf_literal (hu : u.Recognizes (fun w => w = i.1 ++ [terminator]) i.2) : u.ExitsOf [i] :=
  exitsOf_empty.merge hu fun w => by rw [exitsAt?_empty, Option.merge_none_left]

/-- What is known of an automaton and the pass that has made it. -/
structure TrieOf (S : Set (State β)) (r : Automaton β × MergePass β) (items : List (Bytes × β)) : Prop where
  sound : SoundPass S r.2
  wellFormed : r.1.WellFormed (· ∈ S)
  exits : r.1.ExitsOf items

theorem TrieOf.addLiteral (h : TrieOf S (t, p) items) (shared : Bool) (i : Bytes × β) :
    ∃ S', TrieOf S' ((addLiteral shared t i).run p) (items ++ [i]) := by
  obtain ⟨S₁, hS₁, -, hp₁, hw₁, hr₁⟩ := makes_literal h.sound.pool i.1 i.2
  have hpass : SoundPass S₁ ⟨((literal i.1 i.2).run p.next).2, if shared then p.memo else ∅⟩ := by
    cases shared with
    | true => exact h.sound.grow hS₁ hp₁
    | false => exact .start hp₁
  obtain ⟨S₂, hg, hw₂, he⟩ := mergeWith_ok hpass (h.wellFormed.mono fun _ hs => hS₁ hs) hw₁
  exact ⟨S₂, hg.sound, hw₂, h.exits.merge hr₁ he⟩

theorem TrieOf.foldlM (shared : Bool) (later : List (Bytes × β)) {r : Automaton β × MergePass β} (h : TrieOf S r items) :
    ∃ S', TrieOf S' ((later.foldlM (Automaton.addLiteral shared) r.1).run r.2) (items ++ later) := by
  induction later generalizing S r items with
  | nil => exact ⟨S, (List.append_nil items).symm ▸ h⟩
  | cons i later ih =>
    obtain ⟨S₁, h₁⟩ := h.addLiteral shared i
    obtain ⟨S₂, h₂⟩ := ih h₁
    rw [List.append_assoc] at h₂
    exact ⟨S₂, h₂⟩

/-- Merged literals have the exits of all items. -/
theorem exitsOf_mergeLiterals (hp : SoundPass S p) (shared : Bool) :
    ∀ items : List (Bytes × β), ((mergeLiterals shared items).run p).1.ExitsOf items
  | [] => exitsOf_empty
  | i :: items => by
    obtain ⟨S₁, hS₁, -, hp₁, hw₁, hr₁⟩ := makes_literal hp.pool i.1 i.2
    have hfirst : TrieOf S₁ (_, { p with next := _ }) [i] := ⟨hp.grow hS₁ hp₁, hw₁, exitsOf_literal hr₁⟩
    obtain ⟨S₂, h⟩ := hfirst.foldlM shared items
    exact h.exits

/-! ## Lookups -/

/-- A value with the terminator behind it reaches in merged literals, for each of its beginnings and
the shortest first, the exits of the items whose value and terminator are this beginning, in order
and each once. If it does not hold the terminator, these are the items of just this value. -/
theorem run_mergeLiterals (hp : PassHistory S p) (shared : Bool) (items : List (Bytes × β)) (v : Bytes) :
    let t := ((mergeLiterals shared items).run p).1
    t.run v = (List.range (v.length + 1)).flatMap (fun k =>
        ((items.filter fun i => i.1.length = k ∧ i.1 ++ [terminator] = (v ++ [terminator]).take (k + 1)).map
          Prod.snd).eraseDups) ∧
      (terminator ∉ v → t.run v = ((items.filter fun i => i.1 = v).map Prod.snd).eraseDups) := by
  intro t
  have hexits : t.ExitsOf items := exitsOf_mergeLiterals hp.sound shared items
  have hrun : t.run v = (List.range (v.length + 1)).flatMap fun k =>
      (itemsAt items ((v ++ [terminator]).take (k + 1))).eraseDups := by
    rw [run, exitsAlong_eq_flatMap, List.length_append, List.length_singleton]
    exact List.flatMap_congr fun k _ => hexits _
  refine ⟨hrun.trans (List.flatMap_congr fun k hk => ?_), fun hv => ?_⟩
  · -- A beginning of this length is the word of items of one length only.
    refine congrArg (fun l => (List.map Prod.snd l).eraseDups) (List.filter_congr fun i _ => ?_)
    refine decide_eq_decide.mpr (iff_and_self.mpr fun hi => ?_)
    have hlength := congrArg List.length hi
    have hle := List.mem_range.mp hk
    simp only [List.length_append, List.length_singleton, List.length_take] at hlength
    omega
  · have hbefore : ∀ k ∈ List.range v.length, (itemsAt items ((v ++ [terminator]).take (k + 1))).eraseDups = [] :=
      fun k hk => by
        rw [List.take_append_of_le_length (List.mem_range.mp hk), itemsAt_of_not_mem fun h => hv (List.mem_of_mem_take h)]
        rfl
    have hwhole : (v ++ [terminator]).take (v.length + 1) = v ++ [terminator] := List.take_of_length_le (by simp)
    rw [hrun, List.range_succ, List.flatMap_append, List.flatMap_eq_nil_iff.mpr hbefore, List.nil_append,
      List.flatMap_singleton, hwhole, itemsAt_concat]

/-- Values that are empty, equal, beginnings of each other and hold the terminator. -/
theorem run_mergeLiterals_beginnings :
    let a : Bytes := [0x61]
    let items : List (Bytes × Nat) := [(a, 1), (a ++ [terminator, 0x62], 2), ([], 3), (a, 4), (a, 1)]
    let t := ((mergeLiterals true items).run ⟨0, ∅⟩).1
    t.run (a ++ [terminator, 0x62]) = [1, 4, 2] ∧ t.run a = [1, 4] ∧ t.run [] = [3] := by
  intro a items t
  have h := run_mergeLiterals (.start (.empty 0)) true items
  exact ⟨(h _).1, (h a).2 (by decide), (h []).2 (by decide)⟩

end Automaton

end EventMatch
