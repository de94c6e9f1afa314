import EventMatch.Proofs.Numeral.Key
import EventMatch.Proofs.Pattern.Values

/-!
# Clauses as sets of keys

The intervals of a clause are ascending, and hold the keys that stand in all its
relations to the keys of its arguments (`NumericClause.inSome_intervals`). An exact
clause has intervals just if all its arguments have keys
(`NumericClause.exists_intervals_iff`).
-/

namespace EventMatch

/-- What an exact relation says of two elements of an order. -/
def Relation.Compares {α : Type} [LT α] [LE α] : Relation → α → α → Prop
  | less, a, b => a < b
  | greater, a, b => b < a
  | atMost, a, b => a ≤ b
  | atLeast, a, b => b ≤ a
  | equal, a, b => a = b
  | unequal, a, b => a ≠ b
  | near, _, _ => False

namespace KeyInterval

/-- Each interval ends before the next begins. -/
def Ascending (is : List KeyInterval) : Prop := is.Pairwise fun i j => i.hi < j.lo

theorem contains_iff {i : KeyInterval} {k : Nat} : i.contains k = true ↔ i.lo ≤ k ∧ k ≤ i.hi := by
  rw [contains, Bool.and_eq_true, decide_eq_true_iff, decide_eq_true_iff]

theorem inSome_nil {k : Nat} : ¬ InSome [] k := fun ⟨_, hi, _⟩ => List.not_mem_nil hi

theorem inSome_cons {i : KeyInterval} {is : List KeyInterval} {k : Nat} :
    InSome (i :: is) k ↔ (i.lo ≤ k ∧ k ≤ i.hi) ∨ InSome is k := by
  simp only [InSome, List.mem_cons, exists_eq_or_imp, contains_iff]

theorem inSome_append {is js : List KeyInterval} {k : Nat} :
    InSome (is ++ js) k ↔ InSome is k ∨ InSome js k := by
  simp only [InSome, List.mem_append, or_and_right, exists_or]

theorem lt_of_inSome {i : KeyInterval} {is : List KeyInterval} {k : Nat} (h : Ascending (i :: is))
    (hk : InSome is k) : i.hi < k := by
  obtain ⟨j, hj, hc⟩ := hk
  exact Nat.lt_of_lt_of_le ((List.pairwise_cons.mp h).1 j hj) (contains_iff.mp hc).1

/-- What two lists have in common begins within an interval of each. -/
theorem exists_of_mem_intersect {i : KeyInterval} : ∀ {as bs : List KeyInterval}, i ∈ intersect as bs →
    (∃ a ∈ as, a.lo ≤ i.lo) ∧ ∃ b ∈ bs, b.lo ≤ i.lo
  | [], bs, hi => by
    rw [intersect] at hi
    cases hi
  | a :: as, [], hi => by
    rw [intersect] at hi
    cases hi
  | a :: as, b :: bs, hi => by
    have hrest : i ∈ (if a.hi < b.hi then intersect as (b :: bs) else intersect (a :: as) bs) →
        (∃ c ∈ a :: as, c.lo ≤ i.lo) ∧ ∃ c ∈ b :: bs, c.lo ≤ i.lo := by
      intro hi
      split at hi
      · obtain ⟨⟨c, hc, hle⟩, hb⟩ := exists_of_mem_intersect hi
        exact ⟨⟨c, List.mem_cons_of_mem _ hc, hle⟩, hb⟩
      · obtain ⟨ha, c, hc, hle⟩ := exists_of_mem_intersect hi
        exact ⟨ha, c, List.mem_cons_of_mem _ hc, hle⟩
    rw [intersect] at hi
    split at hi
    · rcases List.mem_cons.mp hi with rfl | hi
      · exact ⟨⟨a, List.mem_cons_self, Nat.le_max_left _ _⟩, b, List.mem_cons_self, Nat.le_max_right _ _⟩
      · exact hrest hi
    · exact hrest hi
termination_by as bs => as.length + bs.length

theorem ascending_intersect : ∀ {as bs : List KeyInterval}, Ascending as → Ascending bs →
    Ascending (intersect as bs)
  | [], bs, _, _ => by
    rw [intersect]
    exact .nil
  | a :: as, [], _, _ => by
    rw [intersect]
    exact .nil
  | a :: as, b :: bs, ha, hb => by
    have hrest : Ascending (if a.hi < b.hi then intersect as (b :: bs) else intersect (a :: as) bs) ∧
        ∀ i ∈ (if a.hi < b.hi then intersect as (b :: bs) else intersect (a :: as) bs), min a.hi b.hi < i.lo := by
      split
      · refine ⟨ascending_intersect ha.tail hb, fun i hi => ?_⟩
        obtain ⟨⟨c, hc, hle⟩, -⟩ := exists_of_mem_intersect hi
        have := (List.pairwise_cons.mp ha).1 c hc
        omega
      · refine ⟨ascending_intersect ha hb.tail, fun i hi => ?_⟩
        obtain ⟨-, c, hc, hle⟩ := exists_of_mem_intersect hi
        have := (List.pairwise_cons.mp hb).1 c hc
        omega
    rw [intersect]
    split
    · exact List.pairwise_cons.mpr ⟨hrest.2, hrest.1⟩
    · exact hrest.1
termination_by as bs => as.length + bs.length

theorem inSome_intersect {k : Nat} : ∀ {as bs : List KeyInterval}, Ascending as → Ascending bs →
    (InSome (intersect as bs) k ↔ InSome as k ∧ InSome bs k)
  | [], bs, _, _ => by
    rw [intersect]
    exact iff_of_false inSome_nil fun h => inSome_nil h.1
  | a :: as, [], _, _ => by
    rw [intersect]
    exact iff_of_false inSome_nil fun h => inSome_nil h.2
  | a :: as, b :: bs, ha, hb => by
    have ha' : Ascending as := ha.tail
    have hb' : Ascending bs := hb.tail
    -- The interval that ends first meets nothing after the other's first interval.
    have hrest : InSome (if a.hi < b.hi then intersect as (b :: bs) else intersect (a :: as) bs) k ↔
        min a.hi b.hi < k ∧ InSome (a :: as) k ∧ InSome (b :: bs) k := by
      split
      · rw [inSome_intersect ha' hb, inSome_cons (i := a)]
        constructor
        · rintro ⟨h₁, h₂⟩
          have := lt_of_inSome ha h₁
          exact ⟨by omega, .inr h₁, h₂⟩
        · rintro ⟨hlt, h₁ | h₁, h₂⟩
          · omega
          · exact ⟨h₁, h₂⟩
      · rw [inSome_intersect ha hb', inSome_cons (i := b)]
        constructor
        · rintro ⟨h₁, h₂⟩
          have := lt_of_inSome hb h₂
          exact ⟨by omega, h₁, .inr h₂⟩
        · rintro ⟨hlt, h₁, h₂ | h₂⟩
          · omega
          · exact ⟨h₁, h₂⟩
    have hfirst : k ≤ min a.hi b.hi → (InSome (a :: as) k ∧ InSome (b :: bs) k ↔ max a.lo b.lo ≤ k) := by
      intro hle
      rw [inSome_cons, inSome_cons]
      have h₁ : ¬ InSome as k := fun h => absurd (lt_of_inSome ha h) (by omega)
      have h₂ : ¬ InSome bs k := fun h => absurd (lt_of_inSome hb h) (by omega)
      rw [or_iff_left h₁, or_iff_left h₂]
      omega
    rw [intersect]
    rcases Nat.lt_or_ge (min a.hi b.hi) k with hlt | hle
    · split
      · have hout : ¬ (max a.lo b.lo ≤ k ∧ k ≤ min a.hi b.hi) := by omega
        rw [inSome_cons, or_iff_right hout, hrest]
        exact and_iff_right hlt
      · rw [hrest]
        exact and_iff_right hlt
    · rw [hfirst hle]
      split
      · have hout : ¬ (min a.hi b.hi < k ∧ InSome (a :: as) k ∧ InSome (b :: bs) k) := fun h => by omega
        rw [inSome_cons, hrest, or_iff_left hout]
        exact and_iff_left hle
      · rw [hrest]
        exact iff_of_false (by omega) (by omega)
termination_by as bs => as.length + bs.length

end KeyInterval

open KeyInterval

namespace NumericConstraint

/-- The argument has a key, to which another key stands in the relation. -/
def KeyHolds (c : NumericConstraint) (k : Nat) : Prop :=
  c.numeral.HasKey ∧ c.relation.Compares k c.numeral.keyOf

/-- An exact relation to a number that has a key. -/
structure Keyed (c : NumericConstraint) : Prop where
  exact : c.relation ≠ .near
  hasKey : c.numeral.HasKey

theorem inSome_below {a k : Nat} : InSome (below a) k ↔ k < a := by
  unfold below
  split
  · rw [inSome_cons, or_iff_left inSome_nil]
    dsimp only
    omega
  · exact iff_of_false inSome_nil (by omega)

theorem inSome_above {a k : Nat} (hk : k ≤ Numeral.maxKey) : InSome (above a) k ↔ a < k := by
  unfold above
  split
  · rw [inSome_cons, or_iff_left inSome_nil]
    dsimp only
    omega
  · exact iff_of_false inSome_nil (by omega)

theorem ascending_below_above (a : Nat) : Ascending (below a ++ above a) := by
  unfold below above
  split <;> split <;>
    simp only [Ascending, List.nil_append, List.append_nil, List.singleton_append, List.pairwise_cons,
      List.mem_singleton, forall_eq, List.not_mem_nil, false_imp_iff, implies_true, List.Pairwise.nil, and_true]
  omega

theorem intervals_eq_ok {c : NumericConstraint} {is : List KeyInterval} (h : c.intervals = .ok is) :
    c.Keyed ∧ Ascending is ∧ ∀ k ≤ Numeral.maxKey, InSome is k ↔ c.KeyHolds k := by
  obtain ⟨a, ha, h⟩ := Except.bind_eq_ok.mp h
  obtain ⟨hkey, rfl⟩ := Numeral.key_spelling_eq_ok.mp ha
  have hone : ∀ i : KeyInterval, Ascending [i] := fun i => List.pairwise_singleton _ _
  have hasc := ascending_below_above c.numeral.keyOf
  have hle := hkey.keyOf_le_maxKey
  simp only [KeyHolds, hkey, true_and]
  split at h <;> rename_i hr <;> simp only [hr] <;> cases h
  case h_1 => exact ⟨⟨by rw [hr]; decide, hkey⟩, hasc.sublist (List.sublist_append_left _ _), fun k _ => inSome_below⟩
  case h_2 =>
    refine ⟨⟨by rw [hr]; decide, hkey⟩, hasc.sublist (List.sublist_append_right _ _), fun k hk => ?_⟩
    exact inSome_above hk
  case h_6 =>
    refine ⟨⟨by rw [hr]; decide, hkey⟩, hasc, fun k hk => ?_⟩
    rw [inSome_append, inSome_below, inSome_above hk]
    exact Nat.lt_or_gt.symm
  all_goals
    refine ⟨⟨by rw [hr]; decide, hkey⟩, hone _, fun k hk => ?_⟩
    rw [inSome_cons, or_iff_left inSome_nil]
    dsimp only [Relation.Compares]
    omega

theorem KeyHolds.keyed {c : NumericConstraint} {k : Nat} (h : c.KeyHolds k) : c.Keyed := by
  refine ⟨fun hr => ?_, h.1⟩
  have := h.2
  rw [hr] at this
  exact this

theorem exists_intervals {c : NumericConstraint} (h : c.Keyed) : ∃ is, c.intervals = .ok is := by
  obtain ⟨hne, hkey⟩ := h
  rw [intervals, Numeral.key_spelling_of_hasKey hkey]
  cases hr : c.relation with
  | near => exact absurd hr hne
  | less | greater | atMost | atLeast | equal | unequal => exact ⟨_, rfl⟩

end NumericConstraint

namespace NumericClause

/-- The arguments have keys, to which another key stands in the relations. -/
def KeyHolds (c : NumericClause) (k : Nat) : Prop := ∀ t ∈ c.constraints, t.KeyHolds k

theorem isApproximate_eq_false {c : NumericClause} :
    c.isApproximate = false ↔ ∀ t ∈ c.constraints, t.relation ≠ .near := by
  simp only [isApproximate, List.any_eq_false, beq_iff_eq]

theorem inSome_of_foldlM : ∀ {cs : List NumericConstraint} {acc is : List KeyInterval}, Ascending acc →
    cs.foldlM (fun acc k => k.intervals.map (KeyInterval.intersect acc)) acc = Except.ok is →
    (∀ c ∈ cs, c.Keyed) ∧
      ∀ k ≤ Numeral.maxKey, InSome is k ↔ InSome acc k ∧ ∀ c ∈ cs, c.KeyHolds k
  | [], acc, is, hacc, h => by
    cases h
    exact ⟨by simp, fun k _ => by simp⟩
  | c :: cs, acc, is, hacc, h => by
    rw [List.foldlM_cons] at h
    obtain ⟨_, hmap, h⟩ := Except.bind_eq_ok.mp h
    obtain ⟨ks, hks, rfl⟩ := Except.map_eq_ok.mp hmap
    obtain ⟨hkeyed, hasc, hin⟩ := NumericConstraint.intervals_eq_ok hks
    obtain ⟨hrest, hcs⟩ := inSome_of_foldlM (ascending_intersect hacc hasc) h
    refine ⟨List.forall_mem_cons.mpr ⟨hkeyed, hrest⟩, fun k hk => ?_⟩
    rw [hcs k hk, inSome_intersect hacc hasc, hin k hk, List.forall_mem_cons, and_assoc]

/-- The intervals of a clause hold the keys that stand in all its relations. -/
theorem inSome_intervals {c : NumericClause} {is : List KeyInterval} (h : c.intervals = .ok is) {k : Nat}
    (hk : k ≤ Numeral.maxKey) : InSome is k ↔ c.KeyHolds k := by
  have hall : InSome [KeyInterval.all] k := inSome_cons.mpr (.inl ⟨Nat.zero_le k, hk⟩)
  obtain ⟨-, hin⟩ := inSome_of_foldlM (List.pairwise_singleton _ _) h
  rw [hin k hk, and_iff_right hall]
  rfl

theorem exists_of_foldlM : ∀ {cs : List NumericConstraint} {acc : List KeyInterval}, (∀ c ∈ cs, c.Keyed) →
    ∃ is, cs.foldlM (fun acc k => k.intervals.map (KeyInterval.intersect acc)) acc = Except.ok is
  | [], acc, _ => ⟨acc, rfl⟩
  | c :: cs, acc, h => by
    obtain ⟨hc, hcs⟩ := List.forall_mem_cons.mp h
    obtain ⟨ks, hks⟩ := NumericConstraint.exists_intervals hc
    rw [List.foldlM_cons, hks]
    exact exists_of_foldlM hcs

theorem ascending_of_foldlM : ∀ {cs : List NumericConstraint} {acc is : List KeyInterval}, Ascending acc →
    cs.foldlM (fun acc k => k.intervals.map (KeyInterval.intersect acc)) acc = Except.ok is → Ascending is
  | [], _, _, hacc, h => Except.ok.inj h ▸ hacc
  | c :: cs, acc, is, hacc, h => by
    rw [List.foldlM_cons] at h
    obtain ⟨_, hmap, h⟩ := Except.bind_eq_ok.mp h
    obtain ⟨ks, hks, rfl⟩ := Except.map_eq_ok.mp hmap
    exact ascending_of_foldlM (ascending_intersect hacc (NumericConstraint.intervals_eq_ok hks).2.1) h

theorem ascending_intervals {c : NumericClause} {is : List KeyInterval} (h : c.intervals = .ok is) :
    Ascending is := ascending_of_foldlM (List.pairwise_singleton _ _) h

/-- A clause is a set of keys if all its relations are exact, and all its arguments have keys. -/
theorem exists_intervals_iff {c : NumericClause} : (∃ is, c.intervals = .ok is) ↔ ∀ t ∈ c.constraints, t.Keyed :=
  ⟨fun ⟨_, h⟩ => (inSome_of_foldlM (List.pairwise_singleton _ _) h).1, exists_of_foldlM⟩

end NumericClause

end EventMatch
