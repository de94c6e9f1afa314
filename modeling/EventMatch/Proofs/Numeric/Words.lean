import EventMatch.Proofs.Numeric.Intervals

/-!
# Clauses in 64-bit words

Keys fit in words of 64 bits. The intervals of a clause can be computed in words, whose
sums and differences are checked (`NumericClause.wordIntervals`), and the outcome is the
same (`NumericClause.map_wordIntervals`): none is out of the words' range. An exact
clause whose arguments have keys has an ascending list of intervals, which hold the keys
that stand in all its relations and are none only if there is no such key
(`NumericClause.intervals_exact`).
-/

namespace EventMatch

/-! ## Words -/

/-- The difference of two words, if it is not negative. -/
def checkedSub? (a b : UInt64) : Option UInt64 := if b ≤ a then some (a - b) else none

/-- The sum of two words, if it is a word. A sum that wraps is below both. -/
def checkedAdd? (a b : UInt64) : Option UInt64 := if a ≤ a + b then some (a + b) else none

theorem map_checkedSub? (a b : UInt64) :
    (checkedSub? a b).map UInt64.toNat = if b.toNat ≤ a.toNat then some (a.toNat - b.toNat) else none := by
  rw [checkedSub?]
  by_cases h : b ≤ a
  · rw [if_pos h, if_pos (UInt64.le_iff_toNat_le.mp h), Option.map_some, UInt64.toNat_sub_of_le _ _ h]
  · rw [if_neg h, if_neg (mt UInt64.le_iff_toNat_le.mpr h), Option.map_none]

theorem map_checkedAdd? (a b : UInt64) :
    (checkedAdd? a b).map UInt64.toNat =
      if a.toNat + b.toNat < 2 ^ 64 then some (a.toNat + b.toNat) else none := by
  have hsum : (a + b).toNat = (a.toNat + b.toNat) % 2 ^ 64 := UInt64.toNat_add a b
  have ha := UInt64.toNat_lt a
  have hb := UInt64.toNat_lt b
  have hle : a ≤ a + b ↔ a.toNat + b.toNat < 2 ^ 64 := by
    rw [UInt64.le_iff_toNat_le]
    omega
  rw [checkedAdd?]
  by_cases h : a.toNat + b.toNat < 2 ^ 64
  · rw [if_pos h, if_pos (hle.mpr h), Option.map_some, hsum, Nat.mod_eq_of_lt h]
  · rw [if_neg h, if_neg (mt hle.mp h), Option.map_none]

/-- An interval with words as bounds. -/
structure WordInterval where
  lo : UInt64
  hi : UInt64
deriving DecidableEq, Repr

namespace WordInterval

/-- The keys that the bounds stand for. -/
def toKeys (i : WordInterval) : KeyInterval := ⟨i.lo.toNat, i.hi.toNat⟩

/-- The largest key. -/
def maxWord : UInt64 := 9999999999999999999

theorem toNat_maxWord : maxWord.toNat = Numeral.maxKey := rfl

/-- The interval of all keys. -/
def all : WordInterval := ⟨0, maxWord⟩

/-- The keys below one. -/
def below (k : UInt64) : List WordInterval := ((checkedSub? k 1).map fun hi => ⟨0, hi⟩).toList

/-- The keys above one. -/
def above (k : UInt64) : List WordInterval :=
  (((checkedAdd? k 1).filter (· ≤ maxWord)).map fun lo => ⟨lo, maxWord⟩).toList

/-- The keys in both of two sorted lists of disjoint intervals. -/
def intersect : List WordInterval → List WordInterval → List WordInterval
  | [], _ => []
  | _ :: _, [] => []
  | a :: as, b :: bs =>
    let rest := if a.hi < b.hi then intersect as (b :: bs) else intersect (a :: as) bs
    if max a.lo b.lo ≤ min a.hi b.hi then ⟨max a.lo b.lo, min a.hi b.hi⟩ :: rest else rest
termination_by as bs => as.length + bs.length

theorem map_below (k : UInt64) : (below k).map toKeys = KeyInterval.below k.toNat := by
  have h : (below k).map toKeys =
      (((checkedSub? k 1).map UInt64.toNat).map fun hi => KeyInterval.mk 0 hi).toList := by
    rw [below]
    cases checkedSub? k 1 <;> rfl
  have hone : (1 : UInt64).toNat = 1 := rfl
  rw [h, map_checkedSub?, KeyInterval.below, hone]
  by_cases hk : 0 < k.toNat
  · rw [if_pos hk, if_pos (show 1 ≤ k.toNat from hk)]
    rfl
  · rw [if_neg hk, if_neg (show ¬ 1 ≤ k.toNat from hk)]
    rfl

theorem map_above (k : UInt64) : (above k).map toKeys = KeyInterval.above k.toNat := by
  have h : (above k).map toKeys = ((((checkedAdd? k 1).map UInt64.toNat).filter
      (· ≤ Numeral.maxKey)).map fun lo => KeyInterval.mk lo Numeral.maxKey).toList := by
    rw [above]
    cases checkedAdd? k 1 with
    | none => rfl
    | some lo =>
      simp only [Option.filter, Option.map_some, UInt64.le_iff_toNat_le, toNat_maxWord]
      split <;> rfl
  have hone : (1 : UInt64).toNat = 1 := rfl
  rw [h, map_checkedAdd?, KeyInterval.above, hone]
  by_cases hk : k.toNat < Numeral.maxKey
  · have hle : k.toNat + 1 ≤ Numeral.maxKey := hk
    have hlt : k.toNat + 1 < 2 ^ 64 := Nat.lt_of_le_of_lt hle (by decide)
    rw [if_pos hk, if_pos hlt, Option.filter_some, if_pos (decide_eq_true hle)]
    rfl
  · have hnle : ¬ k.toNat + 1 ≤ Numeral.maxKey := hk
    rw [if_neg hk]
    split
    · rw [Option.filter_some, if_neg (by rwa [decide_eq_true_iff])]
      rfl
    · rfl

theorem map_intersect : ∀ as bs : List WordInterval,
    (intersect as bs).map toKeys = KeyInterval.intersect (as.map toKeys) (bs.map toKeys)
  | [], _ => by
    rw [intersect, List.map_nil, KeyInterval.intersect]
  | _ :: _, [] => by
    rw [intersect, List.map_nil, List.map_cons, KeyInterval.intersect]
  | a :: as, b :: bs => by
    have hlt : a.hi < b.hi ↔ a.toKeys.hi < b.toKeys.hi := UInt64.lt_iff_toNat_lt
    have hrest : (if a.hi < b.hi then intersect as (b :: bs) else intersect (a :: as) bs).map toKeys =
        if a.toKeys.hi < b.toKeys.hi then KeyInterval.intersect (as.map toKeys) ((b :: bs).map toKeys)
        else KeyInterval.intersect ((a :: as).map toKeys) (bs.map toKeys) := by
      by_cases h : a.hi < b.hi
      · rw [if_pos h, if_pos (hlt.mp h), map_intersect as (b :: bs)]
      · rw [if_neg h, if_neg (mt hlt.mpr h), map_intersect (a :: as) bs]
    have hcommon : toKeys ⟨max a.lo b.lo, min a.hi b.hi⟩ =
        ⟨max a.toKeys.lo b.toKeys.lo, min a.toKeys.hi b.toKeys.hi⟩ := by
      simp only [toKeys, UInt64.toNat_max, UInt64.toNat_min]
    have hle : max a.lo b.lo ≤ min a.hi b.hi ↔
        max a.toKeys.lo b.toKeys.lo ≤ min a.toKeys.hi b.toKeys.hi := by
      rw [UInt64.le_iff_toNat_le, UInt64.toNat_max, UInt64.toNat_min]
      rfl
    rw [intersect, List.map_cons, List.map_cons, KeyInterval.intersect]
    by_cases h : max a.lo b.lo ≤ min a.hi b.hi
    · rw [if_pos h, if_pos (hle.mp h), List.map_cons, hcommon, hrest]
      rfl
    · rw [if_neg h, if_neg (mt hle.mpr h), hrest]
      rfl
termination_by as bs => as.length + bs.length

end WordInterval

open WordInterval

/-! ## Clauses -/

namespace NumericConstraint

/-- As `intervals`, in words. -/
def wordIntervals (c : NumericConstraint) : Except MatchError (List WordInterval) := do
  let k := UInt64.ofNat (← Numeral.key c.numeral.spelling)
  match c.relation with
  | .less => .ok (below k)
  | .greater => .ok (above k)
  | .atMost => .ok [⟨0, k⟩]
  | .atLeast => .ok [⟨k, maxWord⟩]
  | .equal => .ok [⟨k, k⟩]
  | .unequal => .ok (below k ++ above k)
  | .near => .error (.pattern .approximate)

theorem map_wordIntervals (c : NumericConstraint) :
    c.wordIntervals.map (·.map toKeys) = c.intervals := by
  rw [wordIntervals, intervals]
  cases hk : Numeral.key c.numeral.spelling with
  | error e => rfl
  | ok k =>
    have hle : k ≤ Numeral.maxKey := by
      obtain ⟨hkey, rfl⟩ := Numeral.key_spelling_eq_ok.mp hk
      exact hkey.keyOf_le_maxKey
    have hword : (UInt64.ofNat k).toNat = k :=
      UInt64.toNat_ofNat_of_lt' (Nat.lt_of_le_of_lt hle (by decide))
    have hbelow := map_below (UInt64.ofNat k)
    have habove := map_above (UInt64.ofNat k)
    rw [hword] at hbelow habove
    cases hr : c.relation <;>
      simp [bind, Except.bind, Except.map, hbelow, habove, hword, toKeys, toNat_maxWord]

/-- An argument has a key to which another one stands in the relation. -/
theorem keyHolds_iff {c : NumericConstraint} {k : Nat} :
    c.KeyHolds k ↔ ∃ a, Numeral.key c.numeral.spelling = .ok a ∧ c.relation.Compares k a := by
  simp only [Numeral.key_spelling_eq_ok, and_assoc, exists_and_left, exists_eq_left, KeyHolds]

end NumericConstraint

namespace NumericClause

/-- As `intervals`, in words. -/
def wordIntervals (c : NumericClause) : Except MatchError (List WordInterval) :=
  c.constraints.foldlM (fun acc k => k.wordIntervals.map (WordInterval.intersect acc)) [WordInterval.all]

theorem map_foldlM_wordIntervals : ∀ (cs : List NumericConstraint) (acc : List WordInterval),
    (cs.foldlM (fun acc (k : NumericConstraint) => k.wordIntervals.map (WordInterval.intersect acc)) acc).map (·.map toKeys) =
      cs.foldlM (fun acc k => k.intervals.map (KeyInterval.intersect acc)) (acc.map toKeys)
  | [], acc => rfl
  | c :: cs, acc => by
    rw [List.foldlM_cons, List.foldlM_cons, ← c.map_wordIntervals]
    cases c.wordIntervals with
    | error e => rfl
    | ok ws =>
      have ih := map_foldlM_wordIntervals cs (WordInterval.intersect acc ws)
      rw [map_intersect] at ih
      exact ih

/-- In words a clause has the same intervals, or the same error. -/
theorem map_wordIntervals (c : NumericClause) : c.wordIntervals.map (·.map toKeys) = c.intervals :=
  map_foldlM_wordIntervals c.constraints [WordInterval.all]

/-- An exact clause whose arguments have keys has intervals. Each ends before the next
begins, they hold the keys that stand in all relations to the arguments' keys, there are
none of them only if there is no such key, and they can be computed in words. -/
theorem intervals_exact (c : NumericClause) (hexact : c.isApproximate = false)
    (hkeys : ∀ t ∈ c.constraints, ∃ a, Numeral.key t.numeral.spelling = .ok a) :
    ∃ is, c.intervals = .ok is ∧ KeyInterval.Ascending is ∧
      (∀ i ∈ is, i.lo ≤ i.hi ∧ i.hi ≤ Numeral.maxKey) ∧
      (∀ k ≤ Numeral.maxKey, InSome is k ↔
        ∀ t ∈ c.constraints, ∃ a, Numeral.key t.numeral.spelling = .ok a ∧ t.relation.Compares k a) ∧
      (is = [] ↔ ∀ k ≤ Numeral.maxKey, ¬ ∀ t ∈ c.constraints,
        ∃ a, Numeral.key t.numeral.spelling = .ok a ∧ t.relation.Compares k a) ∧
      ∃ ws, c.wordIntervals = .ok ws ∧ ws.map toKeys = is := by
  have hkeyed : ∀ t ∈ c.constraints, t.Keyed := fun t ht =>
    ⟨isApproximate_eq_false.mp hexact t ht, (hkeys t ht).elim fun _ ha => (Numeral.key_spelling_eq_ok.mp ha).1⟩
  obtain ⟨is, his⟩ := exists_intervals_iff.mpr hkeyed
  have hspans := spans_of_intervals his
  have hin : ∀ k ≤ Numeral.maxKey, InSome is k ↔
      ∀ t ∈ c.constraints, ∃ a, Numeral.key t.numeral.spelling = .ok a ∧ t.relation.Compares k a := fun k hk =>
    (inSome_intervals his hk).trans (forall₂_congr fun t _ => NumericConstraint.keyHolds_iff)
  refine ⟨is, his, ascending_intervals his, hspans, hin, ⟨?_, fun hnone => ?_⟩, ?_⟩
  · rintro rfl k hk hall
    exact KeyInterval.inSome_nil ((hin k hk).mpr hall)
  · -- An interval would hold its lower bound.
    refine List.eq_nil_iff_forall_not_mem.mpr fun i hi => ?_
    obtain ⟨hle, hmax⟩ := hspans i hi
    have hlo : InSome is i.lo := ⟨i, hi, KeyInterval.contains_iff.mpr ⟨Nat.le_refl _, hle⟩⟩
    exact hnone i.lo (hle.trans hmax) ((hin i.lo (hle.trans hmax)).mp hlo)
  · exact Except.map_eq_ok.mp (c.map_wordIntervals.trans his)

end NumericClause

/-- The relation to a number of one digit. -/
def NumericConstraint.ofDigit (relation : Relation) (d : Digit) : NumericConstraint :=
  let numeral : Numeral := ⟨false, ⟨d, []⟩, none, none⟩
  { relation, argument := Binary64.ofNumeral numeral, numeral }

theorem NumericConstraint.hasKey_ofDigit (relation : Relation) (d : Digit) : (ofDigit relation d).numeral.HasKey := by
  have hdigits : ∀ d, (ofDigit .equal d).numeral.significantDigits ≤ Numeral.maxDigits := by decide
  have hrange : ∀ d, Numeral.inRange (Binary64.ofNumeral (ofDigit .equal d).numeral) = true := by decide +kernel
  exact ⟨hdigits d, hrange d⟩

/-- The numbers from 3 on that are below 9 and not 7 have keys in two intervals. No key is above and below
that of 5. -/
theorem NumericClause.intervals_exact_split :
    let split : NumericClause := ⟨[.ofDigit .unequal 7, .ofDigit .atLeast 3, .ofDigit .less 9]⟩
    let empty : NumericClause := ⟨[.ofDigit .greater 5, .ofDigit .less 5]⟩
    (∃ ws, split.wordIntervals = .ok ws ∧ ws.map toKeys =
      [⟨1000000003000000000, 1000000006999999999⟩, ⟨1000000007000000001, 1000000008999999999⟩]) ∧
    empty.intervals = .ok [] ∧ ∀ k ≤ Numeral.maxKey, ¬ ∀ t ∈ empty.constraints,
      ∃ a, Numeral.key t.numeral.spelling = .ok a ∧ t.relation.Compares k a := by
  intro split empty
  constructor
  · have hkeys : ∀ t ∈ split.constraints, ∃ a, Numeral.key t.numeral.spelling = .ok a := by
      simp [split, Numeral.key_spelling_of_hasKey, NumericConstraint.hasKey_ofDigit]
    have hcomputed : split.intervals.toOption =
        some [⟨1000000003000000000, 1000000006999999999⟩, ⟨1000000007000000001, 1000000008999999999⟩] := by
      decide +kernel
    obtain ⟨is, his, -, -, -, -, ws, hws, hmap⟩ := intervals_exact split rfl hkeys
    rw [his] at hcomputed
    exact ⟨ws, hws, hmap.trans (Option.some.inj hcomputed)⟩
  · have hkeys : ∀ t ∈ empty.constraints, ∃ a, Numeral.key t.numeral.spelling = .ok a := by
      simp [empty, Numeral.key_spelling_of_hasKey, NumericConstraint.hasKey_ofDigit]
    have hcomputed : empty.intervals.toOption = some [] := by decide +kernel
    obtain ⟨is, his, -, -, -, hempty, -⟩ := intervals_exact empty rfl hkeys
    rw [his] at hcomputed
    obtain rfl := Option.some.inj hcomputed
    exact ⟨his, hempty.mp rfl⟩

end EventMatch
