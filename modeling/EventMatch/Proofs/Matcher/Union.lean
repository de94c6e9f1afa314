import EventMatch.Proofs.Automaton.History
import EventMatch.Proofs.Matcher.Root

/-!
# What merged gates and junctions lead to

A merge is a union, level by level: of the tests (`among_union_tests`), of the gates
(`Gate.isUnion_mergeWith`) and of the junctions path by path
(`Junction.isUnion_mergeWith`). There is one exception. The automaton of two gates is
looked up by keys if either gate holds any, so a gate without numbers is then looked up in
another way than by itself (`Gate.passAs`). Where that makes no difference, as for the
gates of patterns (`GateOk.indifferent`), the merge leads where either gate does; where it
makes one, a value may be lost (`Gate.mergeWith_loses_one`).
-/

namespace EventMatch

variable {ι : Type}

/-! ## Junctions by their labels -/

/-- A junction of the list has the label of `j`. -/
def Junction.Among (j : Junction ι) (js : List (Junction ι)) : Prop := js.any (· == j) = true

instance (j : Junction ι) (js : List (Junction ι)) : Decidable (j.Among js) := inferInstanceAs (Decidable (_ = true))

theorem Junction.among_append {j : Junction ι} {is js : List (Junction ι)} :
    j.Among (is ++ js) ↔ j.Among is ∨ j.Among js := by
  rw [Among, List.any_append, Bool.or_eq_true]
  rfl

theorem Junction.not_among_nil {j : Junction ι} : ¬ j.Among [] := Bool.false_ne_true

/-! ## Tests -/

instance : EquivBEq (PredicateTest ι) where
  rfl := fun {t} => beq_self_eq_true t.label
  symm := fun {t u} h => BEq.symm (a := t.label) (b := u.label) h
  trans := fun {t u w} h₁ h₂ => BEq.trans (a := t.label) (b := u.label) (c := w.label) h₁ h₂

/-- If `==` is equality on both lists, a union has the elements of both. -/
theorem mem_union_of_separated {α : Type} [BEq α] [EquivBEq α] {T : Set α} (hT : Separated (· ∈ T)) {as bs : List α}
    (ha : ∀ a ∈ as, a ∈ T) (hb : ∀ b ∈ bs, b ∈ T) {x : α} : x ∈ union as bs ↔ x ∈ as ∨ x ∈ bs := by
  refine ⟨mem_or_mem_of_mem_union, fun hx => ?_⟩
  have hany : (union as bs).any (· == x) = true := by
    rw [any_union, Bool.or_eq_true]
    exact hx.imp (fun h => List.any_eq_true.mpr ⟨x, h, BEq.rfl⟩) fun h => List.any_eq_true.mpr ⟨x, h, BEq.rfl⟩
  obtain ⟨y, hy, hyx⟩ := List.any_eq_true.mp hany
  rwa [← hT y x ((mem_or_mem_of_mem_union hy).elim (ha y) (hb y)) (hx.elim (ha x) (hb x)) hyx]

theorem among_tests {ts : List (PredicateTest ι)} {v : Bytes} {j : Junction ι} :
    j.Among ((ts.filter fun t => t.accepts v).map (·.next)) ↔ ∃ t ∈ ts, t.accepts v = true ∧ (t.next == j) = true := by
  simp only [Junction.Among, List.any_map, List.any_filter, List.any_eq_true, Function.comp_apply, Bool.and_eq_true]

/-- If labels tell the tests apart, a union of tests leads where either list does. -/
theorem among_union_tests {T : Set (PredicateTest ι)} (hT : Separated (· ∈ T)) {ts us : List (PredicateTest ι)}
    (ht : ∀ t ∈ ts, t ∈ T) (hu : ∀ u ∈ us, u ∈ T) (v : Bytes) (j : Junction ι) :
    j.Among (((union ts us).filter fun t => t.accepts v).map (·.next)) ↔
      j.Among ((ts.filter fun t => t.accepts v).map (·.next)) ∨
        j.Among ((us.filter fun t => t.accepts v).map (·.next)) := by
  simp only [among_tests, mem_union_of_separated hT ht hu, or_and_right, exists_or]

/-! ## Gates -/

namespace Gate

/-- As `pass`, where a value is looked up as if the automaton held keys of numbers or none. -/
def passAs (hasNumbers : Bool) (g : Gate ι) (v : Bytes) : List (Junction ι) :=
  g.automaton.run (lookup hasNumbers v) ++ (g.tests.filter fun t => t.accepts v).map (·.next)

/-- To a gate without numbers it makes no difference whether values are looked up by keys. -/
def Indifferent (g : Gate ι) : Prop :=
  g.hasNumbers = false → ∀ v (j : Junction ι), j.Among (g.passAs true v) ↔ j.Among (g.passAs false v)

/-- Two gates look the value up in the same way, or it makes no difference to them. -/
def Agree (g h : Gate ι) (v : Bytes) : Prop :=
  g.hasNumbers = h.hasNumbers ∨ (∀ ds, Numeral.canonical v ≠ .ok ds) ∨ g.Indifferent ∧ h.Indifferent

/-- The gate's states are of a pool, and its tests of a set. -/
structure From (S : Set (State (Junction ι))) (T : Set (PredicateTest ι)) (g : Gate ι) : Prop where
  states : g.automaton.WellFormed (· ∈ S)
  tests : ∀ t ∈ g.tests, t ∈ T

/-- `m` leads where `g` or `h` does, once all three look values up in the same way. -/
structure IsUnion (g h m : Gate ι) : Prop where
  hasNumbers : m.hasNumbers = (g.hasNumbers || h.hasNumbers)
  passAs : ∀ b v (j : Junction ι), j.Among (m.passAs b v) ↔ j.Among (g.passAs b v) ∨ j.Among (h.passAs b v)
  pass : ∀ v, g.Agree h v → ∀ j : Junction ι, j.Among (m.pass v) ↔ j.Among (g.pass v) ∨ j.Among (h.pass v)
  indifferent : g.Indifferent → h.Indifferent → m.Indifferent

variable {g h m : Gate ι}

theorem lookup_of_not_canonical {v : Bytes} (hv : ∀ ds, Numeral.canonical v ≠ .ok ds) (b c : Bool) :
    lookup b v = lookup c v := by
  have hplain : ∀ b, lookup b v = if Numeral.isNumeral v then Numeral.plainText v else v := fun b => by
    rw [lookup]
    cases hc : Numeral.canonical v with
    | ok ds => exact absurd hc (hv ds)
    | error e => cases b <;> rfl
  rw [hplain, hplain]

theorem passAs_congr {v : Bytes} {b c : Bool} (h : lookup b v = lookup c v) (g : Gate ι) :
    g.passAs b v = g.passAs c v := by
  rw [passAs, passAs, h]

theorem Indifferent.among_passAs_or (hg : g.Indifferent) (b : Bool) (v : Bytes) (j : Junction ι) :
    j.Among (g.passAs (g.hasNumbers || b) v) ↔ j.Among (g.pass v) := by
  cases hn : g.hasNumbers with
  | true => rw [Bool.true_or, ← hn]; rfl
  | false =>
    rw [Bool.false_or, show g.pass v = g.passAs g.hasNumbers v from rfl, hn]
    cases b with
    | false => exact Iff.rfl
    | true => exact hg hn v j

/-- The rest follows from what is reached when all look the value up in the same way. -/
theorem IsUnion.of_passAs (hn : m.hasNumbers = (g.hasNumbers || h.hasNumbers))
    (hp : ∀ b v (j : Junction ι), j.Among (m.passAs b v) ↔ j.Among (g.passAs b v) ∨ j.Among (h.passAs b v)) :
    g.IsUnion h m where
  hasNumbers := hn
  passAs := hp
  pass := by
    intro v hagree j
    have hm : m.pass v = m.passAs (g.hasNumbers || h.hasNumbers) v := by rw [← hn]; rfl
    rw [hm, hp]
    rcases hagree with heq | hnone | ⟨hg, hh⟩
    · rw [← heq, Bool.or_self, passAs_congr (congrArg (lookup · v) heq) h]
      exact Iff.rfl
    · rw [passAs_congr (lookup_of_not_canonical hnone _ g.hasNumbers) g,
        passAs_congr (lookup_of_not_canonical hnone _ h.hasNumbers) h]
      exact Iff.rfl
    · have h₂ := hh.among_passAs_or g.hasNumbers v j
      rw [Bool.or_comm] at h₂
      exact or_congr (hg.among_passAs_or h.hasNumbers v j) h₂
  indifferent := by
    intro hg hh hm v j
    rw [hn, Bool.or_eq_false_iff] at hm
    rw [hp, hp, hg hm.1, hh hm.2]

theorem IsUnion.refl (g : Gate ι) : g.IsUnion g g :=
  .of_passAs (Bool.or_self _).symm fun _ _ _ => (or_self_iff).symm

section

variable {S S' : Set (State (Junction ι))} {T : Set (PredicateTest ι)}

theorem From.mono (hg : g.From S T) (hS : S ⊆ S') : g.From S' T :=
  ⟨hg.states.mono fun _ hs => hS hs, hg.tests⟩

/-- The merge of two gates is their union, whatever was merged before. -/
theorem isUnion_mergeWith {p : MergePass (Junction ι)} (hp : PassHistory S p) (hT : Separated (· ∈ T))
    (hg : g.From S T) (hh : h.From S T) :
    let r := (g.mergeWith h).run p
    g.IsUnion h r.1 ∧ ∃ S', S ⊆ S' ∧ PassHistory S' r.2 ∧ r.1.From S' T := by
  obtain ⟨-, -, -, hexits⟩ := mergeWith_ok hp.sound hg.states hh.states
  have hrun : ∀ w (j : Junction ι),
      j.Among (((g.automaton.mergeWith h.automaton).run p).1.run w) ↔
        j.Among (g.automaton.run w) ∨ j.Among (h.automaton.run w) := fun w j => by
    rw [Junction.Among, (Automaton.IsUnion.of_exits hexits).run, Bool.or_eq_true]
    rfl
  refine ⟨.of_passAs rfl fun b v j => ?_, _, Set.subset_union_left, hp.merge hg.states hh.states,
    (hp.sound.mergeWith hg.states hh.states).2, fun t ht => ?_⟩
  · show j.Among (((g.automaton.mergeWith h.automaton).run p).1.run (lookup b v) ++
      ((union g.tests h.tests).filter fun t => t.accepts v).map (·.next)) ↔ _
    rw [passAs, passAs, Junction.among_append, Junction.among_append, Junction.among_append, hrun,
      among_union_tests hT hg.tests hh.tests]
    exact or_or_or_comm
  · exact ((mem_union_of_separated hT hg.tests hh.tests).mp ht).elim (hg.tests t) (hh.tests t)

end

end Gate

/-! ## Branches -/

/-- What becomes of the gates that two junctions have for a path: one alone is kept, two are united. -/
inductive MergedAt : Option (Gate ι) → Option (Gate ι) → Option (Gate ι) → Prop where
  | neither : MergedAt none none none
  | first (g : Gate ι) : MergedAt (some g) none (some g)
  | second (h : Gate ι) : MergedAt none (some h) (some h)
  | both {g h m : Gate ι} : g.IsUnion h m → MergedAt (some g) (some h) (some m)

theorem mergedAt_none_right {x y : Option (Gate ι)} : MergedAt x none y ↔ y = x := by
  constructor
  · rintro (_ | _)
    · rfl
    · rfl
  · rintro rfl
    cases y with
    | none => exact .neither
    | some g => exact .first g

section

variable {S : Set (State (Junction ι))} {T : Set (PredicateTest ι)} {p : MergePass (Junction ι)}

/-- All gates of some branches are of a pool and a set of tests. -/
def BranchesFrom (S : Set (State (Junction ι))) (T : Set (PredicateTest ι)) (branches : List (String × Gate ι)) :
    Prop := ∀ path g, branches.lookup path = some g → g.From S T

theorem branchesFrom_singleton {path : String} {g : Gate ι} (hg : g.From S T) : BranchesFrom S T [(path, g)] := by
  intro path' g' hl
  rw [List.lookup_cons] at hl
  split at hl
  · exact Option.some.inj hl ▸ hg
  · cases hl

/-- One branch more. -/
theorem mergedAt_addBranch (hp : PassHistory S p) (hT : Separated (· ∈ T)) {branches : List (String × Gate ι)}
    (hb : BranchesFrom S T branches) {path : String} {h : Gate ι} (hh : h.From S T) :
    let r := (Junction.addBranch path h branches).run p
    MergedAt (branches.lookup path) (some h) (r.1.lookup path) ∧
      ∃ S', S ⊆ S' ∧ PassHistory S' r.2 ∧ BranchesFrom S' T r.1 := by
  intro r
  have hother : ∀ {S'}, S ⊆ S' → (∀ g, r.1.lookup path = some g → g.From S' T) → BranchesFrom S' T r.1 := by
    intro S' hS hown path' g hg
    by_cases he : path = path'
    · exact hown g (he ▸ hg)
    · rw [lookup_addBranch_ne he] at hg
      exact (hb path' g hg).mono hS
  rcases addBranch_run path h branches p with ⟨hnone, hsome, hpass⟩ | ⟨g, hold, hnew, hpass⟩
  · rw [hnone, show r.1.lookup path = some h from hsome]
    refine ⟨.second h, S, subset_rfl, by rwa [show r.2 = p from hpass], hother subset_rfl fun g hg => ?_⟩
    rw [show r.1.lookup path = some h from hsome] at hg
    exact Option.some.inj hg ▸ hh
  · obtain ⟨hunion, S', hS, hp', hfrom⟩ := Gate.isUnion_mergeWith hp hT (hb path g hold) hh
    rw [hold, show r.1.lookup path = _ from hnew]
    refine ⟨.both hunion, S', hS, by rwa [show r.2 = _ from hpass], hother hS fun m hm => ?_⟩
    rw [show r.1.lookup path = _ from hnew] at hm
    exact Option.some.inj hm ▸ hfrom

theorem lookup_eq_none_of_nodup {path : String} {h : Gate ι} {rest : List (String × Gate ι)}
    (hn : (((path, h) :: rest).map Prod.fst).Nodup) : rest.lookup path = none := by
  refine List.lookup_eq_none_iff.mpr fun b hb => ?_
  have hne : path ≠ b.1 := fun e => (List.nodup_cons.mp hn).1 (List.mem_map.mpr ⟨b, hb, e.symm⟩)
  exact bne_iff_ne.mpr hne

/-- Branches of different paths, one after the other. -/
theorem mergedAt_foldlM (hT : Separated (· ∈ T)) : ∀ {bs acc : List (String × Gate ι)}
    {S : Set (State (Junction ι))} {p : MergePass (Junction ι)}, PassHistory S p → BranchesFrom S T acc →
    BranchesFrom S T bs → (bs.map Prod.fst).Nodup →
    let r := (bs.foldlM (fun acc (branch : String × Gate ι) => Junction.addBranch branch.1 branch.2 acc) acc).run p
    (∀ path, MergedAt (acc.lookup path) (bs.lookup path) (r.1.lookup path)) ∧
      ∃ S', S ⊆ S' ∧ PassHistory S' r.2 ∧ BranchesFrom S' T r.1
  | [], acc, S, p, hp, hacc, _, _ => ⟨fun _ => mergedAt_none_right.mpr rfl, S, subset_rfl, hp, hacc⟩
  | (q, h) :: rest, acc, S, p, hp, hacc, hbs, hn => by
    have hq : rest.lookup q = none := lookup_eq_none_of_nodup hn
    have hlookup : ∀ {path}, q ≠ path → List.lookup path ((q, h) :: rest) = rest.lookup path := fun hne => by
      rw [List.lookup_cons, beq_false_of_ne hne.symm]
    obtain ⟨hfirst, S₁, hS₁, hp₁, hacc₁⟩ := mergedAt_addBranch hp hT hacc (hbs q h List.lookup_cons_self)
    have hrest : BranchesFrom S₁ T rest := fun path g hg => by
      have hne : q ≠ path := by
        rintro rfl
        rw [hq] at hg
        cases hg
      exact (hbs path g ((hlookup hne).trans hg)).mono hS₁
    rw [List.foldlM_cons]
    obtain ⟨hmerged, S₂, hS₂, hp₂, hacc₂⟩ := mergedAt_foldlM hT hp₁ hacc₁ hrest (List.nodup_cons.mp hn).2
    refine ⟨fun path => ?_, S₂, hS₁.trans hS₂, hp₂, hacc₂⟩
    by_cases he : q = path
    · -- The other branches leave the path's gate as it is.
      subst he
      have hkept := hmerged q
      rw [hq, mergedAt_none_right] at hkept
      rw [List.lookup_cons_self]
      exact hkept ▸ hfirst
    · have := hmerged path
      rw [lookup_addBranch_ne he] at this
      rw [hlookup he]
      exact this

end

/-! ## Junctions -/

namespace Junction

/-- `m` has the gates of `a` and `b`, united where both have one for a path, and leads where either does if two
gates of one path agree. -/
structure IsUnion (a b m : Junction ι) : Prop where
  gates : ∀ path, MergedAt (a.gate? path) (b.gate? path) (m.gate? path)
  pass : ∀ path v, (∀ g h, a.gate? path = some g → b.gate? path = some h → g.Agree h v) →
    ∀ j : Junction ι, j.Among (m.pass path v) ↔ j.Among (a.pass path v) ∨ j.Among (b.pass path v)

theorem IsUnion.of_gates {a b m : Junction ι}
    (h : ∀ path, MergedAt (a.gate? path) (b.gate? path) (m.gate? path)) : a.IsUnion b m where
  gates := h
  pass := by
    intro path v hagree j
    have hmerged := h path
    unfold Junction.pass
    generalize a.gate? path = x at hmerged hagree
    generalize b.gate? path = y at hmerged hagree
    generalize m.gate? path = z at hmerged
    cases hmerged with
    | neither => exact or_self_iff.symm
    | first g => exact (or_iff_left not_among_nil).symm
    | second h => exact (or_iff_right not_among_nil).symm
    | both hunion => exact hunion.pass v (hagree _ _ rfl rfl) j

variable [BEq ι] {S : Set (State (Junction ι))} {T : Set (PredicateTest ι)} {p : MergePass (Junction ι)}

/-- The merge of two junctions is their union, whatever was merged before. -/
theorem isUnion_mergeWith (hp : PassHistory S p) (hT : Separated (· ∈ T)) {a b : Junction ι}
    (ha : BranchesFrom S T a.branches) (hb : BranchesFrom S T b.branches) (hn : (b.branches.map Prod.fst).Nodup)
    (hab : (a == b) = true → a = b) : a.IsUnion b ((a.mergeWith b).run p).1 := by
  refine .of_gates fun path => ?_
  rw [mergeWith]
  cases he : a == b with
  | true =>
    rw [if_pos rfl]
    obtain rfl := hab he
    show MergedAt (a.gate? path) (a.gate? path) (a.gate? path)
    cases a.gate? path with
    | none => exact .neither
    | some g => exact .both (.refl g)
  | false =>
    rw [if_neg Bool.false_ne_true]
    exact (mergedAt_foldlM hT hp ha hb hn).1 path

/-- After any merges, the merge of two gates and that of two junctions are their unions. Where a gate without
numbers meets one with numbers, the first is looked up by keys too, and it is the union of what both lead to
then. -/
theorem merges_are_unions (hp : PassHistory S p) (hT : Separated (· ∈ T)) :
    (∀ g h : Gate ι, g.From S T → h.From S T → g.IsUnion h ((g.mergeWith h).run p).1) ∧
      ∀ a b : Junction ι, BranchesFrom S T a.branches → BranchesFrom S T b.branches →
        (b.branches.map Prod.fst).Nodup → ((a == b) = true → a = b) → a.IsUnion b ((a.mergeWith b).run p).1 :=
  ⟨fun _ _ hg hh => (Gate.isUnion_mergeWith hp hT hg hh).1,
    fun _ _ ha hb hn hab => isUnion_mergeWith hp hT ha hb hn hab⟩

end Junction

/-! ## Gates of patterns -/

/-- To the gates of patterns it makes no difference how values are looked up, if they hold no numbers. -/
theorem GateOk.indifferent {S : Set (State (Junction ι))} {lo n : Nat} {next : Junction ι} {g : Gate ι}
    {values : List ValueSpec} {preds : List Predicate} (h : GateOk S lo n next g values preds)
    (hv : ∀ v ∈ values, v.Proper) : g.Indifferent := by
  intro hn v j
  have hstands := h.stands h hv
  have hrun : ∀ b, g.automaton.run (Gate.lookup b v) = if g.reaches v then [next] else [] := fun b => by
    rw [Automaton.run_eq hstands.ends]
    refine hstands.exits b v fun hnumbers => ?_
    rw [hn] at hnumbers
    cases hnumbers
  rw [Gate.passAs, Gate.passAs, hrun, hrun]

/-! ## Texts and a number -/

/-- Where the text 1 leads. -/
def Junction.ofOne : Junction Bool := .mk 0 [] [true]

/-- Where the text 2 and the number 2 lead. -/
def Junction.ofTwo : Junction Bool := .mk 1 [] [false]

/-- The gate of the text 1. -/
def Gate.textOne : Gate Bool :=
  .ofAutomaton ((Automaton.literal (Bytes.ofString "1") Junction.ofOne).run 0).1 false

/-- The gate of the text 2. -/
def Gate.textTwo : Gate Bool :=
  .ofAutomaton ((Automaton.literal (Bytes.ofString "2") Junction.ofTwo).run 2).1 false

/-- The gate of the number 2. -/
def Gate.keyTwo : Gate Bool :=
  .ofAutomaton ((Automaton.number (Numeral.keyDigits 1000000002000000000) Junction.ofTwo).run 4).1 true

theorem Gate.exists_from : ∃ S, PassHistory S ⟨25, ∅⟩ ∧ textOne.From S ∅ ∧ textTwo.From S ∅ ∧ keyTwo.From S ∅ := by
  obtain ⟨S₁, -, -, hp₁, hone, -⟩ := makes_literal (Pool.empty 0) (Bytes.ofString "1") Junction.ofOne
  obtain ⟨S₂, hS₂, -, hp₂, htwo, -⟩ := makes_literal hp₁ (Bytes.ofString "2") Junction.ofTwo
  obtain ⟨S₃, hS₃, -, hp₃, hkey, -⟩ :=
    makes_literal hp₂ (numberMark :: Numeral.keyDigits 1000000002000000000) Junction.ofTwo
  exact ⟨S₃, .start hp₃, ⟨hone.mono fun _ hs => hS₃ (hS₂ hs), fun _ ht => nomatch ht⟩,
    ⟨htwo.mono fun _ hs => hS₃ hs, fun _ ht => nomatch ht⟩, ⟨hkey, fun _ ht => nomatch ht⟩⟩

/-- The texts 1 and 2 on one path, merged with the memo of an earlier merge of the same. The value 1 leads where
the first does. -/
theorem Junction.merges_are_unions_texts :
    let a : Junction Bool := .mk 2 [("x", Gate.textOne)] []
    let b : Junction Bool := .mk 3 [("x", Gate.textTwo)] []
    let m := ((a.mergeWith b).run ((Gate.textOne.mergeWith Gate.textTwo).run ⟨25, ∅⟩).2).1
    ofOne.Among (m.pass "x" (Bytes.ofString "1")) ∧ ¬ ofTwo.Among (m.pass "x" (Bytes.ofString "1")) := by
  intro a b m
  obtain ⟨S, hp, hone, htwo, -⟩ := Gate.exists_from
  have hT : Separated (· ∈ (∅ : Set (PredicateTest Bool))) := fun _ _ ht => ht.elim
  obtain ⟨-, S', hS, hp', -⟩ := Gate.isUnion_mergeWith hp hT hone htwo
  have hunion : a.IsUnion b m := (merges_are_unions hp' hT).2 a b (branchesFrom_singleton (hone.mono hS))
    (branchesFrom_singleton (htwo.mono hS)) (List.nodup_singleton _) (fun h => absurd h (by decide))
  have hagree : ∀ g h, a.gate? "x" = some g → b.gate? "x" = some h → g.Agree h (Bytes.ofString "1") := by
    rintro g h hg hh
    cases hg
    cases hh
    exact .inl rfl
  rw [hunion.pass "x" _ hagree, hunion.pass "x" _ hagree]
  decide +kernel

/-- The gate of the text 1 alone lets the value 1 pass. Merged with the gate of the number 2 it looks the value up by its
key, and it leads nowhere; so it does on a path of two junctions. -/
theorem Gate.mergeWith_loses_one :
    let v := Bytes.ofString "1"
    let m := ((textOne.mergeWith keyTwo).run ⟨25, ∅⟩).1
    let a : Junction Bool := .mk 2 [("x", textOne)] []
    let b : Junction Bool := .mk 3 [("x", keyTwo)] []
    Junction.ofOne.Among (textOne.pass v) ∧ ¬ Junction.ofOne.Among (m.pass v) ∧
      ¬ Junction.ofOne.Among (((a.mergeWith b).run ⟨25, ∅⟩).1.pass "x" v) := by
  intro v m a b
  obtain ⟨S, hp, hone, -, hkey⟩ := exists_from
  have hT : Separated (· ∈ (∅ : Set (PredicateTest Bool))) := fun _ _ ht => ht.elim
  have hlost : ∀ {m : Gate Bool}, textOne.IsUnion keyTwo m → ¬ Junction.ofOne.Among (m.pass v) := fun {m} hm => by
    have hpass : m.pass v = m.passAs true v := by
      rw [show m.pass v = m.passAs m.hasNumbers v from rfl, hm.hasNumbers]
      rfl
    rw [hpass, hm.passAs]
    decide +kernel
  refine ⟨by decide +kernel, hlost (isUnion_mergeWith hp hT hone hkey).1, ?_⟩
  have hunion := (Junction.isUnion_mergeWith hp hT (branchesFrom_singleton hone) (branchesFrom_singleton hkey)
    (List.nodup_singleton _) (fun h => absurd h (by decide)) : a.IsUnion b _).gates "x"
  rw [Junction.pass]
  generalize ((a.mergeWith b).run ⟨25, ∅⟩).1.gate? "x" = merged at hunion ⊢
  cases hunion with
  | both hboth => exact hlost hboth

end EventMatch
