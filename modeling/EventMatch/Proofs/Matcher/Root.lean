import EventMatch.Proofs.Matcher.Chain

/-!
# The root of the graph

Only the root is ever merged. Its gate for a path `Joins` the gates at which the
patterns with this first path begin: a word leads on it where it leads on each of
them, in the order in which the patterns were added (`RootOk.mergeWith`).
-/

namespace EventMatch

open Compile

/-! ## Unions -/

section

variable {α : Type} [BEq α]

/-- A union of lists that have nothing in common is both, one behind the other. -/
theorem union_eq_append {as : List α} : ∀ {bs : List α}, (∀ b ∈ bs, as.any (· == b) = false) →
    bs.Pairwise (fun a b => (a == b) = false) → union as bs = as ++ bs
  | [], _, _ => (List.append_nil as).symm
  | b :: bs, h, hp => by
    have hb : as.any (· == b) = false := h b List.mem_cons_self
    show union (if as.any (· == b) then as else as ++ [b]) bs = _
    obtain ⟨hbs, hp⟩ := List.pairwise_cons.mp hp
    rw [hb, if_neg Bool.false_ne_true, union_eq_append (fun c hc => ?_) hp, List.append_assoc,
      List.singleton_append]
    rw [List.any_append, h c (List.mem_cons_of_mem _ hc), List.any_cons, List.any_nil, hbs c hc]
    rfl

omit [BEq α] in
theorem Automaton.exitsAt_empty (w : Bytes) : exitsAt (RangeTable.empty : Automaton α) w = [] := by
  rw [exitsAt, exitsAt?_empty]
  rfl

/-- A merge reaches first what one automaton reaches, then what the other does, if
that is something else. -/
theorem Automaton.exitsAt_merge {t u m : Automaton α} {w : Bytes}
    (he : m.exitsAt? w = Option.merge union (t.exitsAt? w) (u.exitsAt? w))
    (hd : ∀ b ∈ u.exitsAt w, (t.exitsAt w).any (· == b) = false)
    (hp : (u.exitsAt w).Pairwise fun a b => (a == b) = false) :
    m.exitsAt w = t.exitsAt w ++ u.exitsAt w := by
  simp only [exitsAt] at hd hp ⊢
  rw [he]
  cases ht : t.exitsAt? w with
  | none => rw [Option.merge_none_left]; rfl
  | some a =>
    cases hu : u.exitsAt? w with
    | none => exact (List.append_nil a).symm
    | some b =>
      rw [ht, hu] at hd
      rw [hu] at hp
      exact union_eq_append hd hp

end

variable {ι : Type}

/-- Things with smaller labels are not the same as one with a larger. -/
theorem any_label_eq_false {js : List (Junction ι)} {n : Nat} (h : ∀ j ∈ js, j.label < n) {j : Junction ι}
    (hj : n ≤ j.label) : js.any (· == j) = false :=
  List.any_eq_false.mpr fun i hi e => by
    have : i.label = j.label := beq_iff_eq.mp e
    have := h i hi
    omega

theorem union_tests {ts us : List (PredicateTest ι)} {n : Nat} (ht : ∀ t ∈ ts, t.label < n)
    (hu : ∀ u ∈ us, n ≤ u.label) (hs : us.Pairwise (·.label < ·.label)) : union ts us = ts ++ us := by
  refine union_eq_append (fun u hm => List.any_eq_false.mpr fun t hm' e => ?_) (hs.imp fun h => ?_)
  · have : t.label = u.label := beq_iff_eq.mp e
    have := ht t hm'
    have := hu u hm
    omega
  · exact beq_false_of_ne (α := Nat) (Nat.ne_of_lt h)

/-! ## Joined gates -/

/-- The gate holds what the gates of a list do, one behind the other. All labels on it
are below `n`. -/
structure Joins (S : Set (State (Junction ι))) (n : Nat) (gate : Gate ι) (gates : List (Gate ι)) : Prop where
  wellFormed : gate.automaton.WellFormed (· ∈ S)
  ends : Automaton.EndsAtTerminator gate.automaton
  exits : ∀ w, Automaton.exitsAt gate.automaton w = gates.flatMap fun g => Automaton.exitsAt g.automaton w
  tests : gate.tests = gates.flatMap Gate.tests
  hasNumbers : gate.hasNumbers = gates.any Gate.hasNumbers
  exitLabels : ∀ w, ∀ j ∈ Automaton.exitsAt gate.automaton w, j.label < n
  testLabels : ∀ t ∈ gate.tests, t.label < n

namespace Joins

variable {S S' : Set (State (Junction ι))} {n n' lo : Nat} {gate g : Gate ι} {gates : List (Gate ι)}
  {next : Junction ι} {values : List ValueSpec} {preds : List Predicate}

theorem mono (h : Joins S n gate gates) (hS : S ⊆ S') (hn : n ≤ n') : Joins S' n' gate gates :=
  { h with
    wellFormed := h.wellFormed.mono fun _ hs => hS hs
    exitLabels := fun w j hj => Nat.lt_of_lt_of_le (h.exitLabels w j hj) hn
    testLabels := fun t ht => Nat.lt_of_lt_of_le (h.testLabels t ht) hn }

theorem empty (S : Set (State (Junction ι))) (n : Nat) : Joins S n (Gate.empty : Gate ι) [] where
  wellFormed := RangeTable.wellFormed_empty _
  ends := Automaton.endsAtTerminator_empty
  exits := Automaton.exitsAt_empty
  tests := rfl
  hasNumbers := rfl
  exitLabels := fun w j hj => by
    change j ∈ Automaton.exitsAt (RangeTable.empty : Automaton (Junction ι)) w at hj
    rw [Automaton.exitsAt_empty] at hj
    cases hj
  testLabels := fun _ h => nomatch h

/-- One gate by itself. -/
theorem single (hg : GateOk S lo n next g values preds) (hv : ∀ v ∈ values, v.Proper) (hl : next.label < n) :
    Joins S n g [g] where
  wellFormed := hg.wellFormed
  ends := hg.endsAtTerminator hv
  exits := fun w => by rw [List.flatMap_singleton]
  tests := by rw [List.flatMap_singleton]
  hasNumbers := by rw [List.any_cons, List.any_nil, Bool.or_false]
  exitLabels := fun w j hj => by
    by_cases hw : ValuesWords values w
    · rw [hg.exitsAt_of_words hw] at hj
      exact List.mem_singleton.mp hj ▸ hl
    · rw [hg.exitsAt_of_not_words hw] at hj
      cases hj
  testLabels := fun t ht => (hg.labels t ht).2

/-- Gates through which nothing passes do not count. -/
theorem after_empty (h : Joins S n (Gate.empty : Gate ι) gates) (hg : Joins S n g [g]) :
    Joins S n g (gates ++ [g]) :=
  { hg with
    exits := fun w => by
      have he : gates.flatMap (fun g => Automaton.exitsAt g.automaton w) = [] :=
        (h.exits w).symm.trans (Automaton.exitsAt_empty w)
      rw [List.flatMap_append, he, List.nil_append]
      exact hg.exits w
    tests := by
      rw [List.flatMap_append, ← h.tests, List.flatMap_singleton]
      rfl
    hasNumbers := by
      rw [List.any_append, ← h.hasNumbers, List.any_cons, List.any_nil, Bool.or_false]
      rfl }

/-- The gate of one pattern more, all labels of which are new. -/
theorem mergeWith (h : Joins S n gate gates) (hg : GateOk S lo n' next g values preds)
    (hv : ∀ v ∈ values, v.Proper) (hlo : n ≤ lo) (hl : lo ≤ next.label ∧ next.label < n')
    {p : MergePass (Junction ι)} (hp : SoundPass S p) (hn : p.next = n') :
    let r := (gate.mergeWith g).run p
    ∃ S', S ⊆ S' ∧ n' ≤ r.2.next ∧ SoundPass S' r.2 ∧ Joins S' r.2.next r.1 (gates ++ [g]) := by
  obtain ⟨S', hgrow, hw, he⟩ := mergeWith_ok hp h.wellFormed hg.wellFormed
  have hn' : n' ≤ ((Automaton.mergeWith gate.automaton g.automaton).run p).2.next := hn ▸ hgrow.next
  have hexits : ∀ w, Automaton.exitsAt ((Automaton.mergeWith gate.automaton g.automaton).run p).1 w =
      Automaton.exitsAt gate.automaton w ++ Automaton.exitsAt g.automaton w := by
    intro w
    refine Automaton.exitsAt_merge (he w) (fun j hj => ?_) ?_
    · by_cases hw : ValuesWords values w
      · rw [hg.exitsAt_of_words hw] at hj
        exact List.mem_singleton.mp hj ▸ any_label_eq_false (h.exitLabels w) (hlo.trans hl.1)
      · rw [hg.exitsAt_of_not_words hw] at hj
        cases hj
    · by_cases hw : ValuesWords values w
      · rw [hg.exitsAt_of_words hw]
        exact List.pairwise_singleton _ _
      · rw [hg.exitsAt_of_not_words hw]
        exact .nil
  refine ⟨S', hgrow.pool, hn', hgrow.sound, hw, h.ends.merge (hg.endsAtTerminator hv) he, ?_, ?_, ?_, ?_, ?_⟩
  · intro w
    show Automaton.exitsAt ((Automaton.mergeWith gate.automaton g.automaton).run p).1 w = _
    rw [hexits, h.exits, List.flatMap_append, List.flatMap_singleton]
  · show union gate.tests g.tests = _
    rw [union_tests h.testLabels (fun u hu => hlo.trans (hg.labels u hu).1) hg.sorted, h.tests,
      List.flatMap_append, List.flatMap_singleton]
  · show (gate.hasNumbers || g.hasNumbers) = _
    rw [h.hasNumbers, List.any_append, List.any_cons, List.any_nil, Bool.or_false]
  · intro w j hj
    change j ∈ Automaton.exitsAt ((Automaton.mergeWith gate.automaton g.automaton).run p).1 w at hj
    rw [hexits] at hj
    rcases List.mem_append.mp hj with hj | hj
    · have := h.exitLabels w j hj
      show j.label < ((Automaton.mergeWith gate.automaton g.automaton).run p).2.next
      omega
    · exact Nat.lt_of_lt_of_le ((single hg hv hl.2).exitLabels w j hj) hn'
  · intro t ht
    change t ∈ union gate.tests g.tests at ht
    rw [union_tests h.testLabels (fun u hu => hlo.trans (hg.labels u hu).1) hg.sorted] at ht
    show t.label < ((Automaton.mergeWith gate.automaton g.automaton).run p).2.next
    rcases List.mem_append.mp ht with ht | ht
    · have := h.testLabels t ht
      omega
    · exact Nat.lt_of_lt_of_le (hg.labels t ht).2 hn'

end Joins

/-! ## The root -/

/-- The gate for a path; nothing passes it if there is no branch. -/
def Junction.gateAt (j : Junction ι) (path : String) : Gate ι := (j.gate? path).getD .empty

theorem Junction.pass_eq (j : Junction ι) (path : String) (v : Bytes) : j.pass path v = (j.gateAt path).pass v := by
  rw [pass, gateAt]
  cases j.gate? path with
  | some g => rfl
  | none =>
    show [] = Automaton.run (RangeTable.empty : Automaton (Junction ι)) _ ++ []
    rw [Automaton.run_eq Automaton.endsAtTerminator_empty, Automaton.exitsAt_empty, List.nil_append]

/-- The gates for a path among the first gates of some patterns. -/
def gatesFor (path : String) (firsts : List (String × Gate ι)) : List (Gate ι) :=
  (firsts.filter fun b => b.1 == path).map Prod.snd

/-- The root's gates join the first gates of the patterns added so far. -/
structure RootOk (S : Set (State (Junction ι))) (n : Nat) (root : Junction ι)
    (firsts : List (String × Gate ι)) : Prop where
  pool : Pool S n
  label : root.label < n
  gates : ∀ path, Joins S n (root.gateAt path) (gatesFor path firsts)

/-- A junction with a new label is not the root. -/
theorem RootOk.beq_eq_false {S : Set (State (Junction ι))} {n : Nat} {root j : Junction ι}
    {firsts : List (String × Gate ι)} (h : RootOk S n root firsts) (hl : n ≤ j.label) : (root == j) = false :=
  beq_false_of_ne (α := Nat) (Nat.ne_of_lt (Nat.lt_of_lt_of_le h.label hl))

theorem lookup_addBranch_ne {path path' : String} (hne : path ≠ path') (gate : Gate ι) :
    ∀ (branches : List (String × Gate ι)) (p : MergePass (Junction ι)),
      (((Junction.addBranch path gate branches).run p).1.lookup path') = branches.lookup path'
  | [], p => by
    show [(path, gate)].lookup path' = none
    rw [List.lookup_cons, beq_false_of_ne hne.symm]
    rfl
  | (q, g) :: rest, p => by
    rw [Junction.addBranch]
    by_cases hq : q = path
    · rw [if_pos hq]
      show List.lookup path' ((q, _) :: rest) = _
      rw [List.lookup_cons, List.lookup_cons, hq, beq_false_of_ne hne.symm]
    · rw [if_neg hq]
      show List.lookup path' ((q, g) :: ((Junction.addBranch path gate rest).run p).1) = _
      rw [List.lookup_cons, List.lookup_cons, lookup_addBranch_ne hne gate rest p]

theorem addBranch_run (path : String) (gate : Gate ι) :
    ∀ (branches : List (String × Gate ι)) (p : MergePass (Junction ι)),
      let r := (Junction.addBranch path gate branches).run p
      (branches.lookup path = none ∧ r.1.lookup path = some gate ∧ r.2 = p) ∨
        ∃ g, branches.lookup path = some g ∧ r.1.lookup path = some ((g.mergeWith gate).run p).1 ∧
          r.2 = ((g.mergeWith gate).run p).2
  | [], p => .inl ⟨rfl, List.lookup_cons_self, rfl⟩
  | (q, g) :: rest, p => by
    rw [Junction.addBranch]
    by_cases hq : q = path
    · rw [if_pos hq, hq]
      exact .inr ⟨g, List.lookup_cons_self, List.lookup_cons_self, rfl⟩
    · have hb : (path == q) = false := beq_false_of_ne fun e => hq e.symm
      rw [if_neg hq, List.lookup_cons, hb]
      rcases addBranch_run path gate rest p with ⟨h₁, h₂, h₃⟩ | ⟨g', h₁, h₂, h₃⟩
      · refine .inl ⟨h₁, ?_, h₃⟩
        show List.lookup path ((q, g) :: ((Junction.addBranch path gate rest).run p).1) = _
        rw [List.lookup_cons, hb]
        exact h₂
      · refine .inr ⟨g', h₁, ?_, h₃⟩
        show List.lookup path ((q, g) :: ((Junction.addBranch path gate rest).run p).1) = _
        rw [List.lookup_cons, hb]
        exact h₂

theorem gatesFor_append_self (path : String) (gate : Gate ι) (firsts : List (String × Gate ι)) :
    gatesFor path (firsts ++ [(path, gate)]) = gatesFor path firsts ++ [gate] := by
  simp [gatesFor]

theorem gatesFor_append_ne {path path' : String} (hne : path ≠ path') (gate : Gate ι)
    (firsts : List (String × Gate ι)) : gatesFor path' (firsts ++ [(path, gate)]) = gatesFor path' firsts := by
  simp [gatesFor, hne]

/-- Merging in another junction with a single branch. -/
theorem Junction.mergeWith_run [BEq ι] {root j : Junction ι} {path : String} {g : Gate ι}
    (hne : (root == j) = false) (hb : j.branches = [(path, g)]) (n : Nat) :
    (Automaton.withFreshMemo (root.mergeWith j)).run n =
      (let r := (Junction.addBranch path g root.branches).run ⟨n, ∅⟩
       (Junction.mk r.2.next r.1 (union root.complete j.complete), r.2.next + 1)) := by
  show (let r := (Junction.mergeWith root j).run ⟨n, ∅⟩; (r.1, r.2.next)) = _
  rw [Junction.mergeWith, hne, if_neg Bool.false_ne_true, hb]
  rfl

/-- Merging a chain into the root. -/
theorem RootOk.mergeWith [BEq ι] {S S' : Set (State (Junction ι))} {n n' : Nat} {root j : Junction ι}
    {firsts : List (String × Gate ι)} (h : RootOk S n root firsts) (hS : S ⊆ S') (hp : Pool S' n')
    {id : ι} {gates : List (String × Gate ι)} {f : PatternField} {fields : List PatternField}
    {preds : List (List Predicate)} (hc : ChainOk S' n n' id j gates (f :: fields) preds) (hv : f.Proper) :
    let r := (Automaton.withFreshMemo (root.mergeWith j)).run n'
    ∃ S'', S' ⊆ S'' ∧ n' ≤ r.2 ∧ RootOk S'' r.2 r.1 (firsts ++ gates.take 1) := by
  cases hc with
  | @field _ next g _ _ _ ps _ _ hb hl hlt hg hcn =>
    have hne := h.beq_eq_false hl
    have hn : n ≤ n' := Nat.le_of_lt (Nat.lt_of_le_of_lt hl hlt)
    have hroot := fun path => (h.gates path).mono hS (Nat.le_refl n)
    rw [Junction.mergeWith_run hne hb]
    -- The gate of the chain's path is merged or comes new; the others stay.
    suffices hmerged : ∀ r, (Junction.addBranch f.path g root.branches).run ⟨n', ∅⟩ = r →
        ∃ S'', S' ⊆ S'' ∧ n' ≤ r.2.next ∧ Pool S'' r.2.next ∧
          Joins S'' r.2.next ((r.1.lookup f.path).getD .empty) (gatesFor f.path firsts ++ [g]) by
      obtain ⟨S'', hS', hle, hp', hj⟩ := hmerged _ rfl
      refine ⟨S'', hS', Nat.le_succ_of_le hle, hp'.mono (Nat.le_succ _), Nat.lt_succ_self _, fun path => ?_⟩
      show Joins S'' _ ((List.lookup path ((Junction.addBranch f.path g root.branches).run ⟨n', ∅⟩).1).getD
        .empty) _
      by_cases he : f.path = path
      · subst he
        rw [show List.take 1 ((f.path, g) :: _) = [(f.path, g)] from rfl, gatesFor_append_self]
        exact hj.mono subset_rfl (Nat.le_succ _)
      · rw [show List.take 1 ((f.path, g) :: _) = [(f.path, g)] from rfl, gatesFor_append_ne he,
          lookup_addBranch_ne he]
        exact (hroot path).mono hS' (hn.trans (Nat.le_succ_of_le hle))
    rintro r rfl
    have hj := hroot f.path
    rw [Junction.gateAt, Junction.gate?] at hj
    rcases addBranch_run f.path g root.branches ⟨n', ∅⟩ with ⟨h₁, h₂, h₃⟩ | ⟨own, h₁, h₂, h₃⟩
    · rw [h₁] at hj
      rw [h₂, h₃]
      exact ⟨S', subset_rfl, Nat.le_refl _, hp,
        (hj.mono subset_rfl hn).after_empty (Joins.single hg hv.2 hcn.label.2)⟩
    · rw [h₁] at hj
      rw [h₂, h₃]
      obtain ⟨S'', hS', hle, hp', hj'⟩ := Joins.mergeWith hj hg hv.2 (Nat.le_refl n) hcn.label (.start hp) rfl
      exact ⟨S'', hS', hle, hp'.pool, hj'⟩

end EventMatch
