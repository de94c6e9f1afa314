import EventMatch.Proofs.Matcher.Alone
import EventMatch.Proofs.Numeric.Clause
import EventMatch.Proofs.Numeric.Intervals

/-!
# Values that cannot be compiled

`ValueSpec.Compilable` says which values a gate can be made of, and `ValueSpec.Fault` what
is wrong with each of the others. A step of compiling that `GoesThrough` some values fails
at the first of them that cannot be compiled and as this does (`FirstFault`), or else
succeeds. So does the chain of a pattern with the values in the order of `compileOrder`
(`Junction.goesThrough_ofPattern`). The spec parser is asked once for each extension met;
how often it was asked before is all that a value depends on.
-/

namespace EventMatch

open Compile

variable {ι α γ : Type}

/-! ## Clauses without intervals -/

theorem NumericConstraint.intervals_eq_error {c : NumericConstraint} (hexact : c.relation ≠ .near)
    {e : MatchError} : c.intervals = .error e ↔ Numeral.canonical c.numeral.spelling = .error e := by
  rw [intervals, Numeral.key]
  cases hc : Numeral.canonical c.numeral.spelling with
  | error e' => exact ⟨fun h => congrArg _ (Except.error.inj h), fun h => congrArg _ (Except.error.inj h)⟩
  | ok digits =>
    refine iff_of_false (fun h => ?_) (by simp)
    cases hr : c.relation with
    | near => exact hexact hr
    | less | greater | atMost | atLeast | equal | unequal =>
      rw [hr] at h
      cases h

theorem NumericConstraint.exists_intervals_iff_canonical {c : NumericConstraint} (hexact : c.relation ≠ .near) :
    (∃ is, c.intervals = .ok is) ↔ ∃ digits, Numeral.canonical c.numeral.spelling = .ok digits := by
  constructor
  · rintro ⟨is, h⟩
    exact ⟨_, Numeral.canonical_spelling_of_hasKey (intervals_eq_ok h).1.hasKey⟩
  · rintro ⟨digits, h⟩
    exact exists_intervals ⟨hexact, Numeral.hasKey_of_canonical h⟩

/-- What the intervals are intersected with does not matter for whether there are any. -/
theorem NumericClause.foldlM_intervals_eq_error {e : MatchError} : ∀ {cs : List NumericConstraint}
    {acc : List KeyInterval}, cs.foldlM (fun acc k => k.intervals.map (KeyInterval.intersect acc)) acc = .error e ↔
      cs.mapM NumericConstraint.intervals = .error e
  | [], acc => iff_of_false nofun nofun
  | c :: cs, acc => by
    rw [List.foldlM_cons, List.mapM_cons]
    cases c.intervals with
    | error e' => exact ⟨fun h => congrArg _ (Except.error.inj h), fun h => congrArg _ (Except.error.inj h)⟩
    | ok is =>
      have hrest : (do let js ← cs.mapM NumericConstraint.intervals; pure (is :: js)) = Except.error e ↔
          cs.mapM NumericConstraint.intervals = .error e := by
        cases cs.mapM NumericConstraint.intervals <;> simp [bind, Except.bind, pure, Except.pure]
      exact foldlM_intervals_eq_error.trans hrest.symm

/-- The intervals of an exact clause fail as the first argument without a key does. -/
theorem NumericClause.intervals_eq_error {c : NumericClause} (hexact : c.isApproximate = false) {e : MatchError} :
    c.intervals = .error e ↔ ∃ front t back, c.constraints = front ++ t :: back ∧
      (∀ u ∈ front, ∃ digits, Numeral.canonical u.numeral.spelling = .ok digits) ∧
      Numeral.canonical t.numeral.spelling = .error e := by
  rw [isApproximate_eq_false] at hexact
  rw [intervals, foldlM_intervals_eq_error, Except.mapM_eq_error]
  refine exists_congr fun front => exists_congr fun t => exists_congr fun back => and_congr_right fun hc => ?_
  rw [hc] at hexact
  refine and_congr (forall₂_congr fun u hu => ?_) ?_
  · exact NumericConstraint.exists_intervals_iff_canonical (hexact u (List.mem_append_left _ hu))
  · exact NumericConstraint.intervals_eq_error
      (hexact t (List.mem_append_right _ List.mem_cons_self))

/-! ## One value -/

namespace ValueSpec

/-- How many specs the value asks a parser about. -/
def specs : ValueSpec → Nat
  | extension _ => 1
  | literal _ | number _ | numeric _ => 0

/-- A gate can be made of the value by a parser that was asked so often before: the arguments
of an exact clause are numbers with keys, and the parser accepts the spec of an extension. -/
def Compilable (parser : Option SpecParser) (asked : Nat) : ValueSpec → Prop
  | literal _ | number _ => True
  | numeric c => c.isApproximate = false →
      ∀ t ∈ c.constraints, ∃ digits, Numeral.canonical t.numeral.spelling = .ok digits
  | extension spec => ∃ p accepts, parser = some p ∧ p.parse asked (Bytes.ofString spec) = .ok accepts

/-- What is wrong with a value of which no gate can be made. -/
inductive Fault (parser : Option SpecParser) (asked : Nat) : ValueSpec → MatchError → Prop
  /-- The first argument of an exact clause that is no number with a key. -/
  | argument {front back : List NumericConstraint} {t : NumericConstraint} {e : MatchError}
      (hexact : (NumericClause.mk (front ++ t :: back)).isApproximate = false)
      (hfront : ∀ u ∈ front, ∃ digits, Numeral.canonical u.numeral.spelling = .ok digits)
      (h : Numeral.canonical t.numeral.spelling = .error e) :
      Fault parser asked (.numeric ⟨front ++ t :: back⟩) e
  | noParser (spec : String) (h : parser = none) : Fault parser asked (.extension spec) (.spec .noParser)
  /-- An error of the parser that is not about specs is reported as one. -/
  | refused {p : SpecParser} {spec : String} {e : MatchError} (hp : parser = some p)
      (h : p.parse asked (Bytes.ofString spec) = .error e) :
      Fault parser asked (.extension spec) (if e.kind = .extension then e else .parsingSpec spec e)

variable {parser : Option SpecParser} {asked : Nat}

theorem compilable_numeric_iff {c : NumericClause} (hexact : c.isApproximate = false) :
    (numeric c).Compilable parser asked ↔ ∃ is, c.intervals = .ok is := by
  rw [NumericClause.exists_intervals_iff]
  have hne := NumericClause.isApproximate_eq_false.mp hexact
  refine ⟨fun h t ht => ⟨hne t ht, ?_⟩, fun h _ t ht => ⟨_, Numeral.canonical_spelling_of_hasKey (h t ht).hasKey⟩⟩
  obtain ⟨digits, hd⟩ := h hexact t ht
  exact Numeral.hasKey_of_canonical hd

theorem compilable_or_fault (parser : Option SpecParser) (asked : Nat) : ∀ v : ValueSpec,
    v.Compilable parser asked ∨ ∃ e, v.Fault parser asked e
  | literal _ | number _ => .inl trivial
  | numeric c => by
    by_cases happrox : c.isApproximate = true
    · exact .inl fun hexact => by rw [happrox] at hexact; cases hexact
    · have hexact := Bool.eq_false_of_not_eq_true happrox
      cases hc : c.intervals with
      | ok is => exact .inl ((compilable_numeric_iff hexact).mpr ⟨is, hc⟩)
      | error e =>
        obtain ⟨front, t, back, hcs, hfront, ht⟩ := (NumericClause.intervals_eq_error hexact).mp hc
        obtain ⟨_⟩ := c
        obtain rfl := hcs
        exact .inr ⟨e, .argument hexact hfront ht⟩
  | extension spec => by
    cases parser with
    | none => exact .inr ⟨_, .noParser spec rfl⟩
    | some p =>
      cases hp : p.parse asked (Bytes.ofString spec) with
      | ok accepts => exact .inl ⟨p, accepts, rfl, hp⟩
      | error e => exact .inr ⟨_, .refused rfl hp⟩

/-- What a parser is asked for a value does not matter if it answers by the spec alone. -/
theorem compilable_congr (hparser : ∀ p, parser = some p → p.AnswersBySpec) (asked' : Nat) {v : ValueSpec}
    (h : v.Compilable parser asked) : v.Compilable parser asked' := by
  cases v with
  | literal _ | number _ => trivial
  | numeric c => exact h
  | extension spec =>
    obtain ⟨p, accepts, hp, ha⟩ := h
    exact ⟨p, accepts, hp, (hparser p hp asked' asked _).trans ha⟩

end ValueSpec

/-! ## Values in order -/

variable {parser : Option SpecParser} {asked : Nat}

/-- How many specs the values ask a parser about. -/
def specsOf (values : List ValueSpec) : Nat := (values.map ValueSpec.specs).sum

theorem specsOf_cons (v : ValueSpec) (vs : List ValueSpec) : specsOf (v :: vs) = v.specs + specsOf vs := rfl

theorem specsOf_append (vs ws : List ValueSpec) : specsOf (vs ++ ws) = specsOf vs + specsOf ws := by
  rw [specsOf, List.map_append, List.sum_append]
  rfl

/-- Gates can be made of the values, one after the other. -/
def AllCompilable (parser : Option SpecParser) : Nat → List ValueSpec → Prop
  | _, [] => True
  | asked, v :: vs => v.Compilable parser asked ∧ AllCompilable parser (asked + v.specs) vs

/-- The fault of the first of the values that cannot be compiled. -/
inductive FirstFault (parser : Option SpecParser) : Nat → List ValueSpec → MatchError → Prop
  | here {asked : Nat} {v : ValueSpec} {e : MatchError} (vs : List ValueSpec) (h : v.Fault parser asked e) :
      FirstFault parser asked (v :: vs) e
  | later {asked : Nat} {v : ValueSpec} {vs : List ValueSpec} {e : MatchError} (hv : v.Compilable parser asked)
      (h : FirstFault parser (asked + v.specs) vs e) : FirstFault parser asked (v :: vs) e

theorem allCompilable_or_firstFault (parser : Option SpecParser) : ∀ (values : List ValueSpec) (asked : Nat),
    AllCompilable parser asked values ∨ ∃ e, FirstFault parser asked values e
  | [], _ => .inl trivial
  | v :: vs, asked => by
    rcases v.compilable_or_fault parser asked with hv | ⟨e, he⟩
    · rcases allCompilable_or_firstFault parser vs (asked + v.specs) with hvs | ⟨e, he⟩
      · exact .inl ⟨hv, hvs⟩
      · exact .inr ⟨e, .later hv he⟩
    · exact .inr ⟨e, .here vs he⟩

theorem allCompilable_append : ∀ {vs ws : List ValueSpec} {asked : Nat}, AllCompilable parser asked (vs ++ ws) ↔
    AllCompilable parser asked vs ∧ AllCompilable parser (asked + specsOf vs) ws
  | [], ws, asked => (and_iff_right trivial).symm
  | v :: vs, ws, asked => by
    rw [List.cons_append, AllCompilable, allCompilable_append, AllCompilable, and_assoc, specsOf_cons, Nat.add_assoc]

theorem firstFault_append {e : MatchError} : ∀ {vs ws : List ValueSpec} {asked : Nat},
    FirstFault parser asked (vs ++ ws) e → FirstFault parser asked vs e ∨
      AllCompilable parser asked vs ∧ FirstFault parser (asked + specsOf vs) ws e
  | [], ws, asked, h => .inr ⟨trivial, h⟩
  | v :: vs, ws, asked, h => by
    cases h with
    | here _ h => exact .inl (.here vs h)
    | later hv h =>
      rcases firstFault_append h with h | ⟨hvs, h⟩
      · exact .inl (.later hv h)
      · rw [Nat.add_assoc, ← specsOf_cons] at h
        exact .inr ⟨⟨hv, hvs⟩, h⟩

/-- With a parser that answers by the spec alone, the order of the values does not matter for
whether they can be compiled. -/
theorem allCompilable_iff_forall (hparser : ∀ p, parser = some p → p.AnswersBySpec) :
    ∀ {values : List ValueSpec} {asked : Nat},
      AllCompilable parser asked values ↔ ∀ v ∈ values, ∀ n, v.Compilable parser n
  | [], _ => iff_of_true trivial nofun
  | v :: vs, asked => by
    rw [AllCompilable, List.forall_mem_cons, allCompilable_iff_forall hparser]
    exact and_congr_left' ⟨fun h n => ValueSpec.compilable_congr hparser n h, fun h => h asked⟩

/-! ## Steps that go through values -/

/-- The step gives something if all the values can be compiled, and fails as the first that
cannot. -/
structure Compile.GoesThrough (parser : Option SpecParser) (values : List ValueSpec) (x : Compile α) : Prop where
  ok : ∀ s, AllCompilable parser s.asked values →
    ∃ a t, x.exec s = (.ok a, t) ∧ t.asked = s.asked + specsOf values
  error : ∀ s e, FirstFault parser s.asked values e → ∃ t, x.exec s = (.error e, t)

namespace Compile.GoesThrough

theorem pure (a : α) : GoesThrough parser [] (Pure.pure a : Compile α) where
  ok := fun s _ => ⟨a, s, rfl, rfl⟩
  error := fun _ _ h => nomatch h

theorem bind {x : Compile α} {f : α → Compile γ} {vs ws : List ValueSpec} (hx : GoesThrough parser vs x)
    (hf : ∀ a, GoesThrough parser ws (f a)) : GoesThrough parser (vs ++ ws) (x >>= f) where
  ok := by
    intro s h
    obtain ⟨hvs, hws⟩ := allCompilable_append.mp h
    obtain ⟨a, t, ha, ht⟩ := hx.ok s hvs
    obtain ⟨c, u, hc, hu⟩ := (hf a).ok t (ht ▸ hws)
    exact ⟨c, u, (exec_bind_ok ha).trans hc, by rw [hu, ht, specsOf_append, Nat.add_assoc]⟩
  error := by
    intro s e h
    rcases firstFault_append h with h | ⟨hvs, hws⟩
    · obtain ⟨t, ht⟩ := hx.error s e h
      exact ⟨t, exec_bind_error ht⟩
    · obtain ⟨a, t, ha, ht⟩ := hx.ok s hvs
      obtain ⟨u, hu⟩ := (hf a).error t e (ht ▸ hws)
      exact ⟨u, (exec_bind_ok ha).trans hu⟩

/-- A step after which nothing is compiled any more. -/
theorem bind_nil {x : Compile α} {f : α → Compile γ} {vs : List ValueSpec} (hx : GoesThrough parser vs x)
    (hf : ∀ a, GoesThrough parser [] (f a)) : GoesThrough parser vs (x >>= f) :=
  List.append_nil vs ▸ hx.bind hf

theorem fresh (x : Fresh α) : GoesThrough parser [] (.fresh x) where
  ok := fun s _ => ⟨_, _, exec_fresh x s, rfl⟩
  error := fun _ _ h => nomatch h

/-- A step that one value is compiled in. -/
theorem singleton {v : ValueSpec} {x : Compile α}
    (hok : ∀ s, v.Compilable parser s.asked → ∃ a t, x.exec s = (.ok a, t) ∧ t.asked = s.asked + v.specs)
    (herror : ∀ s e, v.Fault parser s.asked e → ∃ t, x.exec s = (.error e, t)) : GoesThrough parser [v] x where
  ok := fun s h => hok s h.1
  error := fun s e h => by
    cases h with
    | here _ h => exact herror s e h
    | later _ h => cases h

theorem foldlM {f : γ → ValueSpec → Compile γ} (hf : ∀ c v, GoesThrough parser [v] (f c v)) :
    ∀ (values : List ValueSpec) (c : γ), GoesThrough parser values (values.foldlM f c)
  | [], c => .pure c
  | v :: vs, c => by
    rw [List.foldlM_cons]
    exact (hf c v).bind fun c => foldlM hf vs c

theorem exists_ok_iff {x : Compile α} {values : List ValueSpec} (hx : GoesThrough parser values x) {s : Supply} :
    (∃ a t, x.exec s = (.ok a, t)) ↔ AllCompilable parser s.asked values := by
  refine ⟨fun ⟨a, t, h⟩ => ?_, fun h => ?_⟩
  · refine (allCompilable_or_firstFault parser values s.asked).resolve_right fun ⟨e, he⟩ => ?_
    obtain ⟨u, hu⟩ := hx.error s e he
    rw [h] at hu
    cases hu
  · obtain ⟨a, t, h, -⟩ := hx.ok s h
    exact ⟨a, t, h⟩

theorem exists_error_iff {x : Compile α} {values : List ValueSpec} (hx : GoesThrough parser values x) {s : Supply}
    {e : MatchError} : (∃ t, x.exec s = (.error e, t)) ↔ FirstFault parser s.asked values e := by
  refine ⟨fun ⟨t, h⟩ => ?_, hx.error s e⟩
  rcases allCompilable_or_firstFault parser values s.asked with hall | ⟨e', he⟩
  · obtain ⟨a, u, hu, -⟩ := hx.ok s hall
    rw [h] at hu
    cases hu
  · obtain ⟨u, hu⟩ := hx.error s e' he
    rw [h] at hu
    cases hu
    exact he

end Compile.GoesThrough

/-! ## Compiling -/

theorem SpecParser.goesThrough_predicate (parser : Option SpecParser) (spec : String) :
    GoesThrough parser [.extension spec] (SpecParser.predicate parser spec) := by
  refine .singleton (fun s h => ?_) fun s e h => ?_
  · obtain ⟨p, accepts, rfl, h⟩ := h
    exact ⟨accepts, _, by rw [SpecParser.exec_predicate, h], rfl⟩
  · cases h with
    | noParser _ h =>
      subst h
      exact ⟨s, rfl⟩
    | refused hp h =>
      subst hp
      exact ⟨_, by rw [SpecParser.exec_predicate, h]⟩

theorem GateDraft.goesThrough_addValue (parser : Option SpecParser) (next : Junction ι) (d : GateDraft ι)
    (v : ValueSpec) : GoesThrough parser [v] (d.addValue parser next v) := by
  cases v with
  | literal text =>
    rw [addValue]
    exact .singleton (fun s _ => ⟨_, _, exec_fresh _ s, rfl⟩) fun _ _ h => by cases h
  | number digits =>
    rw [addValue]
    exact .singleton (fun s _ => ⟨_, _, exec_fresh _ s, rfl⟩) fun _ _ h => by cases h
  | numeric c =>
    rw [addValue]
    by_cases happrox : c.isApproximate = true
    · rw [if_pos happrox]
      refine .singleton (fun s _ => ⟨_, _, exec_fresh _ s, rfl⟩) fun s e h => ?_
      cases h with
      | argument hexact => rw [happrox] at hexact; cases hexact
    · rw [if_neg happrox]
      have hexact := Bool.eq_false_of_not_eq_true happrox
      refine .singleton (fun s h => ?_) fun s e h => ?_
      · obtain ⟨is, his⟩ := (ValueSpec.compilable_numeric_iff hexact).mp h
        rw [his, ofExcept_ok, pure_bind]
        exact ⟨_, _, exec_fresh _ s, rfl⟩
      · cases h with
        | argument _ hfront ht =>
          rw [(NumericClause.intervals_eq_error hexact).mpr ⟨_, _, _, rfl, hfront, ht⟩]
          exact ⟨s, rfl⟩
  | extension spec =>
    rw [addValue]
    exact (SpecParser.goesThrough_predicate parser spec).bind_nil fun _ => .fresh _

theorem Gate.goesThrough_ofValues (parser : Option SpecParser) (values : List ValueSpec) (next : Junction ι) :
    GoesThrough parser values (Gate.ofValues parser values next) :=
  (GoesThrough.foldlM (GateDraft.goesThrough_addValue parser next) values _).bind_nil fun _ => .pure _

/-- The values in the order in which they are compiled: the last field's come first. -/
def Pattern.compileOrder (fields : List PatternField) : List ValueSpec := fields.reverse.flatMap (·.values)

theorem Pattern.compileOrder_cons (f : PatternField) (fields : List PatternField) :
    compileOrder (f :: fields) = compileOrder fields ++ f.values := by
  rw [compileOrder, List.reverse_cons, List.flatMap_append, List.flatMap_singleton]
  rfl

theorem Pattern.mem_compileOrder {fields : List PatternField} {v : ValueSpec} :
    v ∈ compileOrder fields ↔ ∃ f ∈ fields, v ∈ f.values := by
  simp only [compileOrder, List.mem_flatMap, List.mem_reverse]

/-- The chain of a pattern is built from the last field's values to the first's. -/
theorem Junction.goesThrough_ofPattern (parser : Option SpecParser) (id : ι) (fields : List PatternField) :
    GoesThrough parser (Pattern.compileOrder fields) (Junction.ofPattern parser id fields) := by
  have hchain : ∀ last : Junction ι, GoesThrough parser (Pattern.compileOrder fields)
      (fields.foldrM (fun f next => do
        let gate ← Gate.ofValues parser f.values next
        .fresh (Junction.branching f.path gate)) last) := fun last => by
    induction fields with
    | nil => exact .pure last
    | cons f fields ih =>
      rw [List.foldrM_cons, Pattern.compileOrder_cons]
      exact ih.bind fun next => (Gate.goesThrough_ofValues parser f.values next).bind_nil fun _ => .fresh _
  exact (GoesThrough.fresh _).bind hchain

end EventMatch
