import EventMatch.Proofs.Matcher.RawBytes
import EventMatch.Proofs.Numeric.Words

/-!
# What a field's values accept

Each value of a field says which bytes it accepts (`ValueSpec.Accepts`): a literal its
text, a number the spellings of numbers with its key, an exact clause the spellings whose
keys stand in its relations. In the gate that the values are compiled to, one automaton
stands for all of them, and whether it is looked up by keys depends on the others; yet it
leads on, once, just if some value accepts. After the automaton come the tests, one for each
approximate clause and extension in the order of the list (`Predicates`,
`Gate.pass_ofValues`).
-/

namespace EventMatch

open Numeral

/-! ## Values one by one -/

/-- What the automaton's part of a value accepts. -/
def ValueSpec.Accepts (v : Bytes) : ValueSpec → Prop
  | literal text =>
    (isNumeral v = false ∧ v = text) ∨ isNumeral v = true ∧ (∃ e, canonical v = .error e) ∧ plainText v = text
  | number digits => canonical v = .ok digits
  | numeric c => c.isApproximate = false ∧ ∃ k, key v = .ok k ∧
      ∀ t ∈ c.constraints, ∃ a, key t.numeral.spelling = .ok a ∧ t.relation.Compares k a
  | extension _ => False

theorem ValueSpec.accepts_numeric_spelling {c : NumericClause} {n : Numeral} :
    (numeric c).Accepts n.spelling ↔ n.HasKey ∧ c.KeyHolds n.keyOf := by
  have hiff : ∀ k, (∀ t ∈ c.constraints, ∃ a, key t.numeral.spelling = .ok a ∧ t.relation.Compares k a) ↔
      c.KeyHolds k := fun k => forall₂_congr fun t _ => NumericConstraint.keyHolds_iff.symm
  constructor
  · rintro ⟨-, k, hk, hall⟩
    obtain ⟨hkey, rfl⟩ := key_spelling_eq_ok.mp hk
    exact ⟨hkey, (hiff _).mp hall⟩
  · rintro ⟨hkey, hholds⟩
    have hexact : c.isApproximate = false :=
      NumericClause.isApproximate_eq_false.mpr fun t ht => (hholds t ht).keyed.exact
    exact ⟨hexact, _, key_spelling_of_hasKey hkey, (hiff _).mpr hholds⟩

section

variable {values : List ValueSpec} (hp : ∀ s ∈ values, s.Proper)

include hp

/-- A spelling fits among values if one of them accepts it. -/
theorem numberFits_iff_accepts (n : Numeral) : NumberFits values n ↔ ∃ s ∈ values, s.Accepts n.spelling := by
  have hnum := n.isNumeral_spelling
  constructor
  · rintro (⟨hkey, hs | ⟨c, k, hs, hk, hholds, hds⟩⟩ | hs)
    · exact ⟨_, hs, canonical_spelling_of_hasKey hkey⟩
    · obtain rfl := lastDigits_inj hkey.keyOf_lt (lt_pow_keyWidth.mpr hk) hds
      exact ⟨_, hs, ValueSpec.accepts_numeric_spelling.mpr ⟨hkey, hholds⟩⟩
    · -- A proper literal is not the plain text of a number with a key.
      have hkey : ¬ n.HasKey := fun h => (hp _ hs).2 n rfl _ (canonical_spelling_of_hasKey h)
      obtain ⟨e, he⟩ := canonical_error_of_not_hasKey hkey
      exact ⟨_, hs, .inr ⟨hnum, ⟨_, he⟩, rfl⟩⟩
  · rintro ⟨s, hs, hacc⟩
    cases s with
    | literal text =>
      rcases hacc with ⟨hfalse, -⟩ | ⟨-, -, rfl⟩
      · rw [hnum] at hfalse
        cases hfalse
      · exact .inr hs
    | number ds =>
      have hds : canonical n.spelling = .ok ds := hacc
      have hkey := hasKey_of_canonical hds
      rw [canonical_spelling_of_hasKey hkey] at hds
      rw [← Except.ok.inj hds] at hs
      exact .inl ⟨hkey, .inl hs⟩
    | numeric c =>
      obtain ⟨hkey, hholds⟩ := ValueSpec.accepts_numeric_spelling.mp hacc
      exact .inl ⟨hkey, .inr ⟨c, _, hs, hkey.keyOf_le_maxKey, hholds, rfl⟩⟩
    | extension _ => exact hacc.elim

end

/-- Bytes that are no numeral are accepted by literals only. -/
theorem accepts_of_not_isNumeral {v : Bytes} (hv : isNumeral v = false) {values : List ValueSpec} :
    (∃ s ∈ values, s.Accepts v) ↔ .literal v ∈ values := by
  have hparse : parse? v = none := by
    rwa [isNumeral, Option.isSome_eq_false_iff, Option.isNone_iff_eq_none] at hv
  have hcanonical : ∀ ds, canonical v ≠ .ok ds := fun ds hds => by
    rw [canonical, hparse] at hds
    cases hds
  constructor
  · rintro ⟨s, hs, hacc⟩
    cases s with
    | literal text =>
      rcases hacc with ⟨-, rfl⟩ | ⟨htrue, -⟩
      · exact hs
      · rw [hv] at htrue
        cases htrue
    | number ds => exact absurd hacc (hcanonical ds)
    | numeric c =>
      obtain ⟨-, k, hk, -⟩ := hacc
      obtain ⟨ds, hds, -⟩ := Except.map_eq_ok.mp hk
      exact absurd hds (hcanonical ds)
    | extension _ => exact hacc.elim
  · exact fun hs => ⟨_, hs, .inl ⟨hv, rfl⟩⟩

/-- Bytes without a terminator and a mark reach values just if one of them accepts. -/
theorem reached_iff_accepts {values : List ValueSpec} (hp : ∀ s ∈ values, s.Proper) {v : Bytes}
    (ht : terminator ∉ v) (hm : numberMark ∉ v) : Reached values v ↔ ∃ s ∈ values, s.Accepts v := by
  cases hv : parse? v with
  | some n =>
    obtain rfl := spelling_of_parse? hv
    exact (reached_spelling hp n).trans (numberFits_iff_accepts hp n)
  | none =>
    have hnum : isNumeral v = false := by rw [isNumeral, hv]; rfl
    rw [reached_of_not_isNumeral hp hnum, accepts_of_not_isNumeral hnum, Bytes.upToTerminator_of_not_mem ht, TextFits,
      or_iff_left]
    rintro ⟨ds, rfl, -⟩
    exact hm List.mem_cons_self

/-! ## Predicates -/

/-- The predicates of the approximate clauses and the extensions of a list, in order, when the parser has been
given `asked` specs before. -/
inductive Predicates (parser : Option SpecParser) : (asked : Nat) → List ValueSpec → List Predicate → Prop where
  | nil {asked : Nat} : Predicates parser asked [] []
  | exact {asked : Nat} {v : ValueSpec} {values : List ValueSpec} {preds : List Predicate} : v.IsExact →
      Predicates parser asked values preds → Predicates parser asked (v :: values) preds
  | approximate {asked : Nat} {c : NumericClause} {values : List ValueSpec} {preds : List Predicate} :
      c.isApproximate = true → Predicates parser asked values preds →
      Predicates parser asked (.numeric c :: values) (c.predicate :: preds)
  | extension {asked : Nat} {spec : String} {p : SpecParser} {accepts : Predicate} {values : List ValueSpec}
      {preds : List Predicate} : parser = some p → p.parse asked (Bytes.ofString spec) = .ok accepts →
      Predicates parser (asked + 1) values preds →
      Predicates parser asked (.extension spec :: values) (accepts :: preds)

/-- A list has its predicates in one way only. -/
theorem Predicates.unique {parser : Option SpecParser} {asked : Nat} {values : List ValueSpec}
    {preds preds' : List Predicate} (h : Predicates parser asked values preds)
    (h' : Predicates parser asked values preds') : preds = preds' := by
  induction h generalizing preds' with
  | nil =>
    cases h'
    rfl
  | exact hv _ ih =>
    cases h' with
    | exact _ h' => exact ih h'
    | approximate hc _ => exact absurd (hc.symm.trans hv) Bool.noConfusion
    | extension _ _ _ => exact hv.elim
  | approximate hc _ ih =>
    cases h' with
    | exact hv _ => exact absurd (hc.symm.trans hv) Bool.noConfusion
    | approximate _ h' => rw [ih h']
  | extension hp hparse _ ih =>
    cases h' with
    | exact hv _ => exact hv.elim
    | extension hp' hparse' h' =>
      obtain rfl := Option.some.inj (hp.symm.trans hp')
      rw [Except.ok.inj (hparse.symm.trans hparse'), ih h']

/-- What is read for the first value of a list comes before what the rest has. -/
theorem Predicates.cons_of_readTests {parser : Option SpecParser} {v : ValueSpec} {s s' : Supply}
    {ps : List Predicate} (h : (v.readTests parser).exec s = (.ok ps, s')) {values : List ValueSpec}
    {preds : List Predicate} (hrest : Predicates parser s'.asked values preds) :
    Predicates parser s.asked (v :: values) (ps ++ preds) := by
  cases v with
  | literal _ | number _ =>
    cases h
    exact .exact trivial hrest
  | numeric c =>
    by_cases hc : c.isApproximate
    · rw [ValueSpec.readTests, if_pos hc] at h
      cases h
      exact .approximate hc hrest
    · rw [ValueSpec.readTests, if_neg hc] at h
      obtain ⟨is, t, his, hpure⟩ := Compile.exec_bind_eq_ok h
      cases hpure
      obtain rfl : s = s' := congrArg Prod.snd his
      exact .exact (Bool.eq_false_of_not_eq_true hc) hrest
  | extension spec =>
    obtain ⟨accepts, t, haccepts, hpure⟩ := Compile.exec_bind_eq_ok h
    cases hpure
    cases hparser : parser with
    | none =>
      rw [hparser] at haccepts
      cases haccepts
    | some p =>
      rw [hparser, SpecParser.exec_predicate] at haccepts
      obtain ⟨hresult, rfl⟩ := Prod.mk.inj haccepts
      cases hp : p.parse s.asked (Bytes.ofString spec) with
      | ok accepts' =>
        rw [hp] at hresult
        cases hresult
        exact .extension rfl hp (hparser ▸ hrest)
      | error e =>
        rw [hp] at hresult
        cases hresult

theorem exists_predicates_of_foldlM {parser : Option SpecParser} : ∀ {values : List ValueSpec}
    {acc preds : List Predicate} {s s' : Supply},
    (values.foldlM (fun preds v => do return preds ++ (← v.readTests parser)) acc : Compile _).exec s =
      (.ok preds, s') → ∃ more, preds = acc ++ more ∧ Predicates parser s.asked values more
  | [], acc, _, _, _, h => by
    cases h
    exact ⟨[], (List.append_nil acc).symm, .nil⟩
  | v :: values, acc, preds, s, s', h => by
    rw [List.foldlM_cons] at h
    obtain ⟨_, t, hv, hrest⟩ := Compile.exec_bind_eq_ok h
    obtain ⟨ps, _, hps, hpure⟩ := Compile.exec_bind_eq_ok hv
    cases hpure
    obtain ⟨more, rfl, hmore⟩ := exists_predicates_of_foldlM hrest
    exact ⟨ps ++ more, List.append_assoc _ _ _, .cons_of_readTests hps hmore⟩

theorem predicates_of_readTests {parser : Option SpecParser} {values : List ValueSpec} {preds : List Predicate}
    {s s' : Supply} (h : (readTests parser values).exec s = (.ok preds, s')) :
    Predicates parser s.asked values preds := by
  obtain ⟨more, rfl, hmore⟩ := exists_predicates_of_foldlM h
  exact hmore

/-! ## Gates -/

variable {ι : Type}

/-- The gate of a field's values, on bytes without a terminator and a mark. Its automaton leads on once if some
value accepts the bytes, and nowhere otherwise. Then the predicates lead on, once for each that accepts them. -/
theorem Gate.pass_ofValues (parser : Option SpecParser) (text : String) (fields : List PatternField)
    (hparse : Pattern.parse text = .ok fields) (f : PatternField) (hf : f ∈ fields) (next : Junction ι)
    (s s' : Supply) (g : Gate ι) (hg : (Gate.ofValues parser f.values next).exec s = (.ok g, s')) (v : Bytes)
    (ht : terminator ∉ v) (hm : numberMark ∉ v) :
    let reached := g.automaton.run (Gate.lookup g.hasNumbers v)
    ((∃ w ∈ f.values, w.Accepts v) → reached = [next]) ∧
      ((¬ ∃ w ∈ f.values, w.Accepts v) → reached = []) ∧
      ∃ preds, Predicates parser s.asked f.values preds ∧
        g.pass v = reached ++ (preds.filter (· v)).map fun _ => next := by
  intro reached
  have hproper := ((Pattern.proper_of_parse hparse).2 f hf).2
  rcases (ofValues_ok parser f.values next (Pool.empty s.label)).cases with
    ⟨a, preds, s₁, s₂, S, hx, hy, -, -, -, -, hgate⟩ | ⟨e, s₁, s₂, hx, -⟩
  · rw [hg] at hx
    cases hx
    have hreached : reached = g.automaton.exitsAt (lookupWord g.hasNumbers v) :=
      Automaton.run_eq (hgate.endsAtTerminator hproper) _
    have haccepts : ValuesWords f.values (lookupWord g.hasNumbers v) ↔ ∃ w ∈ f.values, w.Accepts v := by
      rw [hgate.hasNumbers]
      exact reached_iff_accepts hproper ht hm
    refine ⟨fun h => ?_, fun h => ?_, preds, predicates_of_readTests hy, ?_⟩
    · rw [hreached, hgate.exitsAt_of_words (haccepts.mpr h)]
    · rw [hreached, hgate.exitsAt_of_not_words (mt haccepts.mp h)]
    · rw [pass, hgate.map_next]
  · rw [hg] at hx
    cases hx

/-! ## A list of all kinds -/

/-- A literal, a number, an exact clause for more than one digit, an approximate one for another
and an extension. -/
def ValueSpec.allKinds (less near : Digit) : List ValueSpec :=
  [.literal (Bytes.ofString "\"a\""), .number (Bytes.ofString "1000000001000000000"),
    .numeric ⟨[.ofDigit .greater less]⟩, .numeric ⟨[.ofDigit .near near]⟩, .extension "0"]

/-- The text that has these values for its one field. -/
def Pattern.textOfAllKinds : String :=
  "\x7b\"k\":[\"a\",1,\x7b\"numeric\":[\">\",5]\x7d,\x7b\"numeric\":[\"~=\",7]\x7d,\x7b\"extension\":0\x7d]\x7d"

theorem Pattern.parse_textOfAllKinds : parse textOfAllKinds = .ok [⟨"k", ValueSpec.allKinds 5 7⟩] :=
  parse_of_unsorted (by decide +kernel) (by simp) (by simp)

/-- The number 7 passes once by the clause that asks for more than 5, once by that for about 7 and once by the
extension, which accepts everything. The string `b` passes by the extension only. -/
theorem Gate.pass_ofValues_allKinds :
    let parser := some (SpecParser.ofFunction fun _ => .ok fun _ => true)
    let next : Junction Bool := .mk 0 [] [true]
    ∃ g s', (Gate.ofValues parser (ValueSpec.allKinds 5 7) next).exec ⟨1, 0⟩ = (.ok g, s') ∧
      g.pass (Bytes.ofString "7") = [next, next, next] ∧ g.pass (Bytes.ofString "\"b\"") = [next] := by
  intro parser next
  obtain ⟨g, s', hg, -⟩ : ∃ g s', (Gate.ofValues parser (ValueSpec.allKinds 5 7) next).exec ⟨1, 0⟩ = (.ok g, s') ∧
      true = true := Compile.exists_exec_eq_ok (f := fun _ => true) (by decide +kernel)
  have hpass := Gate.pass_ofValues parser Pattern.textOfAllKinds _ Pattern.parse_textOfAllKinds _
    List.mem_cons_self next ⟨1, 0⟩ s' g hg
  have hpreds : Predicates parser 0 (ValueSpec.allKinds 5 7)
      [NumericClause.predicate ⟨[.ofDigit .near 7]⟩, fun _ => true] :=
    .exact trivial (.exact trivial (.exact rfl (.approximate rfl (.extension rfl rfl .nil))))
  refine ⟨g, s', hg, ?_, ?_⟩
  · obtain ⟨hyes, -, preds, hp, heq⟩ := hpass (Bytes.ofString "7") (by decide) (by decide)
    obtain rfl := hpreds.unique hp
    have hacc : ∃ w ∈ ValueSpec.allKinds 5 7, w.Accepts (Bytes.ofString "7") := by
      have hlt : (NumericConstraint.ofDigit .greater 5).numeral.keyOf <
          (NumericConstraint.ofDigit .equal 7).numeral.keyOf := by decide +kernel
      have hseven : Bytes.ofString "7" = (NumericConstraint.ofDigit .equal 7).numeral.spelling := by decide
      refine ⟨.numeric ⟨[.ofDigit .greater 5]⟩, by simp [ValueSpec.allKinds], ?_⟩
      rw [hseven, ValueSpec.accepts_numeric_spelling]
      exact ⟨NumericConstraint.hasKey_ofDigit _ _,
        List.forall_mem_singleton.mpr ⟨NumericConstraint.hasKey_ofDigit _ _, hlt⟩⟩
    rw [heq, hyes hacc]
    have hnear : NumericClause.predicate ⟨[.ofDigit .near 7]⟩ (Bytes.ofString "7") = true := by decide +kernel
    simp [hnear]
  · obtain ⟨-, hno, preds, hp, heq⟩ := hpass (Bytes.ofString "\"b\"") (by decide) (by decide)
    obtain rfl := hpreds.unique hp
    have hacc : ¬ ∃ w ∈ ValueSpec.allKinds 5 7, w.Accepts (Bytes.ofString "\"b\"") := by
      rw [accepts_of_not_isNumeral (by decide)]
      decide
    have hnear : NumericClause.predicate ⟨[.ofDigit .near 7]⟩ (Bytes.ofString "\"b\"") = false := by decide +kernel
    rw [heq, hno hacc]
    simp [hnear]

end EventMatch
