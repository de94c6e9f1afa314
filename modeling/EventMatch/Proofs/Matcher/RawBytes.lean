import EventMatch.Proofs.Matcher.OneField

/-!
# Raw bytes as values

A field's value may be any bytes, also the terminator and the mark of keys. What is not
a number is looked up as far as its first terminator, so it passes for a literal that it
only begins with, and the mark with a key's digits passes for a number
(`Matcher.matchFields_forged`). `Matcher.mem_matchFields_exact` says for all bytes what
passes; without the two bytes it is the literals, and the numbers that are among the
values or satisfy a clause.
-/

namespace EventMatch

open Numeral

/-! ## Values without predicates -/

/-- The value makes no predicate. -/
def ValueSpec.IsExact : ValueSpec → Prop
  | literal _ | number _ => True
  | numeric c => c.isApproximate = false
  | extension _ => False

theorem ValueSpec.IsExact.readTests_eq_nil {parser : Option SpecParser} {v : ValueSpec} (hv : v.IsExact)
    {s s' : Supply} {preds : List Predicate} (h : (v.readTests parser).exec s = (.ok preds, s')) : preds = [] := by
  cases v with
  | literal _ | number _ =>
    cases h
    rfl
  | numeric c =>
    rw [readTests, if_neg (by rw [show c.isApproximate = false from hv]; exact Bool.false_ne_true)] at h
    obtain ⟨_, _, _, hpure⟩ := Compile.exec_bind_eq_ok h
    cases hpure
    rfl
  | extension _ => exact hv.elim

theorem preds_eq_of_isExact {parser : Option SpecParser} : ∀ {values : List ValueSpec} {acc preds : List Predicate}
    {s s' : Supply}, (∀ v ∈ values, v.IsExact) →
    (values.foldlM (fun preds v => do return preds ++ (← v.readTests parser)) acc : Compile _).exec s =
      (.ok preds, s') → preds = acc
  | [], _, _, _, _, _, h => by
    cases h
    rfl
  | v :: values, acc, preds, s, s', hv, h => by
    rw [List.foldlM_cons] at h
    obtain ⟨_, t, hv', hrest⟩ := Compile.exec_bind_eq_ok h
    obtain ⟨ps, t', hps, hpure⟩ := Compile.exec_bind_eq_ok hv'
    cases hpure
    rw [(hv v List.mem_cons_self).readTests_eq_nil hps, List.append_nil] at hrest
    exact preds_eq_of_isExact (fun w hw => hv w (List.mem_cons_of_mem _ hw)) hrest

theorem testsAccept_of_isExact (parser : Option SpecParser) {values : List ValueSpec}
    (h : ∀ v ∈ values, v.IsExact) : TestsAccept parser values fun _ => False := by
  intro s preds s' hr v
  rw [preds_eq_of_isExact h hr]
  simp

/-! ## What passes -/

/-- The bytes spell a number that fits, or spell none and fit as far as their first terminator. -/
def ValueFits (values : List ValueSpec) (v : Bytes) : Prop :=
  (∃ n : Numeral, v = n.spelling ∧ NumberFits values n) ∨ isNumeral v = false ∧ TextFits values v.upToTerminator

theorem reached_iff_valueFits {values : List ValueSpec} (hp : ∀ s ∈ values, s.Proper) (v : Bytes) :
    Reached values v ↔ ValueFits values v := by
  cases hv : parse? v with
  | some n =>
    obtain rfl := spelling_of_parse? hv
    rw [reached_spelling hp, ValueFits, n.isNumeral_spelling]
    constructor
    · exact fun h => .inl ⟨n, rfl, h⟩
    · rintro (⟨m, hm, h⟩ | ⟨h, -⟩)
      · rwa [spelling_inj hm]
      · cases h
  | none =>
    have hnum : isNumeral v = false := by rw [isNumeral, hv]; rfl
    rw [reached_of_not_isNumeral hp hnum, ValueFits, or_iff_right]
    · exact (and_iff_right hnum).symm
    · rintro ⟨n, rfl, -⟩
      rw [parse?_spelling] at hv
      cases hv

/-- Bytes with neither a terminator nor a mark in front fit as literals or as numbers. -/
theorem ValueFits.literal_or_number {values : List ValueSpec} {v : Bytes} (h : ValueFits values v)
    (ht : terminator ∉ v) (hm : v.head? ≠ some numberMark) :
    .literal v ∈ values ∨ ∃ n : Numeral, v = n.spelling ∧ NumberFits values n := by
  rcases h with h | ⟨-, h⟩
  · exact .inr h
  · rw [Bytes.upToTerminator_of_not_mem ht] at h
    rcases h with h | ⟨ds, rfl, -⟩
    · exact .inl h
    · exact absurd rfl hm

variable {ι : Type} [BEq ι] [LawfulBEq ι]

/-- A pattern with one field that makes no predicates is reported for the fields of its
path of which the value fits. A value that has neither a terminator nor a mark in front
fits only if it is one of the literals, or a number that is among the values or satisfies
a clause. -/
theorem Matcher.mem_matchFields_exact (flattener : Flattener) (parser : Option SpecParser) (asked : Nat)
    (patterns : List (ι × String)) (m : Matcher ι)
    (h : (Matcher.empty flattener parser asked).addAll patterns = (.ok (), m)) (x : ι) (text : String)
    (hx : (x, text) ∈ patterns) (honly : ∀ t, (x, t) ∈ patterns → t = text) (path : String)
    (values : List ValueSpec) (hparse : Pattern.parse text = .ok [⟨path, values⟩])
    (hexact : ∀ v ∈ values, v.IsExact) (fields : List Field) :
    (x ∈ m.matchFields fields ↔ ∃ f ∈ fields, f.path = path ∧ ValueFits values f.value) ∧
      (x ∈ m.matchFields fields →
        (∀ f ∈ fields, f.path = path → terminator ∉ f.value ∧ f.value.head? ≠ some numberMark) →
        ∃ f ∈ fields, f.path = path ∧
          (.literal f.value ∈ values ∨ ∃ n : Numeral, f.value = n.spelling ∧ NumberFits values n)) := by
  have hproper := ((Pattern.proper_of_parse hparse).2 _ List.mem_cons_self).2
  have hiff : x ∈ m.matchFields fields ↔ ∃ f ∈ fields, f.path = path ∧ ValueFits values f.value := by
    rw [Matcher.mem_matchFields_oneField h hx honly hparse (testsAccept_of_isExact parser hexact)]
    simp only [or_false, reached_iff_valueFits hproper]
  refine ⟨hiff, fun hmem hclean => ?_⟩
  obtain ⟨f, hf, hpath, hfits⟩ := hiff.mp hmem
  obtain ⟨ht, hm⟩ := hclean f hf hpath
  exact ⟨f, hf, hpath, hfits.literal_or_number ht hm⟩

/-! ## A string and a number -/

/-- The values of a pattern that asks for the string `a` or the number 1. -/
def ValueSpec.stringOrOne : List ValueSpec :=
  [.literal (Bytes.ofString "\"a\""), .number (Bytes.ofString "1000000001000000000")]

theorem ValueSpec.isExact_stringOrOne : ∀ v ∈ stringOrOne, v.IsExact := by
  simp [stringOrOne, IsExact]

theorem Pattern.parse_stringOrOne : Pattern.parse "\x7b\"k\":[\"a\",1]\x7d" = .ok [⟨"k", ValueSpec.stringOrOne⟩] :=
  Pattern.parse_of_unsorted (by decide +kernel) (by simp) (by simp)

theorem Matcher.exists_stringOrOne : ∃ m, (Matcher.empty Json.flatten none 0).addAll
    [(true, "\x7b\"k\":[\"a\",1]\x7d"), (false, "\x7b\"k\":[\x7b\"numeric\":[\"<\",5]\x7d]\x7d")] = (.ok (), m) :=
  exists_eq_ok_of_toBool (by decide +kernel)

/-- With another pattern's range on the same path, the pattern is reported for the string `a`, not for
the string `b`. -/
theorem Matcher.mem_matchFields_exact_string :
    ∃ m, (Matcher.empty Json.flatten none 0).addAll
        [(true, "\x7b\"k\":[\"a\",1]\x7d"), (false, "\x7b\"k\":[\x7b\"numeric\":[\"<\",5]\x7d]\x7d")] = (.ok (), m) ∧
      true ∈ m.matchFields [⟨"k", Bytes.ofString "\"a\"", []⟩] ∧
      true ∉ m.matchFields [⟨"k", Bytes.ofString "\"b\"", []⟩] := by
  obtain ⟨m, hm⟩ := Matcher.exists_stringOrOne
  have hiff := Matcher.mem_matchFields_exact Json.flatten none 0 _ m hm true _ List.mem_cons_self
    (by simp) "k" _ Pattern.parse_stringOrOne ValueSpec.isExact_stringOrOne
  refine ⟨m, hm, ?_, fun hmem => ?_⟩
  · refine (hiff _).1.mpr ⟨_, List.mem_cons_self, rfl, .inr ⟨by decide, .inl ?_⟩⟩
    decide
  · obtain ⟨f, hf, -, hfits⟩ := (hiff _).2 hmem fun f hf _ => by
      rw [List.mem_singleton.mp hf]
      decide
    rw [List.mem_singleton.mp hf] at hfits
    rcases hfits with hlit | ⟨n, hn, -⟩
    · exact absurd hlit (by decide)
    · have hp := parse?_spelling n
      rw [← hn] at hp
      exact absurd (hp.symm.trans (show parse? (Bytes.ofString "\"b\"") = none by decide)) nofun

/-- A literal followed by a terminator and anything else, and the mark followed by the digits of
a key, are reported although they are neither the literal nor a number. -/
theorem Matcher.matchFields_forged :
    ∃ m, (Matcher.empty Json.flatten none 0).addAll
        [(true, "\x7b\"k\":[\"a\",1]\x7d"), (false, "\x7b\"k\":[\x7b\"numeric\":[\"<\",5]\x7d]\x7d")] = (.ok (), m) ∧
      Pattern.parse "\x7b\"k\":[\"a\",1]\x7d" = .ok [⟨"k", ValueSpec.stringOrOne⟩] ∧
      ∀ v ∈ [Bytes.ofString "\"a\"" ++ terminator :: Bytes.ofString "junk",
          numberMark :: Bytes.ofString "1000000001000000000"],
        true ∈ m.matchFields [⟨"k", v, []⟩] ∧
          ¬ (.literal v ∈ ValueSpec.stringOrOne ∨ ∃ n : Numeral, v = n.spelling ∧ NumberFits ValueSpec.stringOrOne n) := by
  obtain ⟨m, hm⟩ := Matcher.exists_stringOrOne
  refine ⟨m, hm, Pattern.parse_stringOrOne, fun v hv => ?_⟩
  have hproper := ((Pattern.proper_of_parse Pattern.parse_stringOrOne).2 _ List.mem_cons_self).2
  have hnone : parse? v = none := by
    simp only [List.mem_cons, List.not_mem_nil, or_false] at hv
    rcases hv with rfl | rfl <;> decide
  have htext : TextFits ValueSpec.stringOrOne v.upToTerminator := by
    simp only [List.mem_cons, List.not_mem_nil, or_false] at hv
    rcases hv with rfl | rfl
    · exact .inl (by decide)
    · exact .inr ⟨Bytes.ofString "1000000001000000000", by decide, .inl (by decide)⟩
  constructor
  · rw [Matcher.mem_matchFields_oneField hm List.mem_cons_self (by simp) Pattern.parse_stringOrOne
      (testsAccept_of_isExact none ValueSpec.isExact_stringOrOne)]
    refine ⟨_, List.mem_cons_self, rfl, .inl ?_⟩
    exact (reached_of_not_isNumeral hproper (by rw [isNumeral, hnone]; rfl)).mpr htext
  · rintro (hlit | ⟨n, rfl, -⟩)
    · revert hlit
      simp only [List.mem_cons, List.not_mem_nil, or_false] at hv
      rcases hv with rfl | rfl <;> decide
    · rw [parse?_spelling] at hnone
      cases hnone

end EventMatch
