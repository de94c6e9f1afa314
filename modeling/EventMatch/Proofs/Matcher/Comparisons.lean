import EventMatch.Proofs.Matcher.Additions
import EventMatch.Proofs.Matcher.FieldValues
import EventMatch.Proofs.Matcher.NumericClauses
import EventMatch.Proofs.Pattern.Grammar

/-!
# Comparisons with one number

A number among the values of a field is compiled to the word of its key, a clause to ranges
of such words. Yet a field's value that has a key passes either just if its key stands in the
relation asked for, a number as such asking for its equals (`Matcher.Asks.mem_matchFields`).
So the values below a number, those equal to it and those above it are all the values
with keys, and no value is in two of these sets (`Matcher.matchFields_comparisons`). Values
without a key are in none.
-/

namespace EventMatch

open Numeral

/-! ## Items that compare -/

namespace Json

/-- The clause that asks for values that stand in one relation to a number. -/
def comparison (op : String) (n : Numeral) : Json := .obj [("numeric", .arr [.str op, .num n])]

/-- The item asks for values that stand in the relation to the number. -/
inductive Relates (n : Numeral) : Json → Relation → Prop
  | number : Relates n (.num n) .equal
  | clause {op : String} {r : Relation} (hr : Relation.ofOperator? op = some r) (hexact : r ≠ .near) :
      Relates n (comparison op n) r

/-- The number itself and the exact clauses that compare with it. -/
def comparisons (n : Numeral) : List Json :=
  .num n :: ["<", ">", "<=", ">=", "=", "==", "!=", "<>"].map (comparison · n)

theorem exists_relates (n : Numeral) : ∀ item ∈ comparisons n, ∃ r, Relates n item r := by
  simp only [comparisons, List.map_cons, List.map_nil, List.forall_mem_cons]
  exact ⟨⟨_, .number⟩, ⟨_, .clause rfl nofun⟩, ⟨_, .clause rfl nofun⟩, ⟨_, .clause rfl nofun⟩,
    ⟨_, .clause rfl nofun⟩, ⟨_, .clause rfl nofun⟩, ⟨_, .clause rfl nofun⟩, ⟨_, .clause rfl nofun⟩,
    ⟨_, .clause rfl nofun⟩, List.forall_mem_nil _⟩

theorem number_mem_comparisons (n : Numeral) : .num n ∈ comparisons n := List.mem_cons_self

theorem comparison_mem_comparisons {op : String} (h : op ∈ ["<", ">", "<=", ">=", "=", "==", "!=", "<>"])
    (n : Numeral) : comparison op n ∈ comparisons n :=
  List.mem_cons_of_mem _ (List.mem_map_of_mem h)

/-- A pattern that compares with a number can be written down. -/
theorem Relates.parse?_text {n : Numeral} {item : Json} {r : Relation} (h : Relates n item r)
    (hn : numeral? n.spelling = some n) {key : String} (hkey : key ≠ numberKey) :
    parse? (obj [(key, .arr [item])]).text = some (obj [(key, .arr [item])]) := by
  have hwritable : item.Writable 125 := by
    cases h with
    | number => exact hn
    | clause => exact ⟨124, rfl, ⟨123, rfl, trivial, hn, trivial⟩, trivial⟩
  have hitem : item.resolve? = some item := by cases h <;> rfl
  refine Json.parse?_text ⟨126, rfl, ⟨125, rfl, hwritable, trivial⟩, trivial⟩ ?_
  have hfirst : ¬ ([(key, Json.arr [item])].head?.map Prod.fst = some numberKey) := fun h => hkey (Option.some.inj h)
  rw [resolve?, if_neg hfirst, resolveMembers?, resolve?, resolveItems?, hitem]
  rfl

end Json

theorem Numeral.key_eq_ok {v : Bytes} {k : Nat} :
    key v = .ok k ↔ ∃ m : Numeral, v = m.spelling ∧ m.HasKey ∧ k = m.keyOf := by
  constructor
  · intro h
    obtain ⟨ds, hds, -⟩ := Except.map_eq_ok.mp h
    obtain ⟨m, rfl, hm, -⟩ := canonical_eq_ok.mp hds
    exact ⟨m, rfl, key_spelling_eq_ok.mp h⟩
  · rintro ⟨m, rfl, hm⟩
    exact key_spelling_eq_ok.mpr hm

/-- The value that an item which compares with a number stands for. -/
theorem Json.Relates.exists_value {n : Numeral} {item : Json} {r : Relation} (h : Relates n item r)
    (hn : n.HasKey) (path : String) : ∃ s, Pattern.value path item = .ok s ∧ s.IsExact ∧
      (∀ parser asked, s.Compilable parser asked) ∧
      ∀ v, s.Accepts v ↔ ∃ k, key v = .ok k ∧ r.Compares k n.keyOf := by
  cases h with
  | number =>
    refine ⟨_, Pattern.value_of_denotes path (.number hn), trivial, fun _ _ => trivial, fun v => ?_⟩
    have hkey : canonical v = .ok (keyDigits n.keyOf) ↔ ∃ k, key v = .ok k ∧ k = n.keyOf := by
      constructor
      · intro h
        obtain ⟨m, rfl, hm, hds⟩ := canonical_eq_ok.mp h
        exact ⟨_, key_spelling_of_hasKey hm, (keyDigits_keyOf_inj hn hm).mp hds |>.symm⟩
      · rintro ⟨k, hk, rfl⟩
        obtain ⟨m, rfl, hm, he⟩ := key_eq_ok.mp hk
        rw [canonical_spelling_of_hasKey hm, he]
    exact hkey
  | @clause op _ hr hexact =>
    have hspells : NumericClause.Spells [.str op, .num n] [⟨r, Binary64.ofNumeral n, n⟩] :=
      .cons hr (isFinite_of_inRange hn.inRange) .nil
    have hnear : (NumericClause.mk [⟨r, Binary64.ofNumeral n, n⟩]).isApproximate = false :=
      NumericClause.isApproximate_eq_false.mpr (List.forall_mem_singleton.mpr hexact)
    have hvalue := Pattern.value_of_denotes path (.numeric (List.cons_ne_nil _ _) hspells)
    refine ⟨_, hvalue, hnear, fun _ _ _ => ?_, fun v => ?_⟩
    · exact List.forall_mem_singleton.mpr ⟨_, canonical_spelling_of_hasKey hn⟩
    · simp only [ValueSpec.Accepts, hnear, true_and, List.forall_mem_singleton, key_spelling_of_hasKey hn,
        Except.ok.injEq, exists_eq_left']

/-! ## Patterns that compare -/

variable {ι : Type} [BEq ι]

/-- The pattern of the identifier is an object with one array, which has one item. -/
def Matcher.Asks (m : Matcher ι) (x : ι) (key : String) (item : Json) : Prop :=
  ∃ flattener parser asked patterns text,
    (Matcher.empty flattener parser asked).addAll patterns = (.ok (), m) ∧ (x, text) ∈ patterns ∧
    (∀ t, (x, t) ∈ patterns → t = text) ∧ Json.parse? text = some (.obj [(key, .arr [item])])

section

variable {n : Numeral} {item : Json} {r : Relation} (hitem : Json.Relates n item r) (hn : n.HasKey)

include hitem hn

/-- A pattern that compares with a number has this one value for its only field. -/
theorem Json.Relates.exists_parse {text key : String} (htext : Json.parse? text = some (.obj [(key, .arr [item])])) :
    ∃ s, Pattern.parse text = .ok [⟨key, [s]⟩] ∧ s.IsExact ∧ (∀ parser asked, s.Compilable parser asked) ∧
      ∀ v, s.Accepts v ↔ ∃ k, Numeral.key v = .ok k ∧ r.Compares k n.keyOf := by
  obtain ⟨s, hs, hvalue⟩ := hitem.exists_value hn key
  refine ⟨s, Pattern.parse_of_singleton htext (List.cons_ne_nil _ _) ?_, hvalue⟩
  rw [List.mapM_cons, hs]
  rfl

/-- A pattern that compares with a number that has a key can always be added. -/
theorem Matcher.add_of_relates {text key : String} (htext : Json.parse? text = some (.obj [(key, .arr [item])]))
    (m : Matcher ι) (id : ι) : (m.add id text).1 = .ok () := by
  obtain ⟨s, hparse, -, hcompilable, -⟩ := hitem.exists_parse hn htext
  exact add_ok_iff_allCompilable.mpr ⟨_, hparse, hcompilable _ _, trivial⟩

/-- A value is reported if its key stands in the relation. -/
theorem Matcher.Asks.mem_matchFields [LawfulBEq ι] {m : Matcher ι} {x : ι} {key : String} (h : m.Asks x key item)
    (text : String) (trail : List ArrayPos) : x ∈ m.matchFields [⟨key, Bytes.ofString text, trail⟩] ↔
      ∃ k, Numeral.key (Bytes.ofString text) = .ok k ∧ r.Compares k n.keyOf := by
  obtain ⟨flattener, parser, asked, patterns, pattern, hadd, hx, honly, hpattern⟩ := h
  obtain ⟨s, hparse, hexact, -, haccepts⟩ := hitem.exists_parse hn hpattern
  have hproper := ((Pattern.proper_of_parse hparse).2 _ List.mem_cons_self).2
  have hbyte : ∀ b : UInt8, 0xF5 ≤ b.toNat → b ∉ Bytes.ofString text := fun b hb hmem =>
    absurd (Bytes.toNat_lt_of_mem_ofString hmem) (by omega)
  rw [Matcher.mem_matchFields_oneField hadd hx honly hparse
    (testsAccept_of_isExact parser (List.forall_mem_singleton.mpr hexact))]
  simp only [List.mem_singleton, exists_eq_left, or_false, true_and]
  rw [reached_iff_accepts hproper (hbyte _ (by decide)) (hbyte _ (by decide))]
  simp only [List.mem_singleton, exists_eq_left, haccepts]

/-- A value with a key is reported just if this key stands in the relation. -/
theorem Matcher.Asks.mem_matchFields_of_canonical [LawfulBEq ι] {m : Matcher ι} {x : ι} {key : String}
    (h : m.Asks x key item) {text : String} {digits : Bytes} (hv : canonical (Bytes.ofString text) = .ok digits)
    (trail : List ArrayPos) :
    x ∈ m.matchFields [⟨key, Bytes.ofString text, trail⟩] ↔ r.Compares (ofDecimal digits) n.keyOf := by
  have hk : Numeral.key (Bytes.ofString text) = .ok (ofDecimal digits) := by
    rw [Numeral.key, hv]
    rfl
  rw [h.mem_matchFields hitem hn, hk]
  simp only [Except.ok.injEq, exists_eq_left']

/-- A value without a key is not reported. -/
theorem Matcher.Asks.not_mem_matchFields_of_error [LawfulBEq ι] {m : Matcher ι} {x : ι} {key : String}
    (h : m.Asks x key item) {text : String} {e : MatchError} (hv : canonical (Bytes.ofString text) = .error e)
    (trail : List ArrayPos) : x ∉ m.matchFields [⟨key, Bytes.ofString text, trail⟩] := by
  rw [h.mem_matchFields hitem hn]
  rintro ⟨k, hk, -⟩
  obtain ⟨ds, hds, -⟩ := Except.map_eq_ok.mp hk
  cases hds.symm.trans hv

end

/-- A matcher of one pattern that compares with a number. -/
theorem Matcher.asks_add {n : Numeral} {item : Json} {r : Relation} (hitem : Json.Relates n item r) (hn : n.HasKey)
    {text key : String} (htext : Json.parse? text = some (.obj [(key, .arr [item])])) (flattener : Flattener)
    (parser : Option SpecParser) (asked : Nat) (x : ι) :
    ((Matcher.empty flattener parser asked).add x text).2.Asks x key item := by
  have hadd := add_of_relates hitem hn htext (Matcher.empty flattener parser asked) x
  refine ⟨flattener, parser, asked, [(x, text)], text, ?_, List.mem_cons_self, by simp, htext⟩
  rw [addAll]
  rcases h : (Matcher.empty flattener parser asked).add x text with ⟨r, m⟩
  rw [h] at hadd
  rw [show r = .ok () from hadd]
  rfl

/-! ## One value and all comparisons -/

/-- Exactly one of three things has a property. -/
theorem existsUnique_of_three {α : Type} {p : α → Prop} {a b c : α}
    (h : p a ∧ ¬ p b ∧ ¬ p c ∨ ¬ p a ∧ p b ∧ ¬ p c ∨ ¬ p a ∧ ¬ p b ∧ p c) : ∃! x, x ∈ [a, b, c] ∧ p x := by
  have hmem : ∀ x, x ∈ [a, b, c] ∧ p x ↔ (x = a ∧ p a) ∨ (x = b ∧ p b) ∨ x = c ∧ p c := fun x => by
    simp only [List.mem_cons, List.not_mem_nil, or_false, or_and_right]
    refine or_congr ?_ (or_congr ?_ ?_) <;> exact and_congr_right fun he => by rw [he]
  simp only [hmem]
  rcases h with ⟨ha, hb, hc⟩ | ⟨ha, hb, hc⟩ | ⟨ha, hb, hc⟩ <;>
    simp only [ha, hb, hc, and_true, and_false, or_false, false_or, existsUnique_eq]

/-- Patterns that compare one field with a number that has a key can be added to every matcher. A
value of the field that has a key is reported as below the number, as equal or as above, by one
of the three patterns, and as at most, at least, equal or unequal accordingly. A value without a
key is reported by none. -/
theorem Matcher.matchFields_comparisons [LawfulBEq ι] (n : Numeral) (digits : Bytes)
    (hn : canonical n.spelling = .ok digits) (key : String) (m : Json → Matcher ι) (x : Json → ι)
    (hm : ∀ item ∈ Json.comparisons n, (m item).Asks (x item) key item) (text : String) (trail : List ArrayPos) :
    let v := Bytes.ofString text
    let reported (item : Json) : Prop := x item ∈ (m item).matchFields [⟨key, v, trail⟩]
    ((∃ ds, canonical v = .ok ds) →
      (∃! item, item ∈ [Json.comparison "<" n, .num n, Json.comparison ">" n] ∧ reported item) ∧
      (reported (Json.comparison "=" n) ↔ reported (.num n)) ∧
      (reported (Json.comparison "==" n) ↔ reported (.num n)) ∧
      (reported (Json.comparison "<=" n) ↔ reported (Json.comparison "<" n) ∨ reported (.num n)) ∧
      (reported (Json.comparison ">=" n) ↔ reported (Json.comparison ">" n) ∨ reported (.num n)) ∧
      (reported (Json.comparison "!=" n) ↔ ¬ reported (.num n)) ∧
      (reported (Json.comparison "<>" n) ↔ ¬ reported (.num n))) ∧
    ((∃ e, canonical v = .error e) → ∀ item ∈ Json.comparisons n, ¬ reported item) ∧
    ∀ item ∈ Json.comparisons n, ∀ pattern, Json.parse? pattern = some (.obj [(key, .arr [item])]) →
      ∀ (m' : Matcher ι) id, (m'.add id pattern).1 = .ok () := by
  intro v reported
  have hkey := hasKey_of_canonical hn
  refine ⟨?_, ?_, fun item hmem pattern hpattern m' id => ?_⟩
  · rintro ⟨ds, hds⟩
    have hcompares : ∀ {item r}, item ∈ Json.comparisons n → Json.Relates n item r →
        (reported item ↔ r.Compares (ofDecimal ds) n.keyOf) := fun hmem hr =>
      (hm _ hmem).mem_matchFields_of_canonical hr hkey hds trail
    generalize ofDecimal ds = k at hcompares
    have hop : ∀ op r, op ∈ ["<", ">", "<=", ">=", "=", "==", "!=", "<>"] → Relation.ofOperator? op = some r →
        r ≠ .near → (reported (Json.comparison op n) ↔ r.Compares k n.keyOf) := fun op r hmem hr hexact =>
      hcompares (Json.comparison_mem_comparisons hmem n) (.clause hr hexact)
    have hequal : reported (.num n) ↔ k = n.keyOf := hcompares (Json.number_mem_comparisons n) .number
    have hless : reported (Json.comparison "<" n) ↔ k < n.keyOf := hop _ .less (by decide) rfl (by decide)
    have hgreater : reported (Json.comparison ">" n) ↔ n.keyOf < k := hop _ .greater (by decide) rfl (by decide)
    refine ⟨?_, ?_, ?_, ?_, ?_, ?_, ?_⟩
    · refine existsUnique_of_three ?_
      rw [hless, hequal, hgreater]
      omega
    · exact (hop _ .equal (by decide) rfl (by decide)).trans hequal.symm
    · exact (hop _ .equal (by decide) rfl (by decide)).trans hequal.symm
    · rw [hop _ .atMost (by decide) rfl (by decide), hless, hequal]
      exact Nat.le_iff_lt_or_eq
    · rw [hop _ .atLeast (by decide) rfl (by decide), hgreater, hequal]
      exact Nat.le_iff_lt_or_eq.trans (or_congr_right eq_comm)
    · exact (hop _ .unequal (by decide) rfl (by decide)).trans (not_congr hequal).symm
    · exact (hop _ .unequal (by decide) rfl (by decide)).trans (not_congr hequal).symm
  · rintro ⟨e, he⟩ item hmem
    obtain ⟨r, hr⟩ := Json.exists_relates n item hmem
    exact (hm item hmem).not_mem_matchFields_of_error hr hkey he trail
  · obtain ⟨r, hr⟩ := Json.exists_relates n item hmem
    exact add_of_relates hr hkey hpattern m' id

/-- The value 1.0 and matchers of one pattern each that compare with 1. -/
theorem Matcher.matchFields_comparisons_one : ∃ (m : Json → Matcher Bool) (x : Json → Bool),
    canonical one.spelling = .ok (keyDigits one.keyOf) ∧
    (∀ item ∈ Json.comparisons one, (m item).Asks (x item) "k" item) ∧
    (x (.num one) ∈ (m (.num one)).matchFields [⟨"k", Bytes.ofString "1.0", []⟩]) ∧
    ∃! item, item ∈ [Json.comparison "<" one, .num one, Json.comparison ">" one] ∧
      x item ∈ (m item).matchFields [⟨"k", Bytes.ofString "1.0", []⟩] := by
  have hone := canonical_spelling_of_hasKey hasKey_one
  have hasks : ∀ item ∈ Json.comparisons one, ((Matcher.empty Json.flatten none 0).add true
      (Json.obj [("k", .arr [item])]).text).2.Asks true "k" item := fun item hmem => by
    obtain ⟨r, hr⟩ := Json.exists_relates one item hmem
    exact Matcher.asks_add hr hasKey_one (hr.parse?_text (by decide) (by decide)) _ _ _ _
  have hvalue : Bytes.ofString "1.0" = (onePointZero []).spelling := by decide
  have hkey : (onePointZero []).HasKey := ⟨by decide, by decide +kernel⟩
  have hpartition := (Matcher.matchFields_comparisons one _ hone "k" _ (fun _ => true) hasks "1.0" []).1
    ⟨_, hvalue ▸ canonical_spelling_of_hasKey hkey⟩
  refine ⟨_, fun _ => true, hone, hasks, ?_, hpartition.1⟩
  rw [(hasks _ (Json.number_mem_comparisons one)).mem_matchFields .number hasKey_one, hvalue]
  have hequal : (onePointZero []).keyOf = one.keyOf := by decide +kernel
  exact ⟨_, key_spelling_of_hasKey hkey, hequal⟩

end EventMatch
