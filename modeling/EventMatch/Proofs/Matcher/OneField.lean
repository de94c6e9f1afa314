import EventMatch.Proofs.Matcher.Trails
import EventMatch.Proofs.Numeric.Intervals

/-!
# Patterns with one field

A number reaches the values of a field by its key, or by its plain text if it has no
key (`reached_spelling`); anything else reaches them by its bytes before the
first terminator (`reached_of_not_isNumeral`). A pattern with one field is reported
if a field of its path reaches its values, or passes one of its tests, whatever other patterns
there are (`mem_matchFields_oneField`).
-/

namespace EventMatch

open Numeral

/-! ## What is reached -/

/-- The digits of a key are those of a number among the values, or of a key for which
a clause among them holds. -/
def KeyFits (values : List ValueSpec) (ds : Bytes) : Prop :=
  .number ds ∈ values ∨ ∃ c k, .numeric c ∈ values ∧ k ≤ maxKey ∧ c.KeyHolds k ∧ ds = keyDigits k

/-- A number is among the values by its key or by its plain text, or a clause among them
holds for its key. -/
def NumberFits (values : List ValueSpec) (n : Numeral) : Prop :=
  (n.HasKey ∧ KeyFits values (keyDigits n.keyOf)) ∨ .literal (plainText n.spelling) ∈ values

/-- Bytes are among the values as they are, or spell a key with its mark. -/
def TextFits (values : List ValueSpec) (u : Bytes) : Prop :=
  .literal u ∈ values ∨ ∃ ds, u = numberMark :: ds ∧ KeyFits values ds

theorem words_numeric_iff {c : NumericClause} {u : Bytes} :
    (ValueSpec.numeric c).Words (u ++ [terminator]) ↔
      ∃ k ≤ maxKey, c.KeyHolds k ∧ u = numberMark :: keyDigits k := by
  constructor
  · rintro ⟨-, is, his, w, hu, k, hk, hin, hw⟩
    have hk := lt_pow_keyWidth.mp hk
    refine ⟨k, hk, (NumericClause.inSome_intervals his hk).mp hin, ?_⟩
    rw [hw, ← List.cons_append] at hu
    exact List.append_cancel_right hu
  · rintro ⟨k, hk, hholds, rfl⟩
    have hkeyed : ∀ t ∈ c.constraints, t.Keyed := fun t ht => (hholds t ht).keyed
    obtain ⟨is, his⟩ := NumericClause.exists_intervals_iff.mpr hkeyed
    refine ⟨NumericClause.isApproximate_eq_false.mpr fun t ht => (hkeyed t ht).exact, is, his,
      keyDigits k ++ [terminator], rfl, k, lt_pow_keyWidth.mpr hk, ?_, rfl⟩
    exact (NumericClause.inSome_intervals his hk).mpr hholds

/-- The words of values end in a terminator, before which they are spelled. -/
theorem valuesWords_iff {values : List ValueSpec} {u : Bytes} :
    ValuesWords values (u ++ [terminator]) ↔ TextFits values u := by
  constructor
  · rintro ⟨s, hs, hw⟩
    cases s with
    | literal text =>
      obtain rfl := List.append_cancel_right hw
      exact .inl hs
    | number digits =>
      obtain rfl := List.append_cancel_right hw
      exact .inr ⟨digits, rfl, .inl hs⟩
    | numeric c =>
      obtain ⟨k, hk, hholds, rfl⟩ := words_numeric_iff.mp hw
      exact .inr ⟨_, rfl, .inr ⟨c, k, hs, hk, hholds, rfl⟩⟩
    | extension _ => exact hw.elim
  · rintro (hs | ⟨ds, rfl, hs | ⟨c, k, hs, hk, hholds, hds⟩⟩)
    · exact ⟨_, hs, rfl⟩
    · exact ⟨_, hs, rfl⟩
    · exact ⟨_, hs, words_numeric_iff.mpr ⟨k, hk, hholds, congrArg _ hds⟩⟩

section

variable {values : List ValueSpec} (hp : ∀ s ∈ values, s.Proper)

include hp

/-- Values may be looked up as if there were numbers among them. -/
theorem reached_iff_textFits (v : Bytes) : Reached values v ↔ TextFits values (Gate.lookup true v).upToTerminator := by
  rw [← valuesWords_iff]
  show Reached values v ↔ ValuesWords values (Gate.lookupWord true v)
  rw [Reached]
  cases hn : values.any ValueSpec.hasNumbers with
  | true => exact Iff.rfl
  | false =>
    refine (Gate.words_lookup_congr hp (fun s hs => ?_) v).symm
    exact Bool.eq_false_of_not_eq_true (List.any_eq_false.mp hn s hs)

theorem reached_of_not_isNumeral {v : Bytes} (h : isNumeral v = false) :
    Reached values v ↔ TextFits values v.upToTerminator := by
  rw [reached_iff_textFits hp, Gate.lookup, h, if_neg Bool.false_ne_true]

theorem reached_spelling (n : Numeral) : Reached values n.spelling ↔ NumberFits values n := by
  rw [reached_iff_textFits hp, Gate.lookup, if_pos n.isNumeral_spelling, if_pos rfl]
  have hplain : (plainText n.spelling).upToTerminator = plainText n.spelling := by
    refine Bytes.upToTerminator_of_not_mem fun ht => ?_
    rw [plainText_spelling] at ht
    exact absurd (toNat_lt_of_mem_spelling ht) (by decide)
  cases hc : canonical n.spelling with
  | ok ds =>
    have hkey := hasKey_of_canonical hc
    have hds : ds = keyDigits n.keyOf := Except.ok.inj (hc.symm.trans (canonical_spelling_of_hasKey hkey))
    have hnot : terminator ∉ numberMark :: ds := fun ht =>
      (List.mem_cons.mp ht).elim (fun e => ValueSpec.numberMark_ne_terminator e.symm)
        fun ht => absurd (mem_canonical hc ht).2 (by decide)
    dsimp only
    rw [Bytes.upToTerminator_of_not_mem hnot, NumberFits, ← hds]
    -- Proper literals are neither keys nor the plain text of numbers with keys.
    constructor
    · rintro (hs | ⟨_, he, hfits⟩)
      · exact absurd ((hp _ hs).1 numberMark List.mem_cons_self) (by decide)
      · obtain ⟨-, rfl⟩ := List.cons.inj he
        exact .inl ⟨hkey, hfits⟩
    · rintro (⟨-, hfits⟩ | hs)
      · exact .inr ⟨ds, rfl, hfits⟩
      · exact ((hp _ hs).2 n rfl ds hc).elim
  | error e =>
    dsimp only
    rw [hplain]
    constructor
    · rintro (hs | ⟨ds, hds, -⟩)
      · exact .inr hs
      · have hmem : numberMark ∈ plainText n.spelling := hds ▸ List.mem_cons_self
        rw [plainText_spelling] at hmem
        exact absurd (toNat_lt_of_mem_spelling hmem) (by decide)
    · rintro (⟨hkey, -⟩ | hs)
      · rw [canonical_spelling_of_hasKey hkey] at hc
        cases hc
      · exact .inl hs

end

/-! ## Patterns with one field -/

/-- What is accepted by the predicates that are read for a field's values. -/
def TestsAccept (parser : Option SpecParser) (values : List ValueSpec) (accepts : Bytes → Prop) : Prop :=
  ∀ s preds s', (readTests parser values).exec s = (.ok preds, s') → ∀ v, (∃ p ∈ preds, p v = true) ↔ accepts v

theorem readFields_singleton {parser : Option SpecParser} {f : PatternField} {s s' : Supply} {ps : List Predicate}
    {preds : List (List Predicate)} (h : (readFields parser [f]).exec s = (.ok (ps :: preds), s')) :
    (readTests parser f.values).exec s = (.ok ps, s') := by
  rw [readFields, List.foldrM_cons, List.foldrM_nil, pure_bind] at h
  obtain ⟨_, t, htests, hpure⟩ := Compile.exec_bind_eq_ok h
  cases hpure
  exact htests

variable {ι : Type} [BEq ι] [LawfulBEq ι]

/-- A pattern with one field is reported just for the fields that reach its values or pass
its tests, whatever patterns there are besides. -/
theorem Matcher.mem_matchFields_oneField {flattener : Flattener} {parser : Option SpecParser} {asked : Nat}
    {patterns : List (ι × String)} {m : Matcher ι}
    (h : (Matcher.empty flattener parser asked).addAll patterns = (.ok (), m)) {x : ι} {text : String}
    (hx : (x, text) ∈ patterns) (honly : ∀ t, (x, t) ∈ patterns → t = text) {path : String}
    {values : List ValueSpec} (hparse : Pattern.parse text = .ok [⟨path, values⟩]) {accepts : Bytes → Prop}
    (hacc : TestsAccept parser values accepts) (fields : List Field) :
    x ∈ m.matchFields fields ↔
      ∃ f ∈ fields, f.path = path ∧ (Reached values f.value ∨ accepts f.value) := by
  obtain ⟨S, firsts, hroot, -, hall⟩ := Matcher.addAll_ok (rootOk_empty flattener parser asked) h
  obtain ⟨ps, s, hcompile, -, hbegins⟩ := hall ⟨0, asked⟩ rfl
  rw [hroot.matchFields_eq hbegins, Solo.mem_interpret_iff_chain hcompile]
  have hproper := ((Pattern.proper_of_parse hparse).2 _ List.mem_cons_self).2
  obtain ⟨hlen, hzip⟩ := List.forall₂_iff_zip.mp (Solo.forall₂_of_exec hcompile)
  have htakes : ∀ t p, ((x, t), p) ∈ patterns.zip ps → ∃ g, p.gates = [(path, g)] ∧
      ∀ v, g.pass v ≠ [] ↔ Reached values v ∨ accepts v := by
    intro t p hmem
    obtain rfl := honly t (List.of_mem_zip hmem).1
    obtain ⟨u, u', hone⟩ := hzip hmem
    obtain ⟨fields, preds, s₁, S', n, j, hp, hr, -, hchain⟩ := Solo.of_exec_compile hone
    rw [hparse] at hp
    cases hp
    generalize hg : p.gates = gates at hchain
    cases hchain with
    | @field _ _ g _ _ _ _ _ _ _ _ _ hgate hnext =>
      cases hnext
      have htests := readFields_singleton hr
      refine ⟨g, rfl, fun v => ?_⟩
      rw [Gate.pass_ne_nil, hgate.reaches_iff hproper, ← hacc _ _ _ htests v, ← hgate.accepts]
      simp only [List.mem_map, exists_exists_and_eq_and]
  constructor
  · rintro ⟨t, p, fs, hmem, hchain⟩
    obtain ⟨g, hg, hpass⟩ := htakes t p hmem
    have ht := hchain.takes
    rw [hg] at ht
    cases ht with
    | cons htake hnil =>
      rename_i f fs
      have hf : f ∈ fields := Field.mem_sortByPath.mp (hchain.sublist.subset List.mem_cons_self)
      exact ⟨f, hf, htake.1.symm, (hpass _).mp htake.2⟩
  · rintro ⟨f, hf, rfl, hreach⟩
    have hfst : (patterns.zip ps).map Prod.fst = patterns := List.map_fst_zip (Nat.le_of_eq hlen)
    rw [← hfst] at hx
    obtain ⟨⟨_, p⟩, hmem, rfl⟩ := List.mem_map.mp hx
    obtain ⟨g, hg, hpass⟩ := htakes text p hmem
    refine ⟨text, p, [f], hmem, List.singleton_sublist.mpr (Field.mem_sortByPath.mpr hf), ?_, .singleton f⟩
    rw [hg]
    exact .cons ⟨rfl, (hpass _).mpr hreach⟩ .nil

/-! ## One member -/

/-- A pattern that is an object with one array. -/
theorem Pattern.parse_of_singleton {text key : String} {items : List Json} {values : List ValueSpec}
    (hj : Json.parse? text = some (.obj [(key, .arr items)])) (hne : items ≠ [])
    (hv : items.mapM (value key) = .ok values) : parse text = .ok [⟨key, values⟩] := by
  have hfield : field key items = .ok ⟨key, values⟩ := by
    rw [field, if_neg fun h => hne (List.isEmpty_iff.mp h), hv]
    rfl
  have hfields : fieldsOf "" [(key, .arr items)] = .ok [⟨key, values⟩] := by
    rw [fieldsOf, Path.extend_empty, fieldsAt, hfield, fieldsOf]
    rfl
  have hunsorted : unsorted? text = some [⟨key, values⟩] := by
    rw [unsorted?, hj]
    dsimp only
    rw [hfields]
    rfl
  exact parse_of_unsorted hunsorted (List.cons_ne_nil _ _) (List.pairwise_singleton _ _)

theorem Json.fields_of_singleton {key : String} {j : Json} {v : Bytes}
    (h : j.leaves key [] 0 = ([⟨key, v, []⟩], 0)) : (Json.obj [(key, j)]).fields = [⟨key, v, []⟩] := by
  rw [Json.fields, Json.leaves, Json.memberLeaves, Path.extend_empty, h]
  exact List.mergeSort_singleton _

omit [LawfulBEq ι] in
theorem Matcher.matchEvent_of_addAll {parser : Option SpecParser} {asked : Nat} {patterns : List (ι × String)}
    {m : Matcher ι} (h : (Matcher.empty Json.flatten parser asked).addAll patterns = (.ok (), m)) {event : Bytes}
    {members : List (String × Json)} (hj : Json.parseBytes? event = some (.obj members)) :
    m.matchEvent event = .ok (m.matchFields (Json.obj members).fields) := by
  have hflattener := Matcher.flattener_addAll patterns (Matcher.empty (ι := ι) Json.flatten parser asked)
  rw [h] at hflattener
  rw [Matcher.matchEvent, show m.flattener = Json.flatten from hflattener, Json.flatten, hj]
  rfl

end EventMatch
