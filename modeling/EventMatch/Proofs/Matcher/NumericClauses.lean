import EventMatch.Extension.Standard
import EventMatch.Proofs.Json.Writing
import EventMatch.Proofs.Matcher.RawBytes
import EventMatch.Proofs.Numeral.Reading
import EventMatch.Proofs.Numeric.Clause

/-!
# Numeric clauses of patterns and of extensions

A clause that stands in a pattern compares the keys of numbers (`Matcher.matchEvent_native`), one that stands in an
extension compares what is read from a number with the values of the arguments (`Matcher.matchEvent_extension`). Keys
keep the order of numbers but not all differences, and a reading need not be the nearest value. So the two report the
same numbers except for some that are very close to an argument (`Matcher.matchEvent_numeric_clauses`), such as
1.00000001 is to 1 (`Matcher.matchEvent_close_numbers`).
-/

namespace EventMatch

open Numeral

/-! ## Clauses as they are written -/

namespace NumericClause

variable {items : List Json}

/-- The arguments are the finite values of their numerals. -/
theorem Spells.argument {cs : List NumericConstraint} (h : Spells items cs) : ∀ t ∈ cs,
    t.argument = Binary64.ofNumeral t.numeral ∧ t.argument.isFinite = true := by
  induction h with
  | nil => exact fun t ht => absurd ht List.not_mem_nil
  | cons _ hn _ ih => exact List.forall_mem_cons.mpr ⟨⟨rfl, hn⟩, ih⟩

/-- Operators and numbers stand for themselves. -/
theorem Spells.resolveItems? {cs : List NumericConstraint} (h : Spells items cs) :
    Json.resolveItems? items = some items := by
  induction h with
  | nil => rfl
  | cons _ _ _ ih =>
    rw [Json.resolveItems?, Json.resolveItems?, ih]
    rfl

end NumericClause

/-- The standard parser reads a numeric clause as its predicate. -/
theorem StandardSpec.parse_numeric {items : List Json} {c : NumericClause} (hc : NumericClause.ofJson items = .ok c)
    (hw : (Json.obj [("numeric", .arr items)]).Writable Json.maxDepth) :
    parse (Bytes.ofString (Json.obj [("numeric", .arr items)]).text) = .ok c.predicate := by
  have hlist : list? (.arr items) = some items := (NumericClause.ofJson_eq_ok_iff.mp hc).2.resolveItems?
  have hspec : ofJson? (.obj [("numeric", .arr items)]) = some { numeric := some items } := by
    have hmember : withMember? {} "numeric" (.arr items) = some { numeric := some items } := by
      show (field? list? (.arr items)).map _ = _
      rw [field?, hlist]
      · rfl
      · exact fun h => nomatch h
    rw [ofJson?, ofMembers?, if_pos (by simp), List.foldlM_cons]
    dsimp only
    rw [hmember]
    rfl
  have hpredicate : predicate { numeric := some items } = .ok c.predicate := by
    rw [predicate, hc]
  rw [parse, Json.asWrittenBytes?_text hw, Option.bind_some, hspec]
  exact hpredicate

/-! ## Predicates -/

theorem NumericConstraint.holds_iff {t : NumericConstraint} (hne : t.relation ≠ .near) (ht : t.argument.isFinite = true)
    {x : Binary64} (hx : x.isFinite = true) :
    t.holds x = true ↔ t.relation.Compares x.toRat t.argument.toRat := by
  unfold holds
  cases hr : t.relation with
  | less => exact Binary64.lt_iff hx ht
  | greater => exact Binary64.lt_iff ht hx
  | atMost => exact Binary64.le_iff hx ht
  | atLeast => exact Binary64.le_iff ht hx
  | equal => exact Binary64.eq_iff hx ht
  | unequal =>
    show (!x.eq t.argument) = true ↔ _
    rw [Bool.not_eq_true', ← Bool.not_eq_true, Binary64.eq_iff hx ht]
    rfl
  | near => exact absurd hr hne

theorem NumericClause.holds_iff {c : NumericClause} (hexact : c.isApproximate = false)
    (hargs : ∀ t ∈ c.constraints, t.argument.isFinite = true) {x : Binary64} (hx : x.isFinite = true) :
    c.holds x = true ↔ ∀ t ∈ c.constraints, t.relation.Compares x.toRat t.argument.toRat := by
  rw [holds, List.all_eq_true]
  exact forall₂_congr fun t ht => NumericConstraint.holds_iff (isApproximate_eq_false.mp hexact t ht) (hargs t ht) hx

theorem Json.asWrittenBytes?_plainText {n : Numeral} (hz : Json.hasLeadingZero n = false) :
    Json.asWrittenBytes? (plainText n.spelling) = some (.num n.plain.withSignedExponent) := by
  have hreads : Json.Reads Json.number n.plain.text.toList n.plain.withSignedExponent [] :=
    Json.reads_number_iff.mpr ⟨fun _ h => (nomatch h), n.plain, (List.append_nil _).symm, hz, rfl⟩
  rw [plainText_spelling, ← ofString_text, Json.asWrittenBytes?_ofString]
  exact Json.asWritten?_of_reads (Json.reads_value_iff.mpr (.num hreads))

/-- The predicate of a clause reads the plain text of a number like this number. -/
theorem NumericClause.predicate_plainText (c : NumericClause) {n : Numeral} (hz : Json.hasLeadingZero n = false)
    (hfinite : n.reading.isFinite = true) : c.predicate (plainText n.spelling) = c.holds n.reading := by
  have hreading : n.plain.withSignedExponent.reading = n.reading := by
    refine reading_congr ?_
    rw [plain_withSignedExponent, plain_plain]
  rw [predicate, Json.asWrittenBytes?_plainText hz]
  dsimp only
  rw [hreading, hfinite, Bool.true_and]

theorem testsAccept_extension {p : SpecParser} {spec : String} {accepts : Predicate}
    (h : ∀ asked, p.parse asked (Bytes.ofString spec) = .ok accepts) :
    TestsAccept (some p) [.extension spec] fun v => accepts v = true := by
  intro s preds s' hr v
  rw [readTests, List.foldlM_cons] at hr
  obtain ⟨preds', t, hread, hpure⟩ := Compile.exec_bind_eq_ok hr
  cases hpure
  obtain ⟨ps, t', hps, hpure⟩ := Compile.exec_bind_eq_ok hread
  cases hpure
  rw [ValueSpec.readTests] at hps
  obtain ⟨a, t'', ha, hpure⟩ := Compile.exec_bind_eq_ok hps
  cases hpure
  rw [SpecParser.exec_predicate, h] at ha
  cases ha
  simp

/-! ## Keys and values -/

theorem Relation.compares_congr {α γ : Type} [LinearOrder α] [LinearOrder γ] {a b : α} {c d : γ} (hlt : a < b ↔ c < d)
    (hgt : b < a ↔ d < c) (r : Relation) : r.Compares a b ↔ r.Compares c d := by
  have hle : a ≤ b ↔ c ≤ d := by rw [← not_lt, ← not_lt, hgt]
  have hge : b ≤ a ↔ d ≤ c := by rw [← not_lt, ← not_lt, hlt]
  have heq : a = b ↔ c = d := by rw [le_antisymm_iff, le_antisymm_iff, hle, hge]
  cases r with
  | less => exact hlt
  | greater => exact hgt
  | atMost => exact hle
  | atLeast => exact hge
  | equal => exact heq
  | unequal => exact not_congr heq
  | near => exact Iff.rfl

namespace Numeral

variable {m n : Numeral}

/-- What is read from the first number and the value of the second are in the order of the keys. -/
def InOrderOfKeys (m n : Numeral) : Prop :=
  compare m.reading.toRat (Binary64.ofNumeral n).toRat = compare m.keyOf n.keyOf

instance : Decidable (InOrderOfKeys m n) := inferInstanceAs (Decidable (_ = _))

theorem InOrderOfKeys.compares_iff (h : m.InOrderOfKeys n) (r : Relation) :
    r.Compares m.keyOf n.keyOf ↔ r.Compares m.reading.toRat (Binary64.ofNumeral n).toRat := by
  refine Relation.compares_congr ?_ ?_ r
  · rw [← compare_lt_iff_lt, ← compare_lt_iff_lt, h]
  · rw [← compare_gt_iff_gt, ← compare_gt_iff_gt, h]

/-- Numbers that are a millionth apart are not confused. -/
theorem inOrderOfKeys_of_gap (hm : m.HasKey) (hn : n.HasKey) (h : 1 / 1000000 ≤ |m.toRat - n.toRat|) :
    m.InOrderOfKeys n := by
  obtain ⟨hm₁, hm₂⟩ := abs_le.mp hm.reading_spec.2
  obtain ⟨hn₁, hn₂⟩ := abs_le.mp hn.abs_toRat_sub_le
  rcases le_abs.mp h with h | h
  · have hread : (Binary64.ofNumeral n).toRat < m.reading.toRat := by linarith
    exact (compare_gt_iff_gt.mpr hread).trans (compare_gt_iff_gt.mpr (hn.keyOf_lt_of_gap hm h)).symm
  · have hread : m.reading.toRat < (Binary64.ofNumeral n).toRat := by linarith
    exact (compare_lt_iff_lt.mpr hread).trans
      (compare_lt_iff_lt.mpr (hm.keyOf_lt_of_gap hn (by linarith))).symm

/-- Of a short number nothing but a shared key can be mistaken. -/
theorem inOrderOfKeys_of_short (hm : m.HasKey) (hn : n.HasKey) (hs : m.IsShort)
    (h : m.keyOf = n.keyOf → (Binary64.ofNumeral m).toRat = (Binary64.ofNumeral n).toRat) : m.InOrderOfKeys n := by
  rw [InOrderOfKeys, hm.reading_eq hs]
  rcases lt_trichotomy m.keyOf n.keyOf with hlt | heq | hgt
  · rw [compare_lt_iff_lt.mpr hlt, compare_lt_iff_lt.mpr (hm.toRat_lt_of_keyOf_lt hn hlt)]
  · rw [compare_eq_iff_eq.mpr heq, compare_eq_iff_eq.mpr (h heq)]
  · rw [compare_gt_iff_gt.mpr hgt, compare_gt_iff_gt.mpr (hn.toRat_lt_of_keyOf_lt hm hgt)]

end Numeral

/-! ## Clauses as values -/

theorem numberFits_numeric {c : NumericClause} {n : Numeral} (hn : n.HasKey) :
    NumberFits [.numeric c] n ↔ c.KeyHolds n.keyOf := by
  have hlit : ¬ ValueSpec.literal (plainText n.spelling) ∈ [ValueSpec.numeric c] := by simp
  have hnum : ¬ ValueSpec.number (keyDigits n.keyOf) ∈ [ValueSpec.numeric c] := by simp
  rw [NumberFits, or_iff_left hlit, and_iff_right hn, KeyFits, or_iff_right hnum]
  constructor
  · rintro ⟨c', k, hc, hk, hholds, hds⟩
    obtain rfl := ValueSpec.numeric.inj (List.mem_singleton.mp hc)
    rwa [lastDigits_inj hn.keyOf_lt (lt_pow_keyWidth.mpr hk) hds]
  · exact fun h => ⟨c, _, List.mem_singleton_self _, hn.keyOf_le_maxKey, h, rfl⟩

section

variable {ι : Type} [BEq ι] [LawfulBEq ι] {items : List Json} {c : NumericClause}
  (hc : NumericClause.ofJson items = .ok c) (hexact : c.isApproximate = false) {parser : Option SpecParser}
  {asked : Nat} {patterns : List (ι × String)} {m : Matcher ι} {x : ι} {text : String} (hx : (x, text) ∈ patterns)
  (honly : ∀ t, (x, t) ∈ patterns → t = text) {event : Bytes} {n : Numeral}
  (hevent : Json.parseBytes? event = some (.obj [("k", .num n)])) (hn : n.HasKey)

include hc hexact hx honly hevent hn

/-- A clause of the pattern itself compares keys. -/
theorem Matcher.matchEvent_native (h : (Matcher.empty Json.flatten parser asked).addAll patterns = (.ok (), m))
    (htext : Json.parse? text = some (.obj [("k", .arr [.obj [("numeric", .arr items)]])]))
    (hargs : ∀ t ∈ c.constraints, t.numeral.HasKey) : ∃ ids, m.matchEvent event = .ok ids ∧
      (x ∈ ids ↔ ∀ t ∈ c.constraints, t.relation.Compares n.keyOf t.numeral.keyOf) := by
  have hparse : Pattern.parse text = .ok [⟨"k", [.numeric c]⟩] := by
    refine Pattern.parse_of_singleton htext (List.cons_ne_nil _ _) ?_
    rw [List.mapM_cons, Pattern.value, Pattern.operator, if_pos rfl, hc]
    rfl
  have hproper : ∀ s ∈ [ValueSpec.numeric c], s.Proper := List.forall_mem_singleton.mpr trivial
  have hvalue : ∀ s ∈ [ValueSpec.numeric c], s.IsExact := List.forall_mem_singleton.mpr hexact
  refine ⟨_, Matcher.matchEvent_of_addAll h hevent, ?_⟩
  rw [Matcher.mem_matchFields_oneField h hx honly hparse (testsAccept_of_isExact parser hvalue),
    Json.fields_of_singleton (show (Json.num n).leaves "k" [] 0 = ([⟨"k", plainText n.spelling, []⟩], 0) from rfl)]
  simp only [List.mem_singleton, exists_eq_left, or_false, true_and]
  rw [plainText_spelling, reached_spelling hproper, numberFits_numeric (hasKey_plain.mpr hn), keyOf_plain]
  exact forall₂_congr fun t ht => and_iff_right (hargs t ht)

/-- A clause in an extension compares what is read from the number with the values of the arguments. -/
theorem Matcher.matchEvent_extension
    (h : (Matcher.empty Json.flatten (some .standard) asked).addAll patterns = (.ok (), m))
    (htext : Json.parse? text = some (.obj [("k", .arr [.obj [("extension", .obj [("numeric", .arr items)])]])])) :
    ∃ ids, m.matchEvent event = .ok ids ∧
      (x ∈ ids ↔ ∀ t ∈ c.constraints,
        t.relation.Compares n.reading.toRat (Binary64.ofNumeral t.numeral).toRat) := by
  have hparse : Pattern.parse text = .ok [⟨"k", [.extension (Json.obj [("numeric", .arr items)]).text]⟩] := by
    refine Pattern.parse_of_singleton htext (List.cons_ne_nil _ _) ?_
    have hvalue : Pattern.value "k" (.obj [("extension", .obj [("numeric", .arr items)])]) =
        .ok (.extension (Json.obj [("numeric", .arr items)]).text) := rfl
    rw [List.mapM_cons, hvalue]
    rfl
  -- The spec is the clause's text, from which its items are read back as they were.
  have hwritable : (Json.obj [("numeric", .arr items)]).Writable Json.maxDepth := by
    obtain ⟨d, hd, ⟨e, rfl, ⟨e', rfl, hw, -⟩, -⟩, -⟩ := Json.writable_of_parse? htext
    exact hw.mono (by omega)
  have hz : Json.hasLeadingZero n = false := by
    obtain ⟨d, hd, hw, -⟩ := Json.writable_of_parseBytes? hevent
    obtain ⟨m', hm', hz, -⟩ := Json.numeral?_eq_some.mp hw
    rwa [spelling_inj hm']
  have hproper := ((Pattern.proper_of_parse hparse).2 _ List.mem_cons_self).2
  have hacc := testsAccept_extension (p := .standard) fun _ => StandardSpec.parse_numeric hc hwritable
  have hfinite := hn.reading_spec.1
  have hargs := (NumericClause.ofJson_eq_ok_iff.mp hc).2.argument
  refine ⟨_, Matcher.matchEvent_of_addAll h hevent, ?_⟩
  rw [Matcher.mem_matchFields_oneField h hx honly hparse hacc,
    Json.fields_of_singleton (show (Json.num n).leaves "k" [] 0 = ([⟨"k", plainText n.spelling, []⟩], 0) from rfl)]
  -- An extension adds nothing to the automaton, so the value passes by the predicate or not at all.
  have hreached : ¬ Reached [.extension (Json.obj [("numeric", .arr items)]).text] (plainText n.spelling) := by
    rw [plainText_spelling, reached_spelling hproper]
    simp [NumberFits, KeyFits]
  simp only [List.mem_singleton, exists_eq_left, true_and, or_iff_right hreached]
  rw [NumericClause.predicate_plainText c hz hfinite,
    NumericClause.holds_iff hexact (fun t ht => (hargs t ht).2) hfinite]
  exact forall₂_congr fun t ht => by rw [(hargs t ht).1]

end

/-- A clause of a pattern compares keys, and in an extension it compares what is read from the number with the values
of the arguments. Both report the same numbers unless for some argument the two comparisons differ, which takes two numbers
less than a millionth apart. With a short number they differ only if it has an argument's key without having
its value. -/
theorem Matcher.matchEvent_numeric_clauses {ι : Type} [BEq ι] [LawfulBEq ι] (items : List Json) (c : NumericClause)
    (hc : NumericClause.ofJson items = .ok c) (hexact : c.isApproximate = false)
    (hargs : ∀ t ∈ c.constraints, t.numeral.HasKey) (n : Numeral) (hn : n.HasKey) (event : Bytes)
    (hevent : Json.parseBytes? event = some (.obj [("k", .num n)])) (parser : Option SpecParser) (asked : Nat)
    (patterns : List (ι × String)) (m : Matcher ι)
    (h : (Matcher.empty Json.flatten parser asked).addAll patterns = (.ok (), m)) (x : ι) (text : String)
    (hx : (x, text) ∈ patterns) (honly : ∀ t, (x, t) ∈ patterns → t = text)
    (htext : Json.parse? text = some (.obj [("k", .arr [.obj [("numeric", .arr items)]])])) (asked' : Nat)
    (patterns' : List (ι × String)) (m' : Matcher ι)
    (h' : (Matcher.empty Json.flatten (some .standard) asked').addAll patterns' = (.ok (), m')) (x' : ι)
    (text' : String) (hx' : (x', text') ∈ patterns') (honly' : ∀ t, (x', t) ∈ patterns' → t = text')
    (htext' : Json.parse? text' =
      some (.obj [("k", .arr [.obj [("extension", .obj [("numeric", .arr items)])]])])) :
    ∃ ids ids', m.matchEvent event = .ok ids ∧ m'.matchEvent event = .ok ids' ∧
      (x ∈ ids ↔ ∀ t ∈ c.constraints, t.relation.Compares n.keyOf t.numeral.keyOf) ∧
      (x' ∈ ids' ↔ ∀ t ∈ c.constraints,
        t.relation.Compares n.reading.toRat (Binary64.ofNumeral t.numeral).toRat) ∧
      ((∀ t ∈ c.constraints, n.InOrderOfKeys t.numeral) → (x ∈ ids ↔ x' ∈ ids')) ∧
      ∀ t ∈ c.constraints, ¬ n.InOrderOfKeys t.numeral →
        |n.toRat - t.numeral.toRat| < 1 / 1000000 ∧
        (n.IsShort → n.keyOf = t.numeral.keyOf ∧
          (Binary64.ofNumeral n).toRat ≠ (Binary64.ofNumeral t.numeral).toRat) := by
  obtain ⟨ids, hids, hmem⟩ := Matcher.matchEvent_native hc hexact hx honly hevent hn h htext hargs
  obtain ⟨ids', hids', hmem'⟩ := Matcher.matchEvent_extension hc hexact hx' honly' hevent hn h' htext'
  refine ⟨ids, ids', hids, hids', hmem, hmem', fun horder => ?_, fun t ht hnot => ⟨?_, fun hs => ?_⟩⟩
  · rw [hmem, hmem']
    exact forall₂_congr fun t ht => (horder t ht).compares_iff t.relation
  · exact not_le.mp fun hgap => hnot (inOrderOfKeys_of_gap hn (hargs t ht) hgap)
  · by_contra hshared
    exact hnot (inOrderOfKeys_of_short hn (hargs t ht) hs fun hkey =>
      not_not.mp fun hne => hshared ⟨hkey, hne⟩)

/-- Not even a number and itself: 1e-23 is read as the value after the nearest one. -/
example : let n : Numeral := ⟨false, ⟨1, []⟩, none, some ⟨false, some .minus, ⟨2, [3]⟩⟩⟩
    ¬ n.InOrderOfKeys n := by decide +kernel

/-! ## Numbers above 1 -/

/-- The number 1. -/
def Numeral.one : Numeral := ⟨false, ⟨1, []⟩, none, none⟩

/-- The number 1.0 with more digits after it. -/
def Numeral.onePointZero (digits : List Digit) : Numeral := ⟨false, ⟨1, []⟩, some ⟨0, digits⟩, none⟩

/-- The clause that asks for numbers above 1. -/
def NumericClause.aboveOne : NumericClause := ⟨[⟨.greater, Binary64.ofNumeral .one, .one⟩]⟩

/-- The items of the clause that asks for numbers above 1. -/
def Json.aboveOne : List Json := [.str ">", .num .one]

theorem Numeral.hasKey_one : one.HasKey := ⟨by decide, by decide +kernel⟩

theorem NumericClause.ofJson_aboveOne : ofJson Json.aboveOne = .ok aboveOne :=
  ofJson_eq_ok_iff.mpr ⟨List.cons_ne_nil _ _, .cons rfl (by decide +kernel) .nil⟩

theorem Json.writable_aboveOne (d : Nat) : Json.WritableItems d Json.aboveOne :=
  ⟨trivial, (by decide : Json.numeral? one.spelling = some one), trivial⟩

theorem Json.parse?_nativeAboveOne : Json.parse? "\x7b\"k\":[\x7b\"numeric\":[\">\",1]\x7d]\x7d" =
    some (.obj [("k", .arr [.obj [("numeric", .arr Json.aboveOne)]])]) := by
  have htext : (Json.obj [("k", .arr [.obj [("numeric", .arr Json.aboveOne)]])]).text =
      "\x7b\"k\":[\x7b\"numeric\":[\">\",1]\x7d]\x7d" := by decide
  rw [← htext]
  refine Json.parse?_text ?_ rfl
  exact ⟨126, rfl, ⟨125, rfl, ⟨124, rfl, ⟨123, rfl, Json.writable_aboveOne _⟩, trivial⟩, trivial⟩, trivial⟩

theorem Json.parse?_extensionAboveOne :
    Json.parse? "\x7b\"k\":[\x7b\"extension\":\x7b\"numeric\":[\">\",1]\x7d\x7d]\x7d" =
      some (.obj [("k", .arr [.obj [("extension", .obj [("numeric", .arr Json.aboveOne)])]])]) := by
  have htext : (Json.obj [("k", .arr [.obj [("extension", .obj [("numeric", .arr Json.aboveOne)])]])]).text =
      "\x7b\"k\":[\x7b\"extension\":\x7b\"numeric\":[\">\",1]\x7d\x7d]\x7d" := by decide
  rw [← htext]
  refine Json.parse?_text ?_ rfl
  exact ⟨126, rfl, ⟨125, rfl, ⟨124, rfl, ⟨123, rfl, ⟨122, rfl, Json.writable_aboveOne _⟩, trivial⟩, trivial⟩,
    trivial⟩, trivial⟩

theorem Json.parseBytes?_onePointZero {digits : List Digit} {text : String}
    (htext : (Json.obj [("k", .num (onePointZero digits))]).text = text)
    (hn : Json.numeral? (onePointZero digits).spelling = some (onePointZero digits)) :
    Json.parseBytes? (Bytes.ofString text) = some (.obj [("k", .num (onePointZero digits))]) := by
  rw [Json.parseBytes?_ofString, ← htext]
  exact Json.parse?_text ⟨126, rfl, hn, trivial⟩ rfl

theorem Matcher.exists_nativeAboveOne : ∃ m, (Matcher.empty Json.flatten none 0).addAll
    [(true, "\x7b\"k\":[\x7b\"numeric\":[\">\",1]\x7d]\x7d")] = (.ok (), m) :=
  exists_eq_ok_of_toBool (by decide +kernel)

theorem Matcher.exists_extensionAboveOne : ∃ m, (Matcher.empty Json.flatten (some .standard) 0).addAll
    [(true, "\x7b\"k\":[\x7b\"extension\":\x7b\"numeric\":[\">\",1]\x7d\x7d]\x7d")] = (.ok (), m) :=
  exists_eq_ok_of_toBool (by decide +kernel)

/-- The key of 1.0000001 is not that of 1, so both report it as above 1. -/
theorem Matcher.matchEvent_numeric_clauses_apart : ∃ m m' : Matcher Bool,
    (Matcher.empty Json.flatten none 0).addAll [(true, "\x7b\"k\":[\x7b\"numeric\":[\">\",1]\x7d]\x7d")] = (.ok (), m) ∧
    (Matcher.empty Json.flatten (some .standard) 0).addAll
      [(true, "\x7b\"k\":[\x7b\"extension\":\x7b\"numeric\":[\">\",1]\x7d\x7d]\x7d")] = (.ok (), m') ∧
    (onePointZero [0, 0, 0, 0, 0, 1]).InOrderOfKeys one ∧
    ∃ ids ids', m.matchEvent (Bytes.ofString "\x7b\"k\":1.0000001\x7d") = .ok ids ∧
      m'.matchEvent (Bytes.ofString "\x7b\"k\":1.0000001\x7d") = .ok ids' ∧ true ∈ ids ∧ true ∈ ids' := by
  obtain ⟨m, hm⟩ := Matcher.exists_nativeAboveOne
  obtain ⟨m', hm'⟩ := Matcher.exists_extensionAboveOne
  have hkey : (onePointZero [0, 0, 0, 0, 0, 1]).HasKey := ⟨by decide, by decide +kernel⟩
  have horder : (onePointZero [0, 0, 0, 0, 0, 1]).InOrderOfKeys one := by decide +kernel
  have hevent : Json.parseBytes? (Bytes.ofString "\x7b\"k\":1.0000001\x7d") =
      some (.obj [("k", .num (onePointZero [0, 0, 0, 0, 0, 1]))]) :=
    Json.parseBytes?_onePointZero (by decide) (by decide)
  obtain ⟨ids, ids', hids, hids', -, hmem', hagree, -⟩ := Matcher.matchEvent_numeric_clauses Json.aboveOne _
    NumericClause.ofJson_aboveOne rfl (List.forall_mem_singleton.mpr hasKey_one) _ hkey _ hevent
    none 0 _ m hm true _ List.mem_cons_self (by simp) Json.parse?_nativeAboveOne
    0 _ m' hm' true _ List.mem_cons_self (by simp) Json.parse?_extensionAboveOne
  have hin : true ∈ ids' := by
    refine hmem'.mpr (List.forall_mem_singleton.mpr ?_)
    show (Binary64.ofNumeral one).toRat < (onePointZero [0, 0, 0, 0, 0, 1]).reading.toRat
    decide +kernel
  exact ⟨m, m', hm, hm', horder, ids, ids', hids, hids', (hagree (List.forall_mem_singleton.mpr horder)).mpr hin, hin⟩

/-- The numbers 1.00000001 and 1 have one key, but what is read from the first is above the value of the second, so
only the extension reports it. -/
theorem Matcher.matchEvent_close_numbers : ∃ m m' : Matcher Bool,
    (Matcher.empty Json.flatten none 0).addAll [(true, "\x7b\"k\":[\x7b\"numeric\":[\">\",1]\x7d]\x7d")] = (.ok (), m) ∧
    (Matcher.empty Json.flatten (some .standard) 0).addAll
      [(true, "\x7b\"k\":[\x7b\"extension\":\x7b\"numeric\":[\">\",1]\x7d\x7d]\x7d")] = (.ok (), m') ∧
    NumericClause.ofJson Json.aboveOne = .ok .aboveOne ∧ NumericClause.aboveOne.isApproximate = false ∧
    (∀ t ∈ NumericClause.aboveOne.constraints, t.numeral.HasKey) ∧ (onePointZero [0, 0, 0, 0, 0, 0, 1]).HasKey ∧
    Json.parseBytes? (Bytes.ofString "\x7b\"k\":1.00000001\x7d") =
      some (.obj [("k", .num (onePointZero [0, 0, 0, 0, 0, 0, 1]))]) ∧
    ∃ ids ids', m.matchEvent (Bytes.ofString "\x7b\"k\":1.00000001\x7d") = .ok ids ∧
      m'.matchEvent (Bytes.ofString "\x7b\"k\":1.00000001\x7d") = .ok ids' ∧ true ∉ ids ∧ true ∈ ids' := by
  obtain ⟨m, hm⟩ := Matcher.exists_nativeAboveOne
  obtain ⟨m', hm'⟩ := Matcher.exists_extensionAboveOne
  have hkey : (onePointZero [0, 0, 0, 0, 0, 0, 1]).HasKey := ⟨by decide, by decide +kernel⟩
  have hargs : ∀ t ∈ NumericClause.aboveOne.constraints, t.numeral.HasKey := List.forall_mem_singleton.mpr hasKey_one
  have hevent : Json.parseBytes? (Bytes.ofString "\x7b\"k\":1.00000001\x7d") =
      some (.obj [("k", .num (onePointZero [0, 0, 0, 0, 0, 0, 1]))]) :=
    Json.parseBytes?_onePointZero (by decide) (by decide)
  obtain ⟨ids, hids, hmem⟩ := Matcher.matchEvent_native NumericClause.ofJson_aboveOne rfl List.mem_cons_self
    (by simp) hevent hkey hm Json.parse?_nativeAboveOne hargs
  obtain ⟨ids', hids', hmem'⟩ := Matcher.matchEvent_extension NumericClause.ofJson_aboveOne rfl List.mem_cons_self
    (by simp) hevent hkey hm' Json.parse?_extensionAboveOne
  refine ⟨m, m', hm, hm', NumericClause.ofJson_aboveOne, rfl, hargs, hkey, hevent, ids, ids', hids, hids',
    fun h => ?_, ?_⟩
  · have hlt : one.keyOf < (onePointZero [0, 0, 0, 0, 0, 0, 1]).keyOf := hmem.mp h _ List.mem_cons_self
    exact absurd hlt (by decide +kernel)
  · refine hmem'.mpr (List.forall_mem_singleton.mpr ?_)
    show (Binary64.ofNumeral one).toRat < (onePointZero [0, 0, 0, 0, 0, 0, 1]).reading.toRat
    decide +kernel

end EventMatch
