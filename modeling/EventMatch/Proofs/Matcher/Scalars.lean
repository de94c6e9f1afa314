import EventMatch.Proofs.Json.Writing
import EventMatch.Proofs.Matcher.RawBytes

/-!
# Scalars in patterns and events

Texts are the same scalar (`Json.SameScalar`) if they are strings with the same characters, the same word, or
numbers with the same key, or without keys but with the same plain text. A pattern that asks for one scalar is reported
for the events that have the same one, whatever patterns there are besides (`Matcher.matchEvent_scalar`).
-/

namespace EventMatch

open Numeral

/-- Two numbers are the same if both have one key, or none has a key and their plain texts are the same. -/
def Numeral.SameNumber (u v : Bytes) : Prop :=
  match canonical u, canonical v with
  | .ok ds, .ok es => ds = es
  | .error _, .error _ => plainText u = plainText v
  | _, _ => False

instance (u v : Bytes) : Decidable (Numeral.SameNumber u v) :=
  match hu : canonical u, hv : canonical v with
  | .ok ds, .ok es => decidable_of_iff (ds = es) (by rw [SameNumber, hu, hv])
  | .error _, .error _ => decidable_of_iff (plainText u = plainText v) (by rw [SameNumber, hu, hv])
  | .ok _, .error _ | .error _, .ok _ => .isFalse (by rw [SameNumber, hu, hv]; exact id)

namespace Json

/-- The scalar that a text is, with nothing before or after it. -/
def scalar? (s : String) : Option Json :=
  match value 0 s.toList with
  | some (j, ⟨[], _⟩) => some j
  | _ => none

/-- Two texts are scalars of one kind that say the same: strings with the same characters, the
same word, or the same number. -/
def SameScalar (s t : String) : Prop :=
  match scalar? s, scalar? t with
  | some null, some null => True
  | some (bool a), some (bool b) => a = b
  | some (str a), some (str b) => a = b
  | some (num _), some (num _) => SameNumber (Bytes.ofString s) (Bytes.ofString t)
  | _, _ => False

/-! ## Scalars and their texts -/

theorem scalar?_eq_some {s : String} {j : Json} : scalar? s = some j ↔ Reads (value 0) s.toList j [] := by
  unfold scalar?
  constructor
  · intro h
    split at h
    · rename_i hv
      cases h
      exact ⟨_, hv⟩
    · cases h
  · rintro ⟨hlt, hv⟩
    rw [hv]

/-- A scalar is read also where more follows that could not go on a number. -/
theorem Reads.scalar_append {s t : List Char} {j : Json} (h : Reads (value 0) s j []) (ht : Settled t) (d : Nat) :
    Reads (value d) (s ++ t) j t := by
  refine reads_value_iff.mpr ?_
  cases reads_value_iff.mp h with
  | null => exact .null
  | true => exact .true
  | false => exact .false
  | str h => exact .str (h.string_append t)
  | num h =>
    obtain ⟨-, m, rfl, hz, hn⟩ := reads_number_iff.mp h
    rw [List.append_nil]
    exact .num (reads_number_iff.mpr ⟨ht, m, rfl, hz, hn⟩)

theorem resolve?_of_reads_scalar {s rest : List Char} {j : Json} (h : Reads (value 0) s j rest) :
    j.resolve? = some j := by
  cases reads_value_iff.mp h with
  | null | true | false | str _ | num _ => rfl

section

variable {s : String} {j : Json} (h : scalar? s = some j)

include h

theorem parse?_scalarPattern :
    parse? ("\x7b\"k\":[" ++ s ++ "]\x7d") = some (obj [("k", arr [j])]) := by
  have hj := scalar?_eq_some.mp h
  have htext : ("\x7b\"k\":[" ++ s ++ "]\x7d").toList =
      '\x7b' :: (renderString "k" ++ ':' :: '[' :: (s.toList ++ [']', '\x7d'])) := by
    rw [String.toList_append, String.toList_append, List.append_assoc]
    rfl
  have hreads := reads_object_singleton "k" (reads_array_singleton
    (hj.scalar_append (settled_cons (show isNumberChar ']' = false by decide) ['\x7d']) 125))
  rw [parse?, htext, asWritten?_of_reads hreads]
  have hitems := resolve?_array_singleton (resolve?_of_reads_scalar hj)
  exact resolve?_object_singleton (show "k" ≠ numberKey by decide) hitems

theorem parse?_scalarEvent : parse? ("\x7b\"k\":" ++ s ++ "\x7d") = some (obj [("k", j)]) := by
  have hj := scalar?_eq_some.mp h
  have htext : ("\x7b\"k\":" ++ s ++ "\x7d").toList =
      '\x7b' :: (renderString "k" ++ ':' :: (s.toList ++ ['\x7d'])) := by
    rw [String.toList_append, String.toList_append, List.append_assoc]
    rfl
  have hreads := reads_object_singleton "k"
    (hj.scalar_append (settled_cons (show isNumberChar '\x7d' = false by decide) []) 126)
  rw [parse?, htext, asWritten?_of_reads hreads]
  exact resolve?_object_singleton (show "k" ≠ numberKey by decide) (resolve?_of_reads_scalar hj)

end

/-- The value is written as it is read, not as a number. -/
def IsLiteral : Json → Prop
  | null | bool _ | str _ => True
  | _ => False

theorem IsLiteral.isNumeral_text : ∀ {j : Json}, j.IsLiteral → isNumeral (Bytes.ofString j.text) = false := by
  intro j hj
  obtain ⟨c, r, hr, hc⟩ : ∃ c r, j.render = c :: r ∧ isNumberChar c = false := by
    cases j with
    | null => exact ⟨'n', _, rfl, by decide⟩
    | bool b => cases b with
      | true => exact ⟨'t', _, rfl, by decide⟩
      | false => exact ⟨'f', _, rfl, by decide⟩
    | str s => exact ⟨'"', _, rfl, by decide⟩
    | num n => exact hj.elim
    | arr items => exact hj.elim
    | obj members => exact hj.elim
  refine Bool.of_not_eq_true fun h => ?_
  obtain ⟨n, hn⟩ := Option.isSome_iff_exists.mp h
  have htext : n.text = j.text := by
    rw [← Bytes.ofString_inj, ofString_text]
    exact spelling_of_parse? hn
  have hmem : c ∈ n.text.toList := by
    rw [htext, text, String.toList_ofList, hr]
    exact List.mem_cons_self
  rw [isNumberChar_of_mem_text hmem] at hc
  cases hc

theorem IsLiteral.writable {j : Json} (hj : j.IsLiteral) (d : Nat) : j.Writable d := by
  cases j with
  | null | bool _ | str _ => trivial
  | num _ | arr _ | obj _ => exact hj.elim

theorem IsLiteral.text_inj {j k : Json} (hj : j.IsLiteral) (hk : k.IsLiteral) : j.text = k.text ↔ j = k := by
  refine ⟨fun h => ?_, congrArg text⟩
  have hread := asWritten?_text (hj.writable maxDepth)
  rw [h, asWritten?_text (hk.writable maxDepth)] at hread
  exact (Option.some.inj hread).symm

theorem IsLiteral.value_eq {j : Json} (hj : j.IsLiteral) (path : String) :
    Pattern.value path j = .ok (.literal (Bytes.ofString j.text)) := by
  cases j with
  | null | bool _ | str _ => rfl
  | num _ | arr _ | obj _ => exact hj.elim

theorem IsLiteral.leaves_eq {j : Json} (hj : j.IsLiteral) (path : String) (trail : List ArrayPos) (arrays : Nat) :
    j.leaves path trail arrays = ([⟨path, Bytes.ofString j.text, trail⟩], arrays) := by
  cases j with
  | null | bool _ | str _ => rfl
  | num _ | arr _ | obj _ => exact hj.elim

theorem IsLiteral.reached_iff {j : Json} (hj : j.IsLiteral) {values : List ValueSpec} (hp : ∀ s ∈ values, s.Proper) :
    Reached values (Bytes.ofString j.text) ↔ .literal (Bytes.ofString j.text) ∈ values := by
  have hbytes : ∀ b ∈ Bytes.ofString j.text, b.toNat < 0xF5 := fun b hb => Bytes.toNat_lt_of_mem_ofString hb
  rw [reached_of_not_isNumeral hp hj.isNumeral_text,
    Bytes.upToTerminator_of_not_mem fun ht => absurd (hbytes _ ht) (by decide)]
  refine or_iff_left ?_
  rintro ⟨ds, hds, -⟩
  rw [hds] at hbytes
  exact absurd (hbytes numberMark List.mem_cons_self) (by decide)

end Json

/-! ## Numbers as values -/

namespace Numeral

theorem sameNumber_iff {m n : Numeral} : SameNumber m.spelling n.spelling ↔
    (m.HasKey ∧ n.HasKey ∧ m.keyOf = n.keyOf) ∨ (¬ m.HasKey ∧ m.plain = n.plain) := by
  unfold SameNumber
  by_cases hm : m.HasKey
  · rw [canonical_spelling_of_hasKey hm]
    by_cases hn : n.HasKey
    · rw [canonical_spelling_of_hasKey hn]
      simp only [hm, hn, true_and, not_true, false_and, or_false, keyDigits_keyOf_inj hm hn]
    · obtain ⟨e, he⟩ := canonical_error_of_not_hasKey hn
      simp only [he, hn, false_and, and_false, not_true, hm, or_false]
  · obtain ⟨e, he⟩ := canonical_error_of_not_hasKey hm
    by_cases hn : n.HasKey
    · rw [he, canonical_spelling_of_hasKey hn]
      simp only [hm, false_and, not_false_eq_true, true_and, false_or, false_iff]
      exact fun h => hm ((hasKey_congr h).mpr hn)
    · obtain ⟨e', he'⟩ := canonical_error_of_not_hasKey hn
      simp only [he, he', hm, false_and, not_false_eq_true, true_and, false_or, plainText_eq_iff]

end Numeral

theorem Pattern.number_of_hasKey {n : Numeral} (h : n.HasKey) : number n = .ok (.number (keyDigits n.keyOf)) := by
  rw [number, canonical_spelling_of_hasKey h]

theorem Pattern.number_of_not_hasKey {n : Numeral} (h : ¬ n.HasKey) :
    number n = .ok (.literal (plainText n.spelling)) := by
  obtain ⟨e, he⟩ := canonical_error_of_not_hasKey h
  rw [number, he]

theorem numberFits_number {m n : Numeral} (hm : m.HasKey) :
    NumberFits [.number (keyDigits m.keyOf)] n ↔ n.HasKey ∧ n.keyOf = m.keyOf := by
  have hlit : ¬ ValueSpec.literal (plainText n.spelling) ∈ [ValueSpec.number (keyDigits m.keyOf)] := by simp
  have hclause : ¬ ∃ c k, ValueSpec.numeric c ∈ [ValueSpec.number (keyDigits m.keyOf)] ∧ k ≤ maxKey ∧ c.KeyHolds k ∧
      keyDigits n.keyOf = keyDigits k := by simp
  rw [NumberFits, or_iff_left hlit, KeyFits, or_iff_left hclause]
  refine and_congr_right fun hn => ?_
  rw [List.mem_singleton, ValueSpec.number.injEq, keyDigits_keyOf_inj hn hm]

theorem numberFits_literal {text : Bytes} {n : Numeral} :
    NumberFits [.literal text] n ↔ plainText n.spelling = text := by
  have hkey : ¬ KeyFits [.literal text] (keyDigits n.keyOf) := by simp [KeyFits]
  rw [NumberFits, or_iff_right fun h => hkey h.2, List.mem_singleton, ValueSpec.literal.injEq]

theorem sameNumber_congr {m m' n n' : Numeral} (hm : m.plain = m'.plain) (hn : n.plain = n'.plain) :
    SameNumber m.spelling n.spelling ↔ SameNumber m'.spelling n'.spelling := by
  rw [sameNumber_iff, sameNumber_iff, hasKey_congr hm, hasKey_congr hn, keyOf_congr hm, keyOf_congr hn, hm, hn]

/-- A number is found by another one if they are the same. -/
theorem reached_number_iff {path : String} {m n : Numeral} {v : ValueSpec}
    (hv : Pattern.value path (.num m) = .ok v) :
    Reached [v] (plainText n.spelling) ↔ SameNumber m.spelling n.spelling := by
  have hp : ∀ s ∈ [v], s.Proper := List.forall_mem_singleton.mpr (ValueSpec.proper_of_value hv)
  rw [plainText_spelling, reached_spelling hp, sameNumber_iff]
  by_cases hm : m.HasKey
  · obtain rfl := Except.ok.inj ((Pattern.number_of_hasKey hm).symm.trans hv)
    rw [numberFits_number hm, hasKey_plain, keyOf_plain]
    simp only [hm, true_and, not_true, false_and, or_false, eq_comm]
  · obtain rfl := Except.ok.inj ((Pattern.number_of_not_hasKey hm).symm.trans hv)
    rw [numberFits_literal, plainText_eq_iff, plain_plain]
    simp only [hm, false_and, not_false_eq_true, true_and, false_or, eq_comm]

/-! ## Scalars as values -/

namespace Json

theorem isLiteral_or_number_of_reads {s rest : List Char} {j : Json} (h : Reads (value 0) s j rest) :
    j.IsLiteral ∨ ∃ n, j = .num n ∧ Reads number s n rest := by
  cases reads_value_iff.mp h with
  | null | true | false | str _ => exact .inl trivial
  | num h => exact .inr ⟨_, rfl, h⟩

/-- A scalar is a literal or a number, and a number is spelled like its text up to the exponent's mark and sign. -/
theorem scalar?_cases {s : String} {j : Json} (h : scalar? s = some j) :
    j.IsLiteral ∨ ∃ m n : Numeral, j = .num n ∧ Bytes.ofString s = m.spelling ∧ m.plain = n.plain := by
  refine (isLiteral_or_number_of_reads (scalar?_eq_some.mp h)).imp_right ?_
  rintro ⟨n, rfl, hn⟩
  obtain ⟨-, m, hs, -, rfl⟩ := reads_number_iff.mp hn
  rw [List.append_nil] at hs
  refine ⟨m, _, rfl, ?_, m.plain_withSignedExponent.symm⟩
  rw [← ofString_text, Bytes.ofString_inj]
  exact String.toList_inj.mp hs

/-- The bytes of a scalar as a field's value. -/
def fieldValue : Json → Bytes
  | .num n => plainText n.spelling
  | j => Bytes.ofString j.text

theorem IsLiteral.fieldValue_eq {j : Json} (hj : j.IsLiteral) : j.fieldValue = Bytes.ofString j.text := by
  cases j with
  | num n => exact hj.elim
  | null | bool _ | str _ | arr _ | obj _ => rfl

/-- A literal is the same as itself only. -/
theorem sameScalar_iff_eq {s t : String} {j k : Json} (hs : scalar? s = some j) (ht : scalar? t = some k)
    (h : j.IsLiteral ∨ k.IsLiteral) : SameScalar s t ↔ k = j := by
  rw [SameScalar, hs, ht]
  cases j <;> cases k <;> simp_all [IsLiteral, eq_comm]

theorem IsLiteral.text_ne_plainText {j : Json} (hj : j.IsLiteral) (n : Numeral) :
    Bytes.ofString j.text ≠ plainText n.spelling := by
  intro h
  have hnum := isNumeral_plainText n
  rw [← h, hj.isNumeral_text] at hnum
  cases hnum

/-- A scalar is found by a pattern's scalar if they are the same. -/
theorem reached_scalar_iff {s t : String} {j k : Json} (hs : scalar? s = some j) (ht : scalar? t = some k)
    {path : String} {v : ValueSpec} (hv : Pattern.value path j = .ok v) :
    Reached [v] k.fieldValue ↔ SameScalar s t := by
  have hp : ∀ s ∈ [v], s.Proper := List.forall_mem_singleton.mpr (ValueSpec.proper_of_value hv)
  rcases scalar?_cases hs with hj | ⟨m', m, rfl, hms, hm⟩
  · rw [sameScalar_iff_eq hs ht (.inl hj)]
    obtain rfl := Except.ok.inj ((hj.value_eq path).symm.trans hv)
    rcases scalar?_cases ht with hk | ⟨n', n, rfl, -, -⟩
    · rw [hk.fieldValue_eq, hk.reached_iff hp, List.mem_singleton, ValueSpec.literal.injEq, Bytes.ofString_inj,
        hk.text_inj hj]
    · -- No literal is the plain text of a number.
      show Reached _ (plainText n.spelling) ↔ _
      rw [plainText_spelling, reached_spelling hp, numberFits_literal]
      exact iff_of_false (fun h => hj.text_ne_plainText n.plain h.symm) fun h => (h ▸ hj : (num n).IsLiteral)
  · rcases scalar?_cases ht with hk | ⟨n', n, rfl, hnt, hn⟩
    · rw [sameScalar_iff_eq hs ht (.inr hk), hk.fieldValue_eq, hk.reached_iff hp, List.mem_singleton]
      refine iff_of_false (fun h => ?_) fun h => (h ▸ hk : (num m).IsLiteral)
      by_cases hkey : m.HasKey
      · rw [← Except.ok.inj ((Pattern.number_of_hasKey hkey).symm.trans hv)] at h
        cases h
      · rw [← Except.ok.inj ((Pattern.number_of_not_hasKey hkey).symm.trans hv)] at h
        exact hk.text_ne_plainText m (ValueSpec.literal.inj h)
    · -- The texts and the numerals that are kept of them differ in their exponents' marks and signs only.
      rw [SameScalar, hs, ht, hms, hnt]
      show Reached [v] (plainText n.spelling) ↔ SameNumber m'.spelling n'.spelling
      rw [reached_number_iff hv, sameNumber_congr hm hn]

theorem exists_value_scalar {s : String} {j : Json} (hs : scalar? s = some j) (path : String) :
    ∃ v, Pattern.value path j = .ok v ∧ v.IsExact := by
  rcases scalar?_cases hs with hj | ⟨_, n, rfl, -, -⟩
  · exact ⟨_, hj.value_eq path, trivial⟩
  · by_cases hn : n.HasKey
    · exact ⟨_, Pattern.number_of_hasKey hn, trivial⟩
    · exact ⟨_, Pattern.number_of_not_hasKey hn, trivial⟩

theorem leaves_scalar {s : String} {j : Json} (hs : scalar? s = some j) (path : String) :
    j.leaves path [] 0 = ([⟨path, j.fieldValue, []⟩], 0) := by
  rcases scalar?_cases hs with hj | ⟨_, n, rfl, -, -⟩
  · rw [hj.leaves_eq, hj.fieldValue_eq]
  · rfl

end Json

/-! ## Patterns with one scalar -/

/-- A pattern that asks for one scalar is reported for the events with the same scalar, however either is
spelled and whatever patterns there are besides. -/
theorem Matcher.matchEvent_scalar {ι : Type} [BEq ι] [LawfulBEq ι] (parser : Option SpecParser) (asked : Nat)
    (patterns : List (ι × String)) (m : Matcher ι)
    (h : (Matcher.empty Json.flatten parser asked).addAll patterns = (.ok (), m)) (s t : String)
    (hs : (Json.scalar? s).isSome) (ht : (Json.scalar? t).isSome) (x : ι)
    (hx : (x, "\x7b\"k\":[" ++ s ++ "]\x7d") ∈ patterns)
    (honly : ∀ text, (x, text) ∈ patterns → text = "\x7b\"k\":[" ++ s ++ "]\x7d") :
    ∃ ids, m.matchEvent (Bytes.ofString ("\x7b\"k\":" ++ t ++ "\x7d")) = .ok ids ∧
      (x ∈ ids ↔ Json.SameScalar s t) := by
  obtain ⟨j, hj⟩ := Option.isSome_iff_exists.mp hs
  obtain ⟨k, hk⟩ := Option.isSome_iff_exists.mp ht
  obtain ⟨v, hv, hexact⟩ := Json.exists_value_scalar hj "k"
  have hparse : Pattern.parse ("\x7b\"k\":[" ++ s ++ "]\x7d") = .ok [⟨"k", [v]⟩] := by
    refine Pattern.parse_of_singleton (Json.parse?_scalarPattern hj) (List.cons_ne_nil _ _) ?_
    rw [List.mapM_cons, hv]
    rfl
  have hevent : Json.parseBytes? (Bytes.ofString ("\x7b\"k\":" ++ t ++ "\x7d")) = some (.obj [("k", k)]) := by
    rw [Json.parseBytes?_ofString, Json.parse?_scalarEvent hk]
  refine ⟨_, Matcher.matchEvent_of_addAll h hevent, ?_⟩
  have hacc := testsAccept_of_isExact parser (List.forall_mem_singleton.mpr hexact)
  rw [Matcher.mem_matchFields_oneField h hx honly hparse hacc, Json.fields_of_singleton (Json.leaves_scalar hk "k"),
    ← Json.reached_scalar_iff hj hk hv]
  simp only [List.mem_singleton, exists_eq_left, or_false, true_and]

theorem Json.exists_num : ∀ {j : Option Json}, (j.any fun | .num _ => true | _ => false) = true →
    ∃ n, j = some (.num n)
  | some (.num n), _ => ⟨n, rfl⟩

theorem Json.exists_str : ∀ {j : Option Json}, (j.any fun | .str _ => true | _ => false) = true →
    ∃ s, j = some (.str s)
  | some (.str s), _ => ⟨s, rfl⟩

/-- With another pattern's range on the same path, a pattern with the number 1.0 is reported for 10e-1, not
for the string. -/
theorem Matcher.matchEvent_scalar_number : ∃ m : Matcher Bool,
    (Matcher.empty Json.flatten none 0).addAll
      [(true, "\x7b\"k\":[" ++ "1.0" ++ "]\x7d"),
        (false, "\x7b\"k\":[\x7b\"numeric\":[\"<\",5]\x7d]\x7d")] = (.ok (), m) ∧
    (∃ ids, m.matchEvent (Bytes.ofString ("\x7b\"k\":" ++ "10e-1" ++ "\x7d")) = .ok ids ∧ true ∈ ids) ∧
    ∃ ids, m.matchEvent (Bytes.ofString ("\x7b\"k\":" ++ "\"1.0\"" ++ "\x7d")) = .ok ids ∧ true ∉ ids := by
  obtain ⟨m, hm⟩ := exists_eq_ok_of_toBool (x := (Matcher.empty Json.flatten none 0).addAll
    [(true, "\x7b\"k\":[" ++ "1.0" ++ "]\x7d"), (false, "\x7b\"k\":[\x7b\"numeric\":[\"<\",5]\x7d]\x7d")])
    (by decide +kernel)
  obtain ⟨n, hn⟩ := Json.exists_num (j := Json.scalar? "1.0") (by decide +kernel)
  obtain ⟨n', hn'⟩ := Json.exists_num (j := Json.scalar? "10e-1") (by decide +kernel)
  obtain ⟨text, hs⟩ := Json.exists_str (j := Json.scalar? "\"1.0\"") (by decide +kernel)
  have hiff := fun t ht => Matcher.matchEvent_scalar none 0 _ m hm "1.0" t (by rw [hn]; rfl) ht true
    List.mem_cons_self (by simp)
  refine ⟨m, hm, ?_, ?_⟩
  · obtain ⟨ids, hids, hmem⟩ := hiff "10e-1" (by rw [hn']; rfl)
    refine ⟨ids, hids, hmem.mpr ?_⟩
    rw [Json.SameScalar, hn, hn']
    exact (by decide +kernel : SameNumber (Bytes.ofString "1.0") (Bytes.ofString "10e-1"))
  · obtain ⟨ids, hids, hmem⟩ := hiff "\"1.0\"" (by rw [hs]; rfl)
    refine ⟨ids, hids, fun h => ?_⟩
    have hsame := (Json.sameScalar_iff_eq hn hs (.inr trivial)).mp (hmem.mp h)
    cases hsame

end EventMatch
