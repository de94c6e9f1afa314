import EventMatch.Proofs.Numeral.Key

/-!
# Plain texts of numerals

A byte string is its mantissa, which stands before the first exponent mark, and its exponent. The
plain text keeps the mantissa and rewrites the exponent (`parts_plainText`), so two plain texts are
the same exactly if the mantissas are and the plain exponents are (`plainText_eq_iff_parts`). Of a
numeral's exponent the plain text keeps what is behind the mark and a plus
(`exists_signSpelling_eq`), so two of them have one exactly if they agree but for these
(`plainFrom_spellingOf_eq_iff`). `plainText_normal` says in which sense plain texts are a normal
form: they are numerals, they are their own plain texts, they have the keys of what they are
plain texts of, and numerals share one exactly if they differ in nothing else.
-/

namespace EventMatch.Numeral

/-! ## Mantissas and exponents of byte strings -/

/-- A small or a capital exponent mark. -/
def isMark (b : UInt8) : Bool := b == 0x65 || b == 0x45

/-- The bytes before the first exponent mark. -/
def mantissa (v : Bytes) : Bytes := v.takeWhile fun b => !isMark b

/-- The bytes from the first exponent mark on. -/
def exponentPart (v : Bytes) : Bytes := v.dropWhile fun b => !isMark b

/-- There is no exponent, or there are two that differ at most in the case of the mark and in a
plus behind it. -/
def ExponentsAgree (u v : Bytes) : Prop :=
  (u = [] ∧ v = []) ∨ ∃ a b s t rest, isMark a = true ∧ isMark b = true ∧ s ∈ [[], [0x2B]] ∧ t ∈ [[], [0x2B]] ∧
    u = a :: (s ++ rest) ∧ v = b :: (t ++ rest)

section

variable {u v w : Bytes} {b : UInt8}

theorem isMark_iff : isMark b = true ↔ b = 0x65 ∨ b = 0x45 := by
  rw [isMark, Bool.or_eq_true, beq_iff_eq, beq_iff_eq]

theorem plainFrom_mark (hb : isMark b = true) (afterMark : Bool) (v : Bytes) :
    plainFrom afterMark (b :: v) = 0x65 :: plainFrom true v := by
  rw [plainFrom, if_pos (isMark_iff.mp hb)]

theorem plainFrom_of_not_isMark (hb : isMark b = false) (v : Bytes) :
    plainFrom false (b :: v) = b :: plainFrom false v := by
  rw [Bool.eq_false_iff, ne_eq, isMark_iff] at hb
  rw [plainFrom, if_neg hb, if_neg fun h => Bool.false_ne_true h.2]

/-- The plain text keeps the mantissa and rewrites the exponent. -/
theorem parts_plainText (v : Bytes) :
    mantissa (plainText v) = mantissa v ∧ exponentPart (plainText v) = plainFrom false (exponentPart v) := by
  rw [plainText]
  induction v with
  | nil => exact ⟨rfl, rfl⟩
  | cons b v ih =>
    simp only [mantissa, exponentPart] at ih ⊢
    cases hb : isMark b with
    | true =>
      simp only [plainFrom_mark hb, List.takeWhile_cons, List.dropWhile_cons, hb]
      exact ⟨rfl, (plainFrom_mark hb false v).symm⟩
    | false =>
      simp only [plainFrom_of_not_isMark hb, List.takeWhile_cons, List.dropWhile_cons, hb, Bool.not_false, if_pos]
      exact ⟨congrArg (List.cons b) ih.1, ih.2⟩

theorem mantissa_append_exponentPart (v : Bytes) : mantissa v ++ exponentPart v = v := List.takeWhile_append_dropWhile

/-- Plain texts are the same exactly if they are of one mantissa and their exponents are. -/
theorem plainText_eq_iff_parts :
    plainText v = plainText w ↔
      mantissa v = mantissa w ∧ plainFrom false (exponentPart v) = plainFrom false (exponentPart w) := by
  obtain ⟨hmv, hev⟩ := parts_plainText v
  obtain ⟨hmw, hew⟩ := parts_plainText w
  rw [← hmv, ← hmw, ← hev, ← hew]
  constructor
  · intro h
    rw [h]
    exact ⟨rfl, rfl⟩
  · rintro ⟨hm, he⟩
    rw [← mantissa_append_exponentPart (plainText v), hm, he, mantissa_append_exponentPart]

/-- No capital mark is left. -/
theorem capital_not_mem_plainFrom : ∀ (afterMark : Bool) (v : Bytes), 0x45 ∉ plainFrom afterMark v
  | _, [] => List.not_mem_nil
  | afterMark, b :: v => by
    rw [plainFrom]
    split
    · exact List.not_mem_cons_of_ne_of_not_mem (by decide) (capital_not_mem_plainFrom true v)
    · rename_i hb
      split
      · exact capital_not_mem_plainFrom false v
      · exact List.not_mem_cons_of_ne_of_not_mem (fun h => hb (.inr h.symm)) (capital_not_mem_plainFrom false v)

/-- Without capital marks and pluses there is nothing to rewrite. -/
theorem plainFrom_eq_self : ∀ {v : Bytes} (afterMark : Bool), 0x45 ∉ v → 0x2B ∉ v → plainFrom afterMark v = v
  | [], _, _, _ => rfl
  | b :: v, afterMark, hcapital, hplus => by
    have htail := fun afterMark => plainFrom_eq_self afterMark (List.not_mem_of_not_mem_cons hcapital)
      (List.not_mem_of_not_mem_cons hplus)
    by_cases hm : b = 0x65
    · rw [plainFrom, if_pos (.inl hm), htail, hm]
    · rw [plainFrom, if_neg fun h => h.elim hm (List.ne_of_not_mem_cons hcapital).symm,
        if_neg fun h => List.ne_of_not_mem_cons hplus h.1.symm, htail]

end

/-! ## Exponents of numerals -/

section

variable {e f : Option Exponent}

/-- A plus behind the mark of an exponent makes no difference, since digits follow it. -/
theorem plainFrom_plus {mark : UInt8} {rest : Bytes} (h : Exponent.spellingOf e = mark :: 0x2B :: rest) :
    plainFrom true (0x2B :: rest) = plainFrom true rest := by
  obtain _ | ⟨capital, sign, ds⟩ := e
  · exact absurd h (List.cons_ne_nil _ _).symm
  have h : Exponent.signSpelling sign ++ ds.spelling = 0x2B :: rest := (List.cons.inj h).2
  rcases sign with _ | _ | _
  · exact absurd (List.cons.inj h).1 (Digits.byte_ne ds.first).1
  · rw [← (List.cons.inj h).2]
    exact (plainFrom_spelling false ds).trans (plainFrom_spelling true ds).symm
  · exact absurd (List.cons.inj h).1 (by decide)

/-- Behind a mark there is at most a plus before what the plain text keeps. -/
theorem exists_signSpelling_eq (sign : Option Sign) (ds : Digits) : ∃ s, s ∈ [[], [0x2B]] ∧
    Exponent.signSpelling sign ++ ds.spelling = s ++ plainFrom true (Exponent.signSpelling sign ++ ds.spelling) := by
  rcases sign with _ | _ | _
  · exact ⟨[], by decide, (plainFrom_spelling true ds).symm⟩
  · exact ⟨[0x2B], by decide, congrArg (List.cons 0x2B) (plainFrom_spelling false ds).symm⟩
  · exact ⟨[], by decide, congrArg (List.cons 0x2D) (plainFrom_spelling false ds).symm⟩

theorem isMark_ite (capital : Bool) : isMark (if capital then 0x45 else 0x65) = true := by
  cases capital <;> decide

/-- Exponents have one plain spelling exactly if they agree. -/
theorem plainFrom_spellingOf_eq_iff :
    plainFrom false (Exponent.spellingOf e) = plainFrom false (Exponent.spellingOf f) ↔
      ExponentsAgree (Exponent.spellingOf e) (Exponent.spellingOf f) := by
  constructor
  · intro h
    rcases e with _ | ⟨c, sign, ds⟩ <;> rcases f with _ | ⟨d, sign', ds'⟩
    · exact .inl ⟨rfl, rfl⟩
    · rw [Exponent.spellingOf, Exponent.spellingOf, Exponent.spelling, plainFrom_mark (isMark_ite d)] at h
      cases h
    · rw [Exponent.spellingOf, Exponent.spellingOf, Exponent.spelling, plainFrom_mark (isMark_ite c)] at h
      cases h
    · simp only [Exponent.spellingOf, Exponent.spelling, plainFrom_mark (isMark_ite c),
        plainFrom_mark (isMark_ite d)] at h ⊢
      obtain ⟨s, hs, hse⟩ := exists_signSpelling_eq sign ds
      obtain ⟨t, ht, hte⟩ := exists_signSpelling_eq sign' ds'
      rw [← (List.cons.inj h).2] at hte
      exact .inr ⟨_, _, s, t, _, isMark_ite c, isMark_ite d, hs, ht, congrArg (List.cons _) hse,
        congrArg (List.cons _) hte⟩
  · rintro (⟨he, hf⟩ | ⟨a, b, s, t, rest, ha, hb, hs, ht, he, hf⟩)
    · rw [he, hf]
    · rw [he, hf, plainFrom_mark ha, plainFrom_mark hb]
      refine congrArg (List.cons 0x65) ?_
      simp only [List.mem_cons, List.not_mem_nil, or_false] at hs ht
      rcases hs with rfl | rfl <;> rcases ht with rfl | rfl
      · rfl
      · exact (plainFrom_plus hf).symm
      · exact plainFrom_plus he
      · rfl

end

/-! ## The normal form -/

theorem exponentPart_spelling (n : Numeral) : exponentPart n.spelling = Exponent.spellingOf n.exponent := by
  have hmantissa : ∀ b ∈ (if n.negative then [0x2D] else []) ++ n.whole.spelling ++ fractionSpelling n.fraction,
      (!isMark b) = true := fun b hb => by
    have hkept := kept_mantissa n hb
    rw [Bool.not_eq_true', Bool.eq_false_iff, ne_eq, isMark_iff]
    exact fun h => h.elim hkept.1 hkept.2.1
  rw [exponentPart, spelling, List.dropWhile_append_of_pos hmantissa]
  obtain _ | ⟨capital, sign, ds⟩ := n.exponent
  · rfl
  · rw [Exponent.spellingOf, Exponent.spelling, List.dropWhile_cons_of_neg]
    simp [isMark_ite]

/-- Plain spellings have no plus: none is in a mantissa, and none is left behind a mark. -/
theorem plus_not_mem_plain (n : Numeral) : 0x2B ∉ n.plain.spelling := by
  intro h
  rw [spelling] at h
  rcases List.mem_append.mp h with h | h
  · exact (kept_mantissa n.plain h).2.2 rfl
  · have hdigits : ∀ ds : Digits, 0x2B ∉ ds.spelling := fun _ hd => (kept_of_mem_spelling hd).2.2 rfl
    cases he : n.exponent with
    | none =>
      rw [plain, he] at h
      cases h
    | some e =>
      obtain ⟨capital, sign, ds⟩ := e
      rw [plain, he] at h
      rcases List.mem_cons.mp h with h | h
      · exact absurd h (show (0x2B : UInt8) ≠ 0x65 by decide)
      · rcases sign with _ | _ | _
        · exact hdigits ds h
        · exact hdigits ds h
        · exact hdigits ds (List.mem_of_ne_of_mem (by decide) h)

theorem canonical_plainText (n : Numeral) :
    (∃ ds, canonical n.spelling = .ok ds ∧ canonical (plainText n.spelling) = .ok ds) ∨
      ∃ e e', canonical n.spelling = .error (.range e) ∧ canonical (plainText n.spelling) = .error (.range e') := by
  rw [plainText_spelling]
  by_cases h : n.HasKey
  · refine .inl ⟨_, canonical_spelling_of_hasKey h, ?_⟩
    rw [canonical_spelling_of_hasKey (hasKey_plain.mpr h), keyOf_plain]
  · obtain ⟨e, he⟩ := canonical_error_of_not_hasKey h
    obtain ⟨e', he'⟩ := canonical_error_of_not_hasKey (mt hasKey_plain.mp h)
    exact .inr ⟨e, e', he, he'⟩

/-- The plain text of a numeral is a numeral without capital marks and pluses, it is its own plain text, and it has the
key of the numeral, or is refused for its range as that is. Two numerals have one plain text exactly if they have one
mantissa and their exponents agree. -/
theorem plainText_normal {v w : Bytes} (hv : isNumeral v = true) (hw : isNumeral w = true) :
    (isNumeral (plainText v) = true ∧ 0x45 ∉ plainText v ∧ 0x2B ∉ plainText v ∧ plainText (plainText v) = plainText v) ∧
    ((∃ ds, canonical v = .ok ds ∧ canonical (plainText v) = .ok ds) ∨
      ∃ e e', canonical v = .error (.range e) ∧ canonical (plainText v) = .error (.range e')) ∧
    (plainText v = plainText w ↔ mantissa v = mantissa w ∧ ExponentsAgree (exponentPart v) (exponentPart w)) := by
  obtain ⟨m, hm⟩ := Option.isSome_iff_exists.mp hv
  obtain ⟨n, hn⟩ := Option.isSome_iff_exists.mp hw
  obtain rfl := spelling_of_parse? hm
  obtain rfl := spelling_of_parse? hn
  have hcapital := capital_not_mem_plainFrom false m.spelling
  have hplus : 0x2B ∉ plainText m.spelling := m.plainText_spelling ▸ m.plus_not_mem_plain
  refine ⟨⟨m.isNumeral_plainText, hcapital, hplus, plainFrom_eq_self false hcapital hplus⟩, m.canonical_plainText, ?_⟩
  rw [plainText_eq_iff_parts, exponentPart_spelling, exponentPart_spelling, plainFrom_spellingOf_eq_iff]

/-- A number without a key, written in two ways. -/
theorem plainText_normal_spellings :
    plainText (Bytes.ofString "1E+12") = plainText (Bytes.ofString "1e12") ∧
      plainText (plainText (Bytes.ofString "1E+12")) = plainText (Bytes.ofString "1E+12") := by
  obtain ⟨⟨-, -, -, hself⟩, -, hiff⟩ := plainText_normal (v := Bytes.ofString "1E+12") (w := Bytes.ofString "1e12")
    (by decide +kernel) (by decide +kernel)
  refine ⟨hiff.mpr ⟨by decide +kernel, .inr ⟨0x45, 0x65, [0x2B], [], [0x31, 0x32], ?_⟩⟩, hself⟩
  decide +kernel

end EventMatch.Numeral
