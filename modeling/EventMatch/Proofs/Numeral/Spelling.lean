import EventMatch.Numeral.Key
import EventMatch.Proofs.Text.Bytes

/-!
# Numerals and their spellings

`parse?_spelling` and `spelling_of_parse?`: a numeral and its spelling determine
each other. `canonical_of_plainText_eq`: the key of a number depends only on its
plain text.
-/

namespace EventMatch

/-! ## Digits -/

theorem Digit.ofByte?_byte (d : Digit) : Digit.ofByte? d.byte = some d := by
  revert d
  decide

theorem Digit.byte_of_ofByte? {b : UInt8} {d : Digit} (h : Digit.ofByte? b = some d) : d.byte = b := by
  unfold Digit.ofByte? at h
  split at h
  · rename_i hb
    cases h
    refine UInt8.toNat_inj.mp ?_
    rw [Digit.byte, UInt8.toNat_ofNat_of_lt' (by show 0x30 + (b.toNat - 0x30) < 256; omega)]
    show 0x30 + (b.toNat - 0x30) = b.toNat
    omega
  · cases h

/-- The bytes do not go on with a digit. -/
def Digits.Stops (v : Bytes) : Prop := ∀ b ∈ v.head?, Digit.ofByte? b = none

namespace Digits

theorem stops_nil : Stops [] := fun _ h => by cases h

theorem stops_cons {b : UInt8} (h : Digit.ofByte? b = none) (v : Bytes) : Stops (b :: v) :=
  fun _ e => Option.some.inj e ▸ h

theorem span_append {v : Bytes} (hv : Stops v) (ds : List Digit) :
    span (ds.map Digit.byte ++ v) = (ds, v) := by
  induction ds with
  | nil =>
    cases v with
    | nil => rfl
    | cons b v => rw [List.map_nil, List.nil_append, span, hv b rfl]
  | cons d ds ih => rw [List.map_cons, List.cons_append, span, Digit.ofByte?_byte, ih]

theorem span_eq (v : Bytes) : (span v).1.map Digit.byte ++ (span v).2 = v := by
  induction v with
  | nil => rfl
  | cons b v ih =>
    rw [span]
    cases h : Digit.ofByte? b with
    | none => rfl
    | some d => rw [List.map_cons, List.cons_append, ih, Digit.byte_of_ofByte? h]

theorem take?_spelling (ds : Digits) {v : Bytes} (hv : Stops v) :
    take? (ds.spelling ++ v) = some (ds, v) := by
  rw [take?, spelling, span_append hv]
  rfl

theorem eq_of_take? {v rest : Bytes} {ds : Digits} (h : take? v = some (ds, rest)) :
    ds.spelling ++ rest = v := by
  have he := span_eq v
  unfold take? at h
  split at h
  · cases h
  · rename_i heq
    cases h
    rwa [heq] at he

/-- Digits are not the bytes that stand around them in a numeral. -/
theorem byte_ne (d : Digit) : d.byte ≠ 0x2B ∧ d.byte ≠ 0x2D ∧ d.byte ≠ 0x2E ∧ d.byte ≠ 0x65 ∧
    d.byte ≠ 0x45 := by
  revert d
  decide

theorem spelling_eq_cons (ds : Digits) :
    ds.spelling = ds.first.byte :: ds.others.map Digit.byte := rfl

end Digits

/-! ## Parts of numerals -/

namespace Exponent

theorem takeSign_append (sign : Option Sign) (ds : Digits) (v : Bytes) :
    takeSign (signSpelling sign ++ (ds.spelling ++ v)) = (sign, ds.spelling ++ v) := by
  cases sign with
  | none =>
    have h := Digits.byte_ne ds.first
    rw [Digits.spelling_eq_cons]
    show takeSign (ds.first.byte :: _) = _
    unfold takeSign
    split
    · rename_i e
      exact absurd (List.cons.inj e).1 h.1
    · rename_i e
      exact absurd (List.cons.inj e).1 h.2.1
    · rfl
  | some s => cases s <;> rfl

theorem takeSign_eq (v : Bytes) : signSpelling (takeSign v).1 ++ (takeSign v).2 = v := by
  unfold takeSign
  split <;> rfl

theorem take?_spellingOf (e : Option Exponent) : take? (spellingOf e) = some (e, []) := by
  cases e with
  | none => rfl
  | some e =>
    obtain ⟨capital, sign, ds⟩ := e
    have h : Digits.take? (takeSign (signSpelling sign ++ ds.spelling)).2 = some (ds, []) := by
      have := takeSign_append sign ds []
      rw [List.append_nil] at this
      rw [this]
      simpa using ds.take?_spelling Digits.stops_nil
    have hs : (takeSign (signSpelling sign ++ ds.spelling)).1 = sign := by
      have := takeSign_append sign ds []
      rw [List.append_nil] at this
      rw [this]
    cases capital <;> simp [spellingOf, spelling, take?, h, hs]

theorem eq_of_take? {v rest : Bytes} {e : Option Exponent} (h : take? v = some (e, rest)) :
    spellingOf e ++ rest = v := by
  cases v with
  | nil =>
    cases h
    rfl
  | cons mark v =>
    by_cases hm : mark = 0x65 ∨ mark = 0x45
    · rw [take?, if_pos hm] at h
      obtain ⟨⟨ds, after⟩, hd, he⟩ := Option.map_eq_some_iff.mp h
      cases he
      have hv := takeSign_eq v
      rw [← Digits.eq_of_take? hd, ← List.append_assoc] at hv
      rcases hm with rfl | rfl
      · exact congrArg (List.cons 0x65) hv
      · exact congrArg (List.cons 0x45) hv
    · rw [take?, if_neg hm] at h
      cases h
      rfl

theorem stops_spellingOf (e : Option Exponent) : Digits.Stops (spellingOf e) := by
  cases e with
  | none => exact Digits.stops_nil
  | some e =>
    refine Digits.stops_cons ?_ _
    split <;> decide

/-- An exponent's bytes do not begin with a point. -/
theorem spellingOf_ne_point (e : Option Exponent) (v : Bytes) : spellingOf e ≠ 0x2E :: v := by
  cases e with
  | none => exact (List.cons_ne_nil _ _).symm
  | some e =>
    intro h
    have := (List.cons.inj h).1
    split at this <;> exact absurd this (by decide)

end Exponent

namespace Numeral

theorem takeFraction?_append (f : Option Digits) (e : Option Exponent) :
    takeFraction? (fractionSpelling f ++ Exponent.spellingOf e) = some (f, Exponent.spellingOf e) := by
  cases f with
  | none =>
    show takeFraction? (Exponent.spellingOf e) = _
    unfold takeFraction?
    split
    · rename_i h
      exact absurd h (Exponent.spellingOf_ne_point e _)
    · rfl
  | some ds =>
    show (Digits.take? (ds.spelling ++ _)).map _ = _
    rw [ds.take?_spelling (Exponent.stops_spellingOf e)]
    rfl

theorem eq_of_takeFraction? {v rest : Bytes} {f : Option Digits} (h : takeFraction? v = some (f, rest)) :
    fractionSpelling f ++ rest = v := by
  unfold takeFraction? at h
  split at h
  · obtain ⟨⟨ds, after⟩, hd, he⟩ := Option.map_eq_some_iff.mp h
    cases he
    exact congrArg (List.cons 0x2E) (Digits.eq_of_take? hd)
  · cases h
    rfl

theorem stops_fractionSpelling (f : Option Digits) (e : Option Exponent) :
    Digits.Stops (fractionSpelling f ++ Exponent.spellingOf e) := by
  cases f with
  | none => exact Exponent.stops_spellingOf e
  | some ds => exact Digits.stops_cons (by decide) _

theorem takeMinus_append (negative : Bool) (ds : Digits) (v : Bytes) :
    takeMinus ((if negative then [0x2D] else []) ++ (ds.spelling ++ v)) = (negative, ds.spelling ++ v) := by
  cases negative with
  | true => rfl
  | false =>
    rw [Digits.spelling_eq_cons]
    show takeMinus (ds.first.byte :: _) = _
    unfold takeMinus
    split
    · rename_i e
      exact absurd (List.cons.inj e).1 (Digits.byte_ne ds.first).2.1
    · rfl

theorem takeMinus_eq (v : Bytes) : (if (takeMinus v).1 then [0x2D] else []) ++ (takeMinus v).2 = v := by
  unfold takeMinus
  split <;> rfl

/-! ## Numerals -/

theorem spelling_assoc (n : Numeral) :
    n.spelling = (if n.negative then [0x2D] else []) ++ (n.whole.spelling ++
      (fractionSpelling n.fraction ++ Exponent.spellingOf n.exponent)) := by
  rw [spelling, List.append_assoc, List.append_assoc]

/-- Reading what a numeral writes gives the numeral back. -/
theorem parse?_spelling (n : Numeral) : parse? n.spelling = some n := by
  rw [spelling_assoc, parse?, takeMinus_append]
  simp [n.whole.take?_spelling (stops_fractionSpelling n.fraction n.exponent), takeFraction?_append,
    Exponent.take?_spellingOf]

/-- The bytes that are read as a numeral are its spelling. -/
theorem spelling_of_parse? {v : Bytes} {n : Numeral} (h : parse? v = some n) : n.spelling = v := by
  have hm := takeMinus_eq v
  unfold parse? at h
  obtain ⟨⟨whole, v₁⟩, hw, h⟩ := Option.bind_eq_some_iff.mp h
  obtain ⟨⟨fraction, v₂⟩, hf, h⟩ := Option.bind_eq_some_iff.mp h
  obtain ⟨⟨exponent, v₃⟩, he, h⟩ := Option.bind_eq_some_iff.mp h
  dsimp only at hw hf he h
  split at h
  · rename_i hv
    cases h
    rw [spelling_assoc]
    have he := Exponent.eq_of_take? he
    rw [List.isEmpty_iff.mp hv, List.append_nil] at he
    rwa [he, eq_of_takeFraction? hf, Digits.eq_of_take? hw]
  · cases h

theorem spelling_inj {m n : Numeral} (h : m.spelling = n.spelling) : m = n :=
  Option.some.inj (by rw [← parse?_spelling m, h, parse?_spelling])

theorem isNumeral_spelling (n : Numeral) : isNumeral n.spelling := by
  rw [isNumeral, parse?_spelling]
  rfl

/-- A numeral begins with a minus or a digit. -/
theorem spelling_head (n : Numeral) : ∃ b v, n.spelling = b :: v ∧
    (b = 0x2D ∨ 0x30 ≤ b.toNat ∧ b.toNat < 0x3A) := by
  rw [spelling_assoc]
  cases n.negative with
  | true => exact ⟨0x2D, _, rfl, .inl rfl⟩
  | false =>
    refine ⟨n.whole.first.byte, _, rfl, .inr ?_⟩
    generalize n.whole.first = d
    revert d
    decide

/-- A numeral is written with digits, signs, a point and exponent marks. -/
theorem mem_spelling {n : Numeral} {b : UInt8} (h : b ∈ n.spelling) :
    (∃ d : Digit, b = d.byte) ∨ b ∈ [0x2B, 0x2D, 0x2E, 0x45, 0x65] := by
  have hdigits : ∀ ds : Digits, b ∈ ds.spelling → ∃ d : Digit, b = d.byte := fun ds hb => by
    obtain ⟨d, _, rfl⟩ := List.mem_map.mp hb
    exact ⟨d, rfl⟩
  rw [spelling_assoc] at h
  simp only [List.mem_append] at h
  rcases h with h | h | h | h
  · split at h
    · rw [List.mem_singleton.mp h]
      exact .inr (by decide)
    · cases h
  · exact .inl (hdigits _ h)
  · cases hf : n.fraction with
    | none =>
      rw [hf] at h
      cases h
    | some ds =>
      rw [hf] at h
      rcases List.mem_cons.mp h with rfl | h
      · exact .inr (by decide)
      · exact .inl (hdigits _ h)
  · cases he : n.exponent with
    | none =>
      rw [he] at h
      cases h
    | some e =>
      rw [he] at h
      rcases List.mem_cons.mp h with rfl | h
      · exact .inr (by split <;> decide)
      · rcases List.mem_append.mp h with h | h
        · rcases hs : e.sign with _ | _ | _ <;> rw [hs] at h
          · cases h
          · rw [List.mem_singleton.mp h]
            exact .inr (by decide)
          · rw [List.mem_singleton.mp h]
            exact .inr (by decide)
        · exact .inl (hdigits _ h)

/-- Numerals are written in ASCII. -/
theorem toNat_lt_of_mem_spelling {n : Numeral} {b : UInt8} (h : b ∈ n.spelling) : b.toNat < 0x80 := by
  have hdigit : ∀ d : Digit, d.byte.toNat < 0x80 := by decide
  rcases mem_spelling h with ⟨d, rfl⟩ | h
  · exact hdigit d
  · simp only [List.mem_cons, List.not_mem_nil, or_false] at h
    rcases h with rfl | rfl | rfl | rfl | rfl <;> decide

/-- The text of a numeral has its bytes. -/
theorem ofString_text (n : Numeral) : Bytes.ofString n.text = n.spelling :=
  Bytes.ofString_map_ofNat fun _ h => toNat_lt_of_mem_spelling h

/-! ## Plain spellings -/

/-- The numeral whose spelling is the plain text of another one's. -/
def plain (n : Numeral) : Numeral :=
  { n with exponent := n.exponent.map fun e =>
      { e with capital := false, sign := if e.sign = some .plus then none else e.sign } }

/-- A byte that `plainFrom` keeps anywhere. -/
def Kept (b : UInt8) : Prop := b ≠ 0x65 ∧ b ≠ 0x45 ∧ b ≠ 0x2B

theorem plainFrom_cons {b : UInt8} (hb : Kept b) (afterMark : Bool) (v : Bytes) :
    plainFrom afterMark (b :: v) = b :: plainFrom false v := by
  rw [plainFrom, if_neg fun h => h.elim hb.1 hb.2.1, if_neg fun h => hb.2.2 h.1]

theorem plainFrom_append {u : Bytes} (hu : ∀ b ∈ u, Kept b) (v : Bytes) :
    plainFrom false (u ++ v) = u ++ plainFrom false v := by
  induction u with
  | nil => rfl
  | cons b u ih =>
    rw [List.cons_append, plainFrom_cons (hu b List.mem_cons_self),
      ih fun c hc => hu c (List.mem_cons_of_mem _ hc), List.cons_append]

theorem kept_byte (d : Digit) : Kept d.byte := by
  have h := Digits.byte_ne d
  exact ⟨h.2.2.2.1, h.2.2.2.2, h.1⟩

theorem kept_of_mem_spelling {ds : Digits} {b : UInt8} (h : b ∈ ds.spelling) : Kept b := by
  obtain ⟨d, _, rfl⟩ := List.mem_map.mp h
  exact kept_byte d

theorem plainFrom_spelling (afterMark : Bool) (ds : Digits) :
    plainFrom afterMark ds.spelling = ds.spelling := by
  have hkept : ∀ b ∈ ds.others.map Digit.byte, Kept b := fun b hb =>
    have hb : b ∈ ds.spelling := List.mem_cons_of_mem _ hb
    kept_of_mem_spelling hb
  have h := plainFrom_append hkept []
  rw [List.append_nil] at h
  rw [Digits.spelling_eq_cons, plainFrom_cons (kept_byte _), h, plainFrom, List.append_nil]

theorem kept_mantissa (n : Numeral) {b : UInt8}
    (h : b ∈ (if n.negative then [0x2D] else []) ++ n.whole.spelling ++ fractionSpelling n.fraction) :
    Kept b := by
  rcases List.mem_append.mp h with h | h
  · rcases List.mem_append.mp h with h | h
    · split at h
      · rw [List.mem_singleton.mp h]
        exact ⟨by decide, by decide, by decide⟩
      · cases h
    · exact kept_of_mem_spelling h
  · cases hf : n.fraction with
    | none =>
      rw [hf] at h
      cases h
    | some ds =>
      rw [hf] at h
      rcases List.mem_cons.mp h with rfl | h
      · exact ⟨by decide, by decide, by decide⟩
      · exact kept_of_mem_spelling h

theorem plainText_spelling (n : Numeral) : plainText n.spelling = n.plain.spelling := by
  rw [plainText, spelling, plainFrom_append fun b hb => kept_mantissa n hb]
  suffices h : plainFrom false (Exponent.spellingOf n.exponent) = Exponent.spellingOf n.plain.exponent by
    rw [h]
    rfl
  cases he : n.exponent with
  | none => rw [plain, he]; rfl
  | some e =>
    obtain ⟨capital, sign, ds⟩ := e
    have hds := plainFrom_spelling
    rw [plain, he]
    have hmark : ∀ v, plainFrom false ((if capital then 0x45 else 0x65) :: v) = 0x65 :: plainFrom true v :=
      fun v => by cases capital <;> rfl
    show plainFrom false (_ :: (Exponent.signSpelling sign ++ ds.spelling)) = _
    rw [hmark]
    refine congrArg (List.cons 0x65) ?_
    rcases sign with _ | _ | _
    · exact hds true ds
    · exact hds false ds
    · exact congrArg (List.cons 0x2D) (hds false ds)

theorem isNumeral_plainText (n : Numeral) : isNumeral (plainText n.spelling) = true := by
  rw [plainText_spelling]
  exact n.plain.isNumeral_spelling

theorem plain_plain (n : Numeral) : n.plain.plain = n.plain := by
  obtain ⟨negative, whole, fraction, _ | ⟨capital, _ | _ | _, digits⟩⟩ := n <;> rfl

theorem plainText_eq_iff {m n : Numeral} : plainText m.spelling = plainText n.spelling ↔ m.plain = n.plain := by
  rw [plainText_spelling, plainText_spelling]
  exact ⟨spelling_inj, congrArg spelling⟩

/-! ## Keys and spellings -/

theorem plain_significantDigits (n : Numeral) : n.plain.significantDigits = n.significantDigits := rfl

theorem plain_scale (n : Numeral) : n.plain.scale = n.scale := by
  cases he : n.exponent with
  | none => simp [scale, plain, he]
  | some e =>
    obtain ⟨capital, sign, ds⟩ := e
    rcases sign with _ | _ | _ <;> simp [scale, plain, he, Exponent.value]

theorem ofNumeral_plain (n : Numeral) : Binary64.ofNumeral n.plain = Binary64.ofNumeral n := by
  simp only [Binary64.ofNumeral, magnitude, plain_scale]
  rfl

/-- Whether a number has a key, and which one, shows in its plain text. -/
theorem canonical_of_plainText_eq {m n : Numeral} (h : plainText m.spelling = plainText n.spelling)
    {ds : Bytes} (hm : canonical m.spelling = .ok ds) : canonical n.spelling = .ok ds := by
  rw [plainText_spelling, plainText_spelling] at h
  have he := spelling_inj h
  have hd : m.significantDigits = n.significantDigits := by
    rw [← plain_significantDigits, he, plain_significantDigits]
  have hx : Binary64.ofNumeral m = Binary64.ofNumeral n := by
    rw [← ofNumeral_plain, he, ofNumeral_plain]
  rw [canonical, parse?_spelling] at hm ⊢
  dsimp only at hm ⊢
  rw [hd, hx] at hm
  split at hm
  · cases hm
  · rename_i hdig
    split at hm
    · rename_i hr
      rwa [if_neg hdig, if_pos hr]
    · cases hm

/-- The digits of keys are digits. -/
theorem mem_canonical {v ds : Bytes} (h : canonical v = .ok ds) {b : UInt8} (hb : b ∈ ds) :
    0x30 ≤ b.toNat ∧ b.toNat < 0x3A := by
  unfold canonical at h
  split at h
  · cases h
  · split at h
    · cases h
    · split at h
      · cases h
        rcases List.mem_append.mp hb with hb | hb
        · rw [List.eq_of_mem_replicate hb]
          decide
        · obtain ⟨c, hc, rfl⟩ := List.mem_map.mp hb
          have hd := Nat.isDigit_of_mem_toDigits (by decide) (by decide) hc
          have hc := Char.isDigit_iff_toNat.mp hd
          have h0 : '0'.toNat = 0x30 := rfl
          have h9 : '9'.toNat = 0x39 := rfl
          have he : c.toUInt8.toNat = c.toNat % 256 := by
            rw [← Char.toUInt8_val, UInt32.toNat_toUInt8]
            rfl
          omega
      · cases h

end Numeral

end EventMatch
