import EventMatch.Proofs.Numeral.Digits
import EventMatch.Proofs.Numeral.Rounding
import EventMatch.Proofs.Numeral.Spelling

/-!
# Keys and the numbers they are for

Which numbers have a key (`Numeral.HasKey`), and which digits spell it
(`canonical_eq_ok`). A larger number has no smaller key (`shifted_mono`). Two
roundings and one to an integer stand between a number and its key, which is off
by 248 at most (`abs_shifted_sub_le`), so numbers that are not too close
have different keys (`shifted_lt_of_gap`).
-/

namespace EventMatch.Numeral

/-! ## Digits -/

theorem toUInt8_digitChar {d : Nat} (h : d < 10) : (Nat.digitChar d).toUInt8 = digitByte d := by
  revert d
  decide

theorem lastDigits_zero (w : Nat) : lastDigits w 0 = List.replicate w 0x30 := by
  induction w with
  | zero => rfl
  | succ w ih => rw [lastDigits, Nat.zero_div, ih, List.replicate_succ']; rfl

/-- Numbers of no more than `w` digits, padded to `w` digits. -/
theorem padded_decimal {w n : Nat} (hw : w ≠ 0) (h : n < 10 ^ w) : padded w (decimal n) = lastDigits w n := by
  induction w generalizing n with
  | zero => exact absurd rfl hw
  | succ w ih =>
    rw [lastDigits, decimal, Nat.toDigits_eq_if (by decide)]
    by_cases hn : n < 10
    · rw [if_pos hn, Nat.div_eq_of_lt hn, Nat.mod_eq_of_lt hn, lastDigits_zero, List.map_singleton,
        toUInt8_digitChar hn]
      rfl
    · have hw' : w ≠ 0 := by
        rintro rfl
        omega
      have hdiv : n / 10 < 10 ^ w := Nat.div_lt_of_lt_mul (by rwa [Nat.pow_succ'] at h)
      rw [if_neg hn, List.map_append, List.map_singleton, toUInt8_digitChar (Nat.mod_lt n (by decide)),
        ← ih hw' hdiv, padded, padded, List.length_append, List.length_singleton, Nat.add_sub_add_right,
        List.append_assoc]
      rfl

theorem ofDecimal_append_digit (ds : Bytes) {d : Nat} (h : d < 10) :
    ofDecimal (ds ++ [digitByte d]) = 10 * ofDecimal ds + d := by
  rw [ofDecimal, List.foldl_append, List.foldl_cons, List.foldl_nil, toNat_digitByte h, ← ofDecimal]
  omega

theorem ofDecimal_lastDigits {w n : Nat} (h : n < 10 ^ w) : ofDecimal (lastDigits w n) = n := by
  induction w generalizing n with
  | zero =>
    rw [Nat.pow_zero, Nat.lt_one_iff] at h
    exact h.symm
  | succ w ih =>
    have hdiv : n / 10 < 10 ^ w := Nat.div_lt_of_lt_mul (by rwa [Nat.pow_succ'] at h)
    rw [lastDigits, show UInt8.ofNat (0x30 + n % 10) = digitByte (n % 10) from rfl,
      ofDecimal_append_digit _ (Nat.mod_lt n (by decide)), ih hdiv, Nat.div_add_mod]

theorem lt_pow_keyWidth {k : Nat} : k < 10 ^ keyWidth ↔ k ≤ maxKey := by
  rw [keyWidth, maxKey]
  omega

/-! ## Shifted values -/

section

variable {x y : Binary64}

theorem inRange_iff : inRange x = true ↔ x.isFinite = true ∧ x.toRat < bound ∧ -(bound : ℚ) < x.toRat := by
  rw [inRange, Bool.and_eq_true, Bool.and_eq_true, decide_eq_true_iff, decide_eq_true_iff, and_assoc]

theorem isFinite_of_inRange (h : inRange x = true) : x.isFinite = true := (inRange_iff.mp h).1

/-- The value moved up by the bound and rounded. -/
def moved (x : Binary64) : ℚ := Binary64.rounded (x.toRat + bound)

/-- The moved value scaled by the bound and rounded. -/
def scaled (x : Binary64) : ℚ := Binary64.rounded (moved x * bound)

theorem moved_bounds (h : inRange x = true) : 0 ≤ x.toRat + bound ∧ x.toRat + bound < 2 ^ ((-22 : Int) + 53) := by
  obtain ⟨-, h₁, h₂⟩ := inRange_iff.mp h
  have hb : (bound : ℚ) = 1000000000 := rfl
  have hp : (2 : ℚ) ^ ((-22 : Int) + 53) = 2147483648 := by norm_num
  constructor <;> linarith

theorem moved_nonneg (h : inRange x = true) : 0 ≤ moved x := Binary64.rounded_nonneg (moved_bounds h).1

theorem abs_moved_sub_le (h : inRange x = true) : |moved x - (x.toRat + bound)| ≤ 2 ^ (-22 : Int) / 2 :=
  Binary64.abs_rounded_sub_le_of_lt (moved_bounds h).1 (by decide) (moved_bounds h).2

theorem scaled_bounds (h : inRange x = true) : 0 ≤ moved x * bound ∧ moved x * bound < 2 ^ ((8 : Int) + 53) := by
  refine ⟨mul_nonneg (moved_nonneg h) (Nat.cast_nonneg bound), ?_⟩
  obtain ⟨-, h₁, -⟩ := inRange_iff.mp h
  have h₂ := (abs_le.mp (abs_moved_sub_le h)).2
  have hb : (bound : ℚ) = 1000000000 := rfl
  have hp : (2 : ℚ) ^ ((8 : Int) + 53) = 2305843009213693952 := by norm_num
  have hu : (2 : ℚ) ^ (-22 : Int) / 2 ≤ 1 := by norm_num
  rw [hb] at h₁ h₂ ⊢
  rw [hp]
  linarith

theorem abs_scaled_sub_le (h : inRange x = true) : |scaled x - moved x * bound| ≤ 128 := by
  have := Binary64.abs_rounded_sub_le_of_lt (scaled_bounds h).1 (e := 8) (by decide) (scaled_bounds h).2
  exact this.trans_eq (by norm_num)

/-- Both steps of the key stay among the finite values. -/
theorem shifted_eq (h : inRange x = true) : (shifted x : Int) = roundHalfEven (scaled x) := by
  have hlt : ∀ e : Int, e ≤ 1023 → (2 : ℚ) ^ e ≤ 2 ^ (1023 : Int) := fun _ he => two_zpow_le he
  have hm : (Binary64.ofRat (x.toRat + (bound : Rat))).toRat = moved x :=
    Binary64.toRat_ofRat (moved_bounds h).1 ((moved_bounds h).2.trans_le (hlt _ (by decide)))
  have hs : (Binary64.ofRat (moved x * (bound : Rat))).toRat = scaled x :=
    Binary64.toRat_ofRat (scaled_bounds h).1 ((scaled_bounds h).2.trans_le (hlt _ (by decide)))
  have hn : 0 ≤ roundHalfEven (scaled x) :=
    le_roundHalfEven_of_le (by exact_mod_cast Binary64.rounded_nonneg (scaled_bounds h).1)
  rw [shifted, hm, hs, Int.toNat_of_nonneg hn]

/-- A larger number has no smaller key. -/
theorem shifted_mono (hx : inRange x = true) (hy : inRange y = true) (h : x.toRat ≤ y.toRat) :
    shifted x ≤ shifted y := by
  have hm : moved x ≤ moved y := Binary64.rounded_mono (moved_bounds hx).1 (by linarith)
  have hs : scaled x ≤ scaled y :=
    Binary64.rounded_mono (scaled_bounds hx).1 (mul_le_mul_of_nonneg_right hm (Nat.cast_nonneg bound))
  have := roundHalfEven_mono hs
  rw [← shifted_eq hx, ← shifted_eq hy] at this
  exact Int.ofNat_le.mp this

/-- How far a key may be off. -/
theorem abs_shifted_sub_le (h : inRange x = true) : |(shifted x : ℚ) - (x.toRat + bound) * bound| ≤ 248 := by
  have h₁ := abs_le.mp (abs_moved_sub_le h)
  have h₂ := abs_le.mp (abs_scaled_sub_le h)
  have h₃ := abs_le.mp (abs_roundHalfEven_sub_le (scaled x))
  have hcast : (shifted x : ℚ) = roundHalfEven (scaled x) := by exact_mod_cast shifted_eq h
  have hb : (bound : ℚ) = 1000000000 := rfl
  have hu : (2 : ℚ) ^ (-22 : Int) / 2 ≤ 119 / 1000000000 + 1 / 2000000000 := by norm_num
  rw [hb] at h₁ h₂ ⊢
  rw [hcast, abs_le]
  constructor <;> linarith

theorem shifted_lt (h : inRange x = true) : shifted x < 10 ^ keyWidth := by
  have h₁ := (abs_le.mp (abs_shifted_sub_le h)).2
  have h₂ := (inRange_iff.mp h).2.1
  have hb : (bound : ℚ) = 1000000000 := rfl
  have hw : (10 : ℚ) ^ keyWidth = 10000000000000000000 := by norm_num [keyWidth]
  rw [hb] at h₁ h₂
  have : (shifted x : ℚ) < 10 ^ keyWidth := by linarith
  exact_mod_cast this

/-- Numbers that differ by half a millionth have different keys. -/
theorem shifted_lt_of_gap (hx : inRange x = true) (hy : inRange y = true)
    (h : x.toRat + 1 / 2000000 ≤ y.toRat) : shifted x < shifted y := by
  have h₁ := (abs_le.mp (abs_shifted_sub_le hx)).2
  have h₂ := (abs_le.mp (abs_shifted_sub_le hy)).1
  have hb : (bound : ℚ) = 1000000000 := rfl
  rw [hb] at h₁ h₂
  have : (shifted x : ℚ) < shifted y := by linarith
  exact_mod_cast this

end

/-! ## Numbers with keys -/

/-- The number has few enough digits and lies between the bounds. -/
structure HasKey (n : Numeral) : Prop where
  digits : n.significantDigits ≤ maxDigits
  inRange : inRange (Binary64.ofNumeral n) = true

/-- The key of a number that has one. -/
def keyOf (n : Numeral) : Nat := shifted (Binary64.ofNumeral n)

namespace HasKey

variable {m n : Numeral}

theorem keyOf_lt (h : n.HasKey) : n.keyOf < 10 ^ keyWidth := shifted_lt h.inRange

theorem keyOf_le_maxKey (h : n.HasKey) : n.keyOf ≤ maxKey := lt_pow_keyWidth.mp h.keyOf_lt

theorem keyOf_mono (hm : m.HasKey) (hn : n.HasKey)
    (h : (Binary64.ofNumeral m).toRat ≤ (Binary64.ofNumeral n).toRat) : m.keyOf ≤ n.keyOf :=
  shifted_mono hm.inRange hn.inRange h

theorem toRat_lt_of_keyOf_lt (hm : m.HasKey) (hn : n.HasKey) (h : m.keyOf < n.keyOf) :
    (Binary64.ofNumeral m).toRat < (Binary64.ofNumeral n).toRat :=
  not_le.mp fun hle => absurd (hn.keyOf_mono hm hle) (by omega)

end HasKey

theorem canonical_spelling_of_hasKey {n : Numeral} (h : n.HasKey) : canonical n.spelling = .ok (keyDigits n.keyOf) := by
  rw [canonical, parse?_spelling]
  dsimp only
  rw [if_neg (by have := h.digits; omega), if_pos h.inRange, ← keyOf, padded_decimal (by decide) h.keyOf_lt,
    keyDigits]

theorem hasKey_of_canonical {n : Numeral} {ds : Bytes} (h : canonical n.spelling = .ok ds) : n.HasKey := by
  rw [canonical, parse?_spelling] at h
  dsimp only at h
  split at h
  · cases h
  · rename_i hd
    split at h
    · rename_i hr
      exact ⟨by omega, hr⟩
    · cases h

/-- Bytes that have key digits spell a number that has a key, and they are its digits. -/
theorem canonical_eq_ok {v ds : Bytes} :
    canonical v = .ok ds ↔ ∃ n : Numeral, v = n.spelling ∧ n.HasKey ∧ ds = keyDigits n.keyOf := by
  constructor
  · intro h
    cases hp : parse? v with
    | none =>
      rw [canonical, hp] at h
      cases h
    | some n =>
      obtain rfl := spelling_of_parse? hp
      have hk := hasKey_of_canonical h
      rw [canonical_spelling_of_hasKey hk] at h
      exact ⟨n, rfl, hk, (Except.ok.inj h).symm⟩
  · rintro ⟨n, rfl, hk, hds⟩
    rw [hds, canonical_spelling_of_hasKey hk]

theorem key_spelling_of_hasKey {n : Numeral} (h : n.HasKey) : key n.spelling = .ok n.keyOf := by
  rw [key, canonical_spelling_of_hasKey h, Except.map, keyDigits, ofDecimal_lastDigits h.keyOf_lt]

theorem key_spelling_eq_ok {n : Numeral} {k : Nat} : key n.spelling = .ok k ↔ n.HasKey ∧ k = n.keyOf := by
  constructor
  · intro h
    cases hc : canonical n.spelling with
    | error e =>
      rw [key, hc] at h
      cases h
    | ok ds =>
      have hk := hasKey_of_canonical hc
      rw [key_spelling_of_hasKey hk] at h
      exact ⟨hk, (Except.ok.inj h).symm⟩
  · rintro ⟨hk, rfl⟩
    exact key_spelling_of_hasKey hk

theorem hasKey_plain {n : Numeral} : n.plain.HasKey ↔ n.HasKey := by
  constructor
  · rintro ⟨hd, hr⟩
    exact ⟨hd, n.ofNumeral_plain ▸ hr⟩
  · rintro ⟨hd, hr⟩
    exact ⟨hd, n.ofNumeral_plain.symm ▸ hr⟩

theorem keyOf_plain (n : Numeral) : n.plain.keyOf = n.keyOf := congrArg shifted n.ofNumeral_plain

theorem hasKey_congr {m n : Numeral} (h : m.plain = n.plain) : m.HasKey ↔ n.HasKey := by
  rw [← hasKey_plain, h, hasKey_plain]

theorem keyOf_congr {m n : Numeral} (h : m.plain = n.plain) : m.keyOf = n.keyOf := by
  rw [← keyOf_plain, h, keyOf_plain]

theorem keyDigits_keyOf_inj {m n : Numeral} (hm : m.HasKey) (hn : n.HasKey) :
    keyDigits m.keyOf = keyDigits n.keyOf ↔ m.keyOf = n.keyOf :=
  ⟨lastDigits_inj hm.keyOf_lt hn.keyOf_lt, congrArg keyDigits⟩

theorem canonical_error_of_not_hasKey {n : Numeral} (h : ¬ n.HasKey) :
    ∃ e, canonical n.spelling = .error (.range e) := by
  rw [canonical, parse?_spelling]
  dsimp only
  split
  · exact ⟨_, rfl⟩
  · rename_i hd
    split
    · rename_i hr
      exact absurd ⟨Nat.le_of_not_lt hd, hr⟩ h
    · exact ⟨_, rfl⟩

end EventMatch.Numeral
