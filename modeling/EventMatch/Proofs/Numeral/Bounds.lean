import EventMatch.Proofs.Automaton.KeyRuns
import EventMatch.Proofs.Numeral.Order

/-!
# How large keys are

What fits into a significand is not rounded (`Binary64.rounded_mul_two_zpow`), and from a power of two on
rounding leads to multiples of the step there (`Binary64.exists_rounded_eq_mul`). So a number above the lower
bound is a whole step above it (`HasKey.step_le`), which none of the later roundings loses, and none of them
leads above what the upper bound itself would (`scaled_le`): keys are positive and have far fewer than all values of
their width (`HasKey.keyOf_pos`, `HasKey.keyOf_le`). With this the digits of a key and the key determine each
other (`canonical_iff_key`).
-/

namespace EventMatch

namespace Binary64

/-! ## Values that are not rounded -/

/-- What fits into a significand is not rounded. -/
theorem rounded_mul_two_zpow {m : Nat} (hm : m < 2 ^ 53) {e : Int} (he : minExponent ≤ e) :
    rounded ((m : ℚ) * 2 ^ e) = m * 2 ^ e := by
  rcases Nat.eq_zero_or_pos m with rfl | hpos
  · rw [Nat.cast_zero, zero_mul, rounded_zero]
  have hx : 0 < (m : ℚ) * 2 ^ e := mul_pos (Nat.cast_pos.mpr hpos) (two_zpow_pos e)
  have hlt : (m : ℚ) * 2 ^ e < 2 ^ (53 + e) := by
    rw [two_zpow_add]
    exact mul_lt_mul_of_pos_right (by exact_mod_cast hm) (two_zpow_pos e)
  have hexp : exponentOf (m * 2 ^ e) ≤ e := by
    have := floorLog2_lt hx hlt
    simp only [exponentOf, precision]
    exact max_le he (by omega)
  -- In units of two to its exponent the value is an integer.
  obtain ⟨k, hk⟩ := Int.eq_ofNat_of_zero_le (Int.sub_nonneg.mpr hexp)
  have hdiv : (m : ℚ) * 2 ^ e / 2 ^ exponentOf (m * 2 ^ e) = ((m * 2 ^ k : Int) : ℚ) := by
    rw [div_eq_iff (two_zpow_pos _).ne']
    push_cast
    rw [mul_assoc, ← zpow_natCast, ← two_zpow_add, ← hk, sub_add_cancel]
  rw [rounded, hdiv, roundHalfEven_intCast, ← hdiv, div_mul_cancel₀ _ (two_zpow_pos _).ne']

/-- From a power of two on, what is rounded is a multiple of the step there. -/
theorem exists_rounded_eq_mul {x : ℚ} {e : Int} (h : 2 ^ (e + 52) ≤ x) : ∃ k : Int, rounded x = k * 2 ^ e := by
  have hx : 0 < x := (two_zpow_pos _).trans_le h
  have hexp : e ≤ exponentOf x := by
    have hlog : e + 52 < floorLog2 x + 1 := by
      by_contra hle
      have := two_zpow_le (not_lt.mp hle)
      have := (floorLog2_spec hx).2
      linarith
    have := le_max_right minExponent (floorLog2 x - (precision - 1))
    simp only [exponentOf, precision] at this ⊢
    omega
  obtain ⟨k, hk⟩ := Int.eq_ofNat_of_zero_le (Int.sub_nonneg.mpr hexp)
  refine ⟨roundHalfEven (x / 2 ^ exponentOf x) * 2 ^ k, ?_⟩
  have hsplit : (2 : ℚ) ^ exponentOf x = 2 ^ (k : Int) * 2 ^ e := by
    rw [← two_zpow_add, ← hk, sub_add_cancel]
  rw [rounded, hsplit]
  push_cast
  rw [zpow_natCast, mul_assoc]

end Binary64

namespace Numeral

open Binary64

/-! ## Keys -/

/-- Rounded values below the bound are a step of the format below it. -/
theorem rounded_add_step_le {x : ℚ} (h : rounded x < bound) (hx : 0 ≤ x) : rounded x + 2 ^ (-23 : Int) ≤ bound := by
  have hb : (bound : ℚ) = 1000000000 := rfl
  rcases le_or_gt ((2 : ℚ) ^ ((-23 : Int) + 52)) x with hge | hlt
  · obtain ⟨k, hk⟩ := exists_rounded_eq_mul hge
    have hbound : (bound : ℚ) = ((bound * 2 ^ 23 : Int) : ℚ) * 2 ^ (-23 : Int) := by norm_num [hb]
    rw [hk, hbound] at h ⊢
    have hlt : k < bound * 2 ^ 23 := by exact_mod_cast lt_of_mul_lt_mul_right h (two_zpow_pos _).le
    have hle : (k : ℚ) + 1 ≤ ((bound * 2 ^ 23 : Int) : ℚ) := by exact_mod_cast hlt
    have := mul_le_mul_of_nonneg_right hle (two_zpow_pos (-23)).le
    linarith
  · have hpow : rounded ((1 : Nat) * 2 ^ (29 : Int)) = (1 : Nat) * 2 ^ (29 : Int) :=
      rounded_mul_two_zpow (by norm_num) (by decide)
    rw [Nat.cast_one, one_mul] at hpow
    have hmono := rounded_mono hx hlt.le
    rw [show (-23 : Int) + 52 = 29 from rfl, hpow] at hmono
    have hstep : (2 : ℚ) ^ (29 : Int) + 2 ^ (-23 : Int) ≤ 1000000000 := by norm_num
    rw [hb]
    linarith

section

variable {x : Binary64}

theorem le_shifted (h : inRange x = true) (hstep : 2 ^ (-23 : Int) ≤ x.toRat + bound) : 64 ≤ shifted x := by
  have hb : (bound : ℚ) = 1000000000 := rfl
  have hmoved : (2 : ℚ) ^ (-23 : Int) ≤ moved x := two_zpow_le_rounded (by decide) hstep
  have hscaled : (2 : ℚ) ^ (6 : Int) ≤ scaled x := by
    refine two_zpow_le_rounded (by decide) ?_
    have := mul_le_mul_of_nonneg_right hmoved (Nat.cast_nonneg bound)
    have hstep : (2 : ℚ) ^ (6 : Int) ≤ 2 ^ (-23 : Int) * 1000000000 := by norm_num
    rw [hb] at this ⊢
    linarith
  have hround : (64 : Int) ≤ roundHalfEven (scaled x) := le_roundHalfEven_of_le (by
    refine le_trans ?_ hscaled
    norm_num)
  have := shifted_eq h
  omega

theorem moved_le (h : inRange x = true) : moved x ≤ 2000000000 := by
  have hexact : rounded ((2000000000 : Nat) * 2 ^ (0 : Int)) = (2000000000 : Nat) * 2 ^ (0 : Int) :=
    rounded_mul_two_zpow (by norm_num) (by decide)
  rw [zpow_zero, mul_one] at hexact
  have hb : (bound : ℚ) = 1000000000 := rfl
  have hlt := (inRange_iff.mp h).2.1
  refine (rounded_mono (moved_bounds h).1 ?_).trans hexact.le
  rw [hb] at hlt ⊢
  push_cast
  linarith

theorem scaled_le (h : inRange x = true) : scaled x ≤ 2000000000000000000 := by
  have hexact : rounded ((3814697265625 : Nat) * 2 ^ (19 : Int)) = (3814697265625 : Nat) * 2 ^ (19 : Int) :=
    rounded_mul_two_zpow (by norm_num) (by decide)
  have hvalue : ((3814697265625 : Nat) : ℚ) * 2 ^ (19 : Int) = 2000000000000000000 := by norm_num
  rw [hvalue] at hexact
  have hb : (bound : ℚ) = 1000000000 := rfl
  have hm := moved_le h
  refine (rounded_mono (scaled_bounds h).1 ?_).trans hexact.le
  rw [hb]
  linarith

theorem shifted_le (h : inRange x = true) : shifted x ≤ 2 * 10 ^ 18 := by
  have hround : roundHalfEven (scaled x) ≤ 2000000000000000000 :=
    roundHalfEven_le_of_le (by exact_mod_cast scaled_le h)
  have := shifted_eq h
  omega

end

namespace HasKey

variable {n : Numeral}

/-- A number with a key is a step of the format above the lower bound. -/
theorem step_le (h : n.HasKey) : 2 ^ (-23 : Int) ≤ (ofNumeral n).toRat + bound := by
  obtain ⟨-, -, hlow⟩ := inRange_iff.mp h.inRange
  rw [h.toRat_ofNumeral] at hlow ⊢
  rcases lt_or_ge n.toRat 0 with hneg | hpos
  · rw [nearest, if_pos hneg] at hlow ⊢
    have := rounded_add_step_le (neg_lt_neg_iff.mp hlow) (neg_nonneg.mpr hneg.le)
    linarith
  · rw [nearest_of_nonneg hpos]
    have hr := rounded_nonneg hpos
    have hstep : (2 : ℚ) ^ (-23 : Int) ≤ 1000000000 := by norm_num
    have hb : (bound : ℚ) = 1000000000 := rfl
    rw [hb]
    linarith

theorem keyOf_pos (h : n.HasKey) : 0 < n.keyOf := Nat.lt_of_lt_of_le (by decide) (le_shifted h.inRange h.step_le)

theorem keyOf_le (h : n.HasKey) : n.keyOf ≤ 2 * 10 ^ 18 := shifted_le h.inRange

end HasKey

/-! ## Digits and keys -/

/-- Digits of one width are in the order of the numbers they are of. -/
theorem keyDigits_lt_iff {a b : Nat} (ha : a ≤ maxKey) (hb : b ≤ maxKey) : keyDigits a < keyDigits b ↔ a < b := by
  rw [Bytes.lt_iff_not_le, keyDigits, keyDigits, le_lastDigits_iff (lt_pow_keyWidth.mpr hb) (lt_pow_keyWidth.mpr ha),
    Nat.not_le]

theorem ofDecimal_keyDigits {a : Nat} (ha : a ≤ maxKey) : ofDecimal (keyDigits a) = a :=
  ofDecimal_lastDigits (lt_pow_keyWidth.mpr ha)

/-- The digits of a number's key are as many as keys have, and its key is the number they spell. That is positive and no
more than twice the square of the bound, and its digits are those digits again. The digits of any two keys are in
the order of the keys, and they spell them. -/
theorem canonical_iff_key :
    (∀ v ds, canonical v = .ok ds → ds.length = keyWidth ∧ IsDigits ds ∧ ∃ k, key v = .ok k ∧ k = ofDecimal ds ∧
      0 < k ∧ k < maxKey ∧ k ≤ 2 * 10 ^ 18 ∧ keyDigits k = ds) ∧
    ∀ a b, a ≤ maxKey → b ≤ maxKey → (keyDigits a < keyDigits b ↔ a < b) ∧ ofDecimal (keyDigits a) = a := by
  refine ⟨fun v ds h => ?_, fun a b ha hb => ⟨keyDigits_lt_iff ha hb, ofDecimal_keyDigits ha⟩⟩
  obtain ⟨n, rfl, hn, hds⟩ := canonical_eq_ok.mp h
  have hlt : n.keyOf < maxKey := Nat.lt_of_le_of_lt hn.keyOf_le (by decide)
  have hvalue : n.keyOf = ofDecimal ds := by rw [hds, ofDecimal_keyDigits hlt.le]
  refine ⟨?_, ?_, n.keyOf, key_spelling_of_hasKey hn, hvalue, hn.keyOf_pos, hlt, hn.keyOf_le, hds.symm⟩
  · rw [hds, keyDigits, length_lastDigits]
  · exact hds ▸ isDigits_lastDigits keyWidth n.keyOf

/-- The numbers next to the two bounds have the smallest and the largest key. -/
theorem canonical_iff_key_extremes :
    ∃ ds es, canonical (Bytes.ofString "-999999999.9999999") = .ok ds ∧
      canonical (Bytes.ofString "999999999.9999999") = .ok es ∧
      key (Bytes.ofString "-999999999.9999999") = .ok 119 ∧
      key (Bytes.ofString "999999999.9999999") = .ok (2 * 10 ^ 18) ∧
      keyDigits 119 = ds ∧ keyDigits (2 * 10 ^ 18) = es ∧ ds < es := by
  let m : Numeral := ⟨true, ⟨9, [9, 9, 9, 9, 9, 9, 9, 9]⟩, some ⟨9, [9, 9, 9, 9, 9, 9]⟩, none⟩
  let n : Numeral := { m with negative := false }
  have hm : m.HasKey := ⟨by decide, by decide +kernel⟩
  have hn : n.HasKey := ⟨by decide, by decide +kernel⟩
  have hmkey : m.keyOf = 119 := by decide +kernel
  have hnkey : n.keyOf = 2 * 10 ^ 18 := by decide +kernel
  have hv : parse? (Bytes.ofString "-999999999.9999999") = some m := by decide +kernel
  have hw : parse? (Bytes.ofString "999999999.9999999") = some n := by decide +kernel
  rw [← spelling_of_parse? hv, ← spelling_of_parse? hw]
  obtain ⟨hdigits, horder⟩ := canonical_iff_key
  obtain ⟨-, -, k, hk, -, -, -, -, hds⟩ := hdigits _ _ (canonical_spelling_of_hasKey hm)
  obtain ⟨-, -, l, hl, -, -, -, -, hes⟩ := hdigits _ _ (canonical_spelling_of_hasKey hn)
  obtain ⟨-, rfl⟩ := key_spelling_eq_ok.mp hk
  obtain ⟨-, rfl⟩ := key_spelling_eq_ok.mp hl
  rw [hmkey] at hk hds
  rw [hnkey] at hl hes
  exact ⟨_, _, canonical_spelling_of_hasKey hm, canonical_spelling_of_hasKey hn, hk, hl, hmkey ▸ rfl, hnkey ▸ rfl,
    by rw [hmkey, hnkey]; exact (horder _ _ (by decide) (by decide)).1.mpr (by decide)⟩

end Numeral

end EventMatch
