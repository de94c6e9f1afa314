import EventMatch.Proofs.Numeral.Key
import EventMatch.Proofs.Text.Bytes

/-!
# The order of numbers and of their keys

A numeral is read as its exact value rounded once (`toRat_ofNumeral`), whatever its spelling. With the two
roundings of the key these are three, none of which turns the order of two numbers around, and which together
are too small to hide a millionth (`HasKey.keyOf_lt_of_gap`). Keys of one width are in order as bytes if they
are in order as numbers (`le_keyDigits_iff`), and so the digits of keys are in the order of the exact values
(`canonical_order`).
-/

namespace EventMatch

namespace Binary64

/-! ## Rounding with a sign -/

/-- A rational, rounded to a multiple of two to its exponent. -/
def nearest (x : ℚ) : ℚ := if x < 0 then -rounded (-x) else rounded x

theorem nearest_of_nonneg {x : ℚ} (h : 0 ≤ x) : nearest x = rounded x := if_neg (not_lt.mpr h)

theorem nearest_neg (x : ℚ) : nearest (-x) = -nearest x := by
  rcases lt_trichotomy x 0 with h | rfl | h
  · rw [nearest_of_nonneg (neg_nonneg.mpr h.le), nearest, if_pos h, neg_neg]
  · rw [neg_zero, nearest_of_nonneg le_rfl, rounded_zero, neg_zero]
  · rw [nearest_of_nonneg h.le, nearest, if_pos (neg_neg_iff_pos.mpr h), neg_neg]

theorem nearest_mono {x y : ℚ} (h : x ≤ y) : nearest x ≤ nearest y := by
  rcases lt_or_ge x 0 with hx | hx
  · rcases lt_or_ge y 0 with hy | hy
    · rw [nearest, nearest, if_pos hx, if_pos hy]
      exact neg_le_neg (rounded_mono (neg_nonneg.mpr hy.le) (neg_le_neg h))
    · rw [nearest, if_pos hx, nearest_of_nonneg hy]
      have hx' := rounded_nonneg (neg_nonneg.mpr hx.le)
      have hy' := rounded_nonneg hy
      linarith
  · rw [nearest_of_nonneg hx, nearest_of_nonneg (hx.trans h)]
    exact rounded_mono hx h

/-- Values that are between two powers of two with opposite signs are off by little. -/
theorem abs_nearest_sub_le {x : ℚ} {e : Int} (he : minExponent ≤ e) (h : |x| < 2 ^ (e + 53)) :
    |nearest x - x| ≤ 2 ^ e / 2 := by
  rcases lt_or_ge x 0 with hx | hx
  · rw [abs_of_neg hx] at h
    rw [nearest, if_pos hx, show -rounded (-x) - x = -(rounded (-x) - -x) by ring, abs_neg]
    exact abs_rounded_sub_le_of_lt (neg_nonneg.mpr hx.le) he h
  · rw [abs_of_nonneg hx] at h
    rw [nearest_of_nonneg hx]
    exact abs_rounded_sub_le_of_lt hx he h

/-- A rational is below a power of two if its rounded value is. -/
theorem abs_lt_of_abs_nearest_lt {x : ℚ} {e : Int} (he : minExponent ≤ e) (h : |nearest x| < 2 ^ e) : |x| < 2 ^ e := by
  by_contra hle
  have hr := two_zpow_le_rounded he (not_lt.mp hle)
  rcases lt_or_ge x 0 with hx | hx
  · rw [abs_of_neg hx] at hr
    rw [nearest, if_pos hx, abs_neg, abs_of_nonneg (rounded_nonneg (neg_nonneg.mpr hx.le))] at h
    linarith
  · rw [abs_of_nonneg hx] at hr
    rw [nearest_of_nonneg hx, abs_of_nonneg (rounded_nonneg hx)] at h
    linarith

end Binary64

namespace Numeral

open Binary64

/-! ## Exact values -/

theorem valueOf_concat (ds : List Digit) (d : Digit) :
    Digits.valueOf (ds ++ [d]) = Digits.valueOf ds * 10 + d.val := by
  rw [Digits.valueOf, List.foldl_append]
  rfl

theorem valueOf_lt (ds : List Digit) : Digits.valueOf ds < 10 ^ ds.length := by
  induction ds using List.reverseRecOn with
  | nil => decide
  | append_singleton ds d ih =>
    rw [valueOf_concat, List.length_append, List.length_singleton, Nat.pow_succ]
    omega

/-- Zeros in front do not count. -/
theorem valueOf_dropWhile : ∀ ds : List Digit,
    Digits.valueOf (ds.dropWhile fun d => d.val == 0) = Digits.valueOf ds
  | [] => rfl
  | d :: ds => by
    rw [List.dropWhile_cons]
    split
    · rename_i hd
      rw [valueOf_dropWhile ds, Digits.valueOf, Digits.valueOf, List.foldl_cons, beq_iff_eq.mp hd]
    · rfl

variable {n : Numeral}

theorem magnitude_nonneg (n : Numeral) : 0 ≤ n.magnitude := by
  rw [magnitude, power_eq_zpow]
  positivity

theorem coefficient_lt (n : Numeral) : n.coefficient < 10 ^ n.significantDigits := by
  rw [coefficient, ← valueOf_dropWhile]
  exact valueOf_lt _

/-- The position of the first digit bounds the value. -/
theorem magnitude_lt (n : Numeral) : n.magnitude < 10 ^ ((n.significantDigits : Int) + n.scale) := by
  rw [magnitude, power_eq_zpow, zpow_add₀ (by decide), zpow_natCast]
  refine mul_lt_mul_of_pos_right ?_ (zpow_pos (by decide) _)
  exact_mod_cast n.coefficient_lt

theorem toRat_eq (n : Numeral) : n.toRat = if n.negative then -n.magnitude else n.magnitude := rfl

theorem abs_toRat (n : Numeral) : |n.toRat| = n.magnitude := by
  rw [toRat_eq]
  split
  · rw [abs_neg, abs_of_nonneg n.magnitude_nonneg]
  · rw [abs_of_nonneg n.magnitude_nonneg]

theorem nearest_toRat (n : Numeral) :
    nearest n.toRat = if n.negative then -rounded n.magnitude else rounded n.magnitude := by
  rw [toRat_eq]
  split
  · rw [nearest_neg, nearest_of_nonneg n.magnitude_nonneg]
  · rw [nearest_of_nonneg n.magnitude_nonneg]

/-- What begins that far behind the point is below half of the smallest value. -/
theorem ten_zpow_le {e : Int} (h : e < -zeroFrom) : (10 : ℚ) ^ e ≤ 2 ^ (-1075 : Int) := by
  have hbase : ((2 : ℚ) ^ 33) ^ 33 ≤ (10 ^ 10) ^ 33 := pow_le_pow_left₀ (by norm_num) (by norm_num) 33
  rw [← pow_mul, ← pow_mul] at hbase
  have hpow : (2 : ℚ) ^ 1075 ≤ 10 ^ 331 :=
    (pow_le_pow_right₀ (by norm_num) (by norm_num)).trans (hbase.trans (pow_le_pow_right₀ (by norm_num) (by norm_num)))
  calc (10 : ℚ) ^ e
      ≤ 10 ^ (-(331 : Nat) : Int) := zpow_le_zpow_right₀ (by norm_num) (by rw [zeroFrom] at h; omega)
    _ = (10 ^ 331)⁻¹ := by rw [zpow_neg, zpow_natCast]
    _ ≤ (2 ^ 1075)⁻¹ := inv_anti₀ (by positivity) hpow
    _ = 2 ^ (-(1075 : Nat) : Int) := by rw [zpow_neg, zpow_natCast]

/-- A numeral with a finite value is read as its exact value, rounded. -/
theorem toRat_ofNumeral (h : (ofNumeral n).isFinite = true) : (ofNumeral n).toRat = nearest n.toRat := by
  have hzero : rounded n.magnitude = 0 →
      (finite n.negative 0 minExponent).toRat = nearest n.toRat := fun hr => by
    rw [nearest_toRat, hr, Binary64.toRat, Nat.cast_zero, zero_mul]
  unfold ofNumeral at h ⊢
  dsimp only at h ⊢
  split
  · rename_i hc
    exact hzero (by rw [magnitude, hc, Nat.cast_zero, zero_mul, rounded_zero])
  rename_i hc
  have hpos : 0 < n.magnitude := by
    rw [magnitude, power_eq_zpow]
    have : 0 < n.coefficient := Nat.pos_of_ne_zero hc
    positivity
  rw [if_neg hc] at h
  split
  · rename_i hinf
    rw [if_pos hinf] at h
    cases h
  rename_i hinf
  rw [if_neg hinf] at h
  split
  · rename_i hlow
    exact hzero (rounded_eq_zero hpos (n.magnitude_lt.trans_le (ten_zpow_le hlow)))
  · rename_i hlow
    rw [if_neg hlow] at h
    rw [nearest_toRat, toRat_ofMagnitude hpos h]

/-- How many digits stand behind the point when the number is written without an exponent. -/
def places (n : Numeral) : Nat := (-n.scale).toNat

/-- The value without its point is an integer. -/
theorem exists_toRat_eq_div {p : Nat} (h : n.places ≤ p) : ∃ i : Int, n.toRat = (i : ℚ) / 10 ^ p := by
  obtain ⟨k, hk⟩ := Int.eq_ofNat_of_zero_le (show 0 ≤ n.scale + (p : Int) by rw [places] at h; omega)
  have hm : n.magnitude = ((n.coefficient * 10 ^ k : Int) : ℚ) / 10 ^ p := by
    rw [eq_div_iff (by positivity), magnitude, power_eq_zpow, mul_assoc, ← zpow_natCast (10 : ℚ) p, Nat.cast_ofNat,
      ← zpow_add₀ (by decide), hk, zpow_natCast]
    push_cast
    rfl
  rw [toRat_eq, hm]
  split
  · exact ⟨-(n.coefficient * 10 ^ k : Int), by push_cast; ring⟩
  · exact ⟨_, rfl⟩

/-! ## Keys -/

namespace HasKey

variable {m : Numeral}

theorem toRat_ofNumeral (h : n.HasKey) : (ofNumeral n).toRat = nearest n.toRat :=
  Numeral.toRat_ofNumeral (isFinite_of_inRange h.inRange)

theorem abs_toRat_lt (h : n.HasKey) : |n.toRat| < 2 ^ (30 : Int) := by
  refine abs_lt_of_abs_nearest_lt (by decide) ?_
  obtain ⟨-, hlt, hgt⟩ := inRange_iff.mp h.inRange
  rw [h.toRat_ofNumeral] at hlt hgt
  have hb : (bound : ℚ) ≤ 2 ^ (30 : Int) := by norm_num [bound]
  exact abs_lt.mpr ⟨by linarith, by linarith⟩

/-- How far the nearest value to a number with a key may be off. -/
theorem abs_toRat_sub_le (h : n.HasKey) : |(ofNumeral n).toRat - n.toRat| ≤ 1 / 10000000 := by
  have hlt : |n.toRat| < 2 ^ ((-23 : Int) + 53) := h.abs_toRat_lt
  rw [h.toRat_ofNumeral]
  exact (abs_nearest_sub_le (by decide) hlt).trans (by norm_num)

/-- A larger number has no smaller key. -/
theorem keyOf_le_of_toRat_le (hm : m.HasKey) (hn : n.HasKey) (h : m.toRat ≤ n.toRat) : m.keyOf ≤ n.keyOf := by
  refine hm.keyOf_mono hn ?_
  rw [hm.toRat_ofNumeral, hn.toRat_ofNumeral]
  exact nearest_mono h

/-- Of two numbers that are a millionth apart the larger one has the larger key. -/
theorem keyOf_lt_of_gap (hm : m.HasKey) (hn : n.HasKey) (h : 1 / 1000000 ≤ n.toRat - m.toRat) : m.keyOf < n.keyOf := by
  have hm' := (abs_le.mp hm.abs_toRat_sub_le).2
  have hn' := (abs_le.mp hn.abs_toRat_sub_le).1
  exact shifted_lt_of_gap hm.inRange hn.inRange (by linarith)

end HasKey

/-! ## Digits in order -/

theorem digitByte_lt_iff {d e : Nat} (hd : d < 10) (he : e < 10) : digitByte d < digitByte e ↔ d < e := by
  rw [UInt8.lt_iff_toNat_lt, toNat_digitByte hd, toNat_digitByte he]
  omega

/-- Digits of one width are in the order of the numbers they are of. -/
theorem le_lastDigits_iff : ∀ {w k l : Nat}, k < 10 ^ w → l < 10 ^ w →
    (Bytes.le (lastDigits w k) (lastDigits w l) = true ↔ k ≤ l)
  | 0, k, l, hk, hl => iff_of_true rfl (by omega)
  | w + 1, k, l, hk, hl => by
    have hpos : 0 < 10 ^ w := Nat.pow_pos (by decide)
    have hk' : k / 10 ^ w < 10 := Nat.div_lt_of_lt_mul (by rwa [Nat.pow_succ] at hk)
    have hl' : l / 10 ^ w < 10 := Nat.div_lt_of_lt_mul (by rwa [Nat.pow_succ] at hl)
    have hfirst : digitByte (k / 10 ^ w) = digitByte (l / 10 ^ w) ↔ k / 10 ^ w = l / 10 ^ w :=
      ⟨digitByte_inj hk' hl', congrArg _⟩
    have hrest : Bytes.le (lastDigits w k) (lastDigits w l) = true ↔ k % 10 ^ w ≤ l % 10 ^ w := by
      rw [← lastDigits_mod w k, ← lastDigits_mod w l]
      exact le_lastDigits_iff (Nat.mod_lt _ hpos) (Nat.mod_lt _ hpos)
    rw [lastDigits_succ, lastDigits_succ, Nat.mod_eq_of_lt hk', Nat.mod_eq_of_lt hl', Bytes.le_cons,
      digitByte_lt_iff hk' hl', hfirst, hrest, ← mul_add_le_iff (Nat.mod_lt _ hpos) (Nat.mod_lt _ hpos),
      Nat.div_add_mod, Nat.div_add_mod]

theorem le_keyDigits_iff {m n : Numeral} (hm : m.HasKey) (hn : n.HasKey) :
    Bytes.le (keyDigits m.keyOf) (keyDigits n.keyOf) = true ↔ m.keyOf ≤ n.keyOf :=
  le_lastDigits_iff hm.keyOf_lt hn.keyOf_lt

/-- Byte strings with key digits spell numbers: equal numbers have equal digits, those of a larger number do not
come before, and if it is larger by a millionth they come strictly after. Hence different numbers with at most six
places have different digits. -/
theorem canonical_order {v w ds es : Bytes} (hds : canonical v = .ok ds) (hes : canonical w = .ok es) :
    ∃ m n : Numeral, parse? v = some m ∧ parse? w = some n ∧
      (m.toRat = n.toRat → ds = es) ∧ (m.toRat ≤ n.toRat → Bytes.le ds es = true) ∧
      (1 / 1000000 ≤ n.toRat - m.toRat → Bytes.le ds es = true ∧ ds ≠ es) ∧
      (m.places ≤ 6 → n.places ≤ 6 → m.toRat ≠ n.toRat → ds ≠ es) := by
  obtain ⟨m, rfl, hm, hds⟩ := canonical_eq_ok.mp hds
  obtain ⟨n, rfl, hn, hes⟩ := canonical_eq_ok.mp hes
  rw [hds, hes]
  have hgap : ∀ {a b : Numeral}, a.HasKey → b.HasKey → 1 / 1000000 ≤ b.toRat - a.toRat →
      keyDigits a.keyOf ≠ keyDigits b.keyOf := fun ha hb h he =>
    (ha.keyOf_lt_of_gap hb h).ne ((keyDigits_keyOf_inj ha hb).mp he)
  refine ⟨m, n, parse?_spelling m, parse?_spelling n, fun h => ?_, fun h => ?_, fun h => ⟨?_, hgap hm hn h⟩,
    fun hpm hpn hne => ?_⟩
  · exact congrArg keyDigits (le_antisymm (hm.keyOf_le_of_toRat_le hn h.le) (hn.keyOf_le_of_toRat_le hm h.ge))
  · exact (le_keyDigits_iff hm hn).mpr (hm.keyOf_le_of_toRat_le hn h)
  · exact (le_keyDigits_iff hm hn).mpr (hm.keyOf_lt_of_gap hn h).le
  · -- Different multiples of a millionth are at least a millionth apart.
    obtain ⟨i, hi⟩ := exists_toRat_eq_div hpm
    obtain ⟨j, hj⟩ := exists_toRat_eq_div hpn
    have hij : i ≠ j := fun e => hne (by rw [hi, hj, e])
    rcases lt_or_gt_of_ne hij with hlt | hlt
    · refine hgap hm hn ?_
      have : (i : ℚ) + 1 ≤ j := by exact_mod_cast hlt
      rw [hi, hj]
      linarith
    · refine (hgap hn hm ?_).symm
      have : (j : ℚ) + 1 ≤ i := by exact_mod_cast hlt
      rw [hi, hj]
      linarith

/-- Two numbers that are just a millionth apart, one of them written with an exponent. -/
theorem canonical_order_millionth :
    let m : Numeral := ⟨true, ⟨1, []⟩, some ⟨5, [0, 0, 0, 0, 1]⟩, none⟩
    let n : Numeral := ⟨true, ⟨1, [5]⟩, none, some ⟨true, some .minus, ⟨1, []⟩⟩⟩
    let v := Bytes.ofString "-1.500001"
    let w := Bytes.ofString "-15E-1"
    ∃ ds es, parse? v = some m ∧ parse? w = some n ∧ canonical v = .ok ds ∧ canonical w = .ok es ∧
      n.toRat - m.toRat = 1 / 1000000 ∧ Bytes.le ds es = true ∧ ds ≠ es := by
  intro m n v w
  have hv : parse? v = some m := by decide +kernel
  have hw : parse? w = some n := by decide +kernel
  have hm : m.HasKey := ⟨by decide, by decide +kernel⟩
  have hn : n.HasKey := ⟨by decide, by decide +kernel⟩
  have hds : canonical v = .ok (keyDigits m.keyOf) := spelling_of_parse? hv ▸ canonical_spelling_of_hasKey hm
  have hes : canonical w = .ok (keyDigits n.keyOf) := spelling_of_parse? hw ▸ canonical_spelling_of_hasKey hn
  have hgap : n.toRat - m.toRat = 1 / 1000000 := by decide +kernel
  obtain ⟨m', n', hv', hw', -, -, hstrict, -⟩ := canonical_order hds hes
  rw [hv] at hv'
  rw [hw] at hw'
  cases hv'
  cases hw'
  exact ⟨_, _, hv, hw, hds, hes, hgap, hstrict hgap.ge⟩

end Numeral

end EventMatch
