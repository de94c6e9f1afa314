import EventMatch.Numeral.Reading
import EventMatch.Proofs.Numeral.Bounds

/-!
# How numbers are read

The digits of a number with a key fit into a word (`wordAndScale_of_le`). What is read from it is its exact value
after three roundings: of the word, of the power of ten, and of their product or quotient. Each of them leads to a
close value (`close_rounded`), and closeness adds up along products, quotients and further roundings
(`Close.mul`, `Close.div`, `Close.trans`), unless what comes out is so small that nothing depends on it
(`timesTenTo_close`). So the reading is finite and off by little (`HasKey.reading_spec`). In a short number the word and
the power are not rounded, and it is read as the nearest value (`HasKey.reading_eq`).
-/

namespace EventMatch

namespace Binary64

/-! ## Close rationals -/

/-- What at least remains of 1 when it is rounded. -/
def shrink : ℚ := 1 - 2 ^ (-53 : Int)

theorem shrink_pos : 0 < shrink := by norm_num [shrink]

/-- Rationals that are as close as `k` roundings lead. -/
def Close (k : ℕ) (x y : ℚ) : Prop := shrink ^ k * y ≤ x ∧ shrink ^ k * x ≤ y

variable {k l : ℕ} {a b x y z : ℚ}

theorem Close.symm (h : Close k x y) : Close k y x := ⟨h.2, h.1⟩

theorem Close.trans (hxy : Close k x y) (hyz : Close l y z) : Close (k + l) x z := by
  have step : ∀ {i j : ℕ} {a b c : ℚ}, shrink ^ i * b ≤ a → shrink ^ j * c ≤ b → shrink ^ (i + j) * c ≤ a := by
    intro i j a b c hab hbc
    rw [pow_add, mul_assoc]
    exact (mul_le_mul_of_nonneg_left hbc (pow_pos shrink_pos i).le).trans hab
  exact ⟨step hxy.1 hyz.1, Nat.add_comm l k ▸ step hyz.2 hxy.2⟩

theorem Close.mul (hx : 0 ≤ x) (hy : 0 ≤ y) (ha : 0 ≤ a) (hb : 0 ≤ b) (hxy : Close k x y) (hab : Close l a b) :
    Close (k + l) (x * a) (y * b) := by
  have hl := (pow_pos shrink_pos l).le
  rw [Close, pow_add, mul_mul_mul_comm _ _ y b, mul_mul_mul_comm _ _ x a]
  exact ⟨mul_le_mul hxy.1 hab.1 (mul_nonneg hl hb) hx, mul_le_mul hxy.2 hab.2 (mul_nonneg hl ha) hy⟩

theorem Close.inv (ha : 0 < a) (hb : 0 < b) (h : Close k a b) : Close k a⁻¹ b⁻¹ := by
  rw [Close, ← div_eq_mul_inv, ← div_eq_mul_inv, div_le_iff₀ hb, div_le_iff₀ ha, inv_mul_eq_div, inv_mul_eq_div,
    le_div_iff₀ ha, le_div_iff₀ hb]
  exact ⟨h.2, h.1⟩

theorem Close.div (hx : 0 ≤ x) (hy : 0 ≤ y) (ha : 0 < a) (hb : 0 < b) (hxy : Close k x y) (hab : Close l a b) :
    Close (k + l) (x / a) (y / b) := by
  rw [div_eq_mul_inv, div_eq_mul_inv]
  exact hxy.mul hx hy (inv_pos.mpr ha).le (inv_pos.mpr hb).le (hab.inv ha hb)

/-- Rounding leads to a close value if significands have all their bits. -/
theorem close_rounded (h : 2 ^ (-1022 : Int) ≤ x) : Close 1 (rounded x) x := by
  have hx : 0 < x := (two_zpow_pos _).trans_le h
  have hunit : (2 : ℚ) ^ exponentOf x ≤ x * 2 ^ (-52 : Int) := by
    have hlog : -1022 ≤ floorLog2 x := by
      by_contra hlt
      have h₁ := (floorLog2_spec hx).2
      have h₂ := two_zpow_le (show floorLog2 x + 1 ≤ -1022 by omega)
      linarith
    have hexp : exponentOf x = floorLog2 x + -52 := by
      simp only [exponentOf, precision, minExponent]
      omega
    rw [hexp, two_zpow_add]
    exact mul_le_mul_of_nonneg_right (floorLog2_spec hx).1 (two_zpow_pos _).le
  have herror : |rounded x - x| ≤ x * 2 ^ (-53 : Int) := by
    have := abs_rounded_sub_le x
    norm_num at hunit ⊢
    linarith
  obtain ⟨hlow, hhigh⟩ := abs_le.mp herror
  rw [Close, pow_one, shrink]
  constructor
  · linarith
  · have := mul_le_mul_of_nonneg_left (show rounded x ≤ x * (1 + 2 ^ (-53 : Int)) by linarith) shrink_pos.le
    rw [shrink] at this
    norm_num at this ⊢
    linarith

theorem close_rounded_of_one_le (h : 1 ≤ x) : Close 1 (rounded x) x :=
  close_rounded ((two_zpow_le (f := 0) (by decide)).trans h)

/-- A value close to another is at most twice as large. -/
theorem Close.le_two_mul (hk : k ≤ 3) (hx : 0 ≤ x) (h : Close k x y) : x ≤ 2 * y := by
  have hhalf : (1 / 2 : ℚ) ≤ shrink ^ k :=
    le_trans (by norm_num [shrink]) (pow_le_pow_of_le_one shrink_pos.le (by norm_num [shrink]) hk)
  have := (mul_le_mul_of_nonneg_right hhalf hx).trans h.2
  linarith

/-! ## Rounding rationals that are not negative -/

theorem ofRat_of_lt (hx : 0 ≤ x) (h : x < 2 ^ (1023 : Int)) :
    (ofRat x).isFinite = true ∧ (ofRat x).toRat = rounded x := by
  refine ⟨?_, toRat_ofRat hx h⟩
  rw [ofRat, if_neg (not_lt.mpr hx)]
  rcases hx.eq_or_lt with rfl | hx
  · rfl
  · exact (ofMagnitude_of_lt false hx h).1

theorem rounded_two_zpow {e : Int} (he : minExponent ≤ e) : rounded (2 ^ e) = 2 ^ e := by
  have := rounded_mul_two_zpow (show 1 < 2 ^ 53 by decide) he
  rwa [Nat.cast_one, one_mul] at this

theorem rounded_le_two_zpow {e : Int} (hx : 0 ≤ x) (he : minExponent ≤ e) (h : x ≤ 2 ^ e) : rounded x ≤ 2 ^ e :=
  (rounded_mono hx h).trans (rounded_two_zpow he).le

/-! ## Powers of ten -/

theorem tenTo_eq (k : ℕ) : tenTo k = ofRat (10 ^ k) := by
  rw [tenTo, power_eq_zpow, zpow_natCast, Nat.cast_ofNat]

theorem isFinite_tenTo {k : ℕ} (hk : k ≤ maxPower) : (tenTo k).isFinite = true := by
  rcases hk.eq_or_lt with rfl | hlt
  · decide +kernel
  · have hle : (10 : ℚ) ^ k ≤ 10 ^ 307 := pow_le_pow_right₀ (by norm_num) (Nat.le_of_lt_succ hlt)
    have hbound : (10 : ℚ) ^ 307 < 2 ^ (1023 : Int) := by
      have : 10 ^ 307 < 2 ^ 1023 := by decide +kernel
      exact_mod_cast this
    rw [tenTo_eq]
    exact (ofRat_of_lt (by positivity) (hle.trans_lt hbound)).1

theorem toRat_tenTo {k : ℕ} (hk : k ≤ maxPower) : (tenTo k).toRat = rounded (10 ^ k) := by
  have hpos : (0 : ℚ) < 10 ^ k := by positivity
  have hfinite := isFinite_tenTo hk
  rw [tenTo_eq, ofRat, if_neg (not_lt.mpr hpos.le)] at hfinite ⊢
  exact toRat_ofMagnitude hpos hfinite

theorem one_le_rounded (h : 1 ≤ x) : 1 ≤ rounded x := by
  have := two_zpow_le_rounded (e := 0) (by decide) (by simpa using h)
  simpa using this

theorem close_tenTo {k : ℕ} (hk : k ≤ maxPower) : Close 1 (tenTo k).toRat (10 ^ k) := by
  rw [toRat_tenTo hk]
  exact close_rounded_of_one_le (one_le_pow₀ (by norm_num))

theorem one_le_tenTo {k : ℕ} (hk : k ≤ maxPower) : 1 ≤ (tenTo k).toRat := by
  rw [toRat_tenTo hk]
  exact one_le_rounded (one_le_pow₀ (by norm_num))

/-! ## Small values -/

/-- The value is finite, not negative and so small that it is no matter how it came about. -/
structure Small (x : Binary64) : Prop where
  isFinite : x.isFinite = true
  nonneg : 0 ≤ x.toRat
  le : x.toRat ≤ 2 ^ (-900 : Int)

theorem small_ofRat (hx : 0 ≤ x) (h : x ≤ 2 ^ (-900 : Int)) : Small (ofRat x) := by
  obtain ⟨hfinite, hvalue⟩ := ofRat_of_lt hx (h.trans_lt (two_zpow_lt (by decide)))
  refine ⟨hfinite, ?_, ?_⟩ <;> rw [hvalue]
  · exact rounded_nonneg hx
  · exact rounded_le_two_zpow hx (by decide) h

/-- Division by a power of ten keeps a value small. -/
theorem Small.ofRat_div {v : Binary64} (h : Small v) {k : ℕ} (hk : k ≤ maxPower) :
    Small (ofRat (v.toRat / (tenTo k).toRat)) := by
  have hten := one_le_tenTo hk
  exact small_ofRat (div_nonneg h.nonneg (zero_le_one.trans hten)) ((div_le_self h.nonneg hten).trans h.le)

theorem Small.dividedByTenTo {v : Binary64} {k : ℕ} (h : Small v) : Small (v.dividedByTenTo k) := by
  fun_induction Binary64.dividedByTenTo v k with
  | case1 v k hk => exact h.ofRat_div hk
  | case2 v k _ _ => exact h
  | case3 v k _ _ ih => exact ih (h.ofRat_div le_rfl)

/-! ## Words times powers of ten -/

/-- What a word is rounded to. -/
theorem close_ofRat_natCast {w : ℕ} (hw : 0 < w) (hlt : w < 2 ^ 64) :
    1 ≤ (ofRat w).toRat ∧ (ofRat w).toRat ≤ 2 ^ (64 : Int) ∧ Close 1 (ofRat w).toRat w := by
  have hone : (1 : ℚ) ≤ w := by exact_mod_cast hw
  have hword : (w : ℚ) < 2 ^ (64 : Int) := by exact_mod_cast hlt
  rw [toRat_ofRat (Nat.cast_nonneg w) (hword.trans (two_zpow_lt (by decide)))]
  exact ⟨one_le_rounded hone, rounded_le_two_zpow (Nat.cast_nonneg w) (by decide) hword.le,
    close_rounded_of_one_le hone⟩

/-- A value is finite and close to a rational, or both are small. -/
def CloseOrSmall (v : Binary64) (z : ℚ) : Prop :=
  (v.isFinite = true ∧ 0 ≤ v.toRat ∧ Close 3 v.toRat z) ∨ (v.Small ∧ z ≤ 2 ^ (-900 : Int))

/-- The last of three roundings. -/
theorem closeOrSmall_ofRat (hx : 0 ≤ x) (hy : 0 ≤ y) (h : Close 2 x y) (hlt : y < 2 ^ (30 : Int)) :
    CloseOrSmall (ofRat x) y := by
  have hxy := h.le_two_mul (by decide) hx
  have hyx := h.symm.le_two_mul (by decide) hy
  obtain ⟨hfinite, hvalue⟩ := ofRat_of_lt hx (calc
    x ≤ 2 * y := hxy
    _ < 2 ^ (31 : Int) := by norm_num at hlt ⊢; linarith
    _ < 2 ^ (1023 : Int) := two_zpow_lt (by decide))
  -- Below this a significand has not all its bits, and the last rounding may lead far away.
  rcases le_or_gt (2 ^ (-1022 : Int)) x with hnormal | hsmall
  · refine .inl ⟨hfinite, hvalue ▸ rounded_nonneg hx, ?_⟩
    rw [hvalue]
    exact (close_rounded hnormal).trans h
  · refine .inr ⟨small_ofRat hx (hsmall.le.trans (two_zpow_le (by decide))), ?_⟩
    calc y ≤ 2 ^ (1 : Int) * x := by rwa [zpow_one]
      _ ≤ 2 ^ (1 : Int) * 2 ^ (-1022 : Int) := mul_le_mul_of_nonneg_left hsmall.le (two_zpow_pos 1).le
      _ = 2 ^ (-1021 : Int) := (two_zpow_add _ _).symm
      _ ≤ 2 ^ (-900 : Int) := two_zpow_le (by decide)

theorem two_zpow_le_ten_pow {k : ℕ} (hk : maxPower ≤ k) : (2 : ℚ) ^ (1000 : Int) ≤ 10 ^ k := by
  have hpow : 2 ^ 1000 ≤ 10 ^ maxPower := by decide +kernel
  calc (2 : ℚ) ^ (1000 : Int) ≤ 10 ^ maxPower := by exact_mod_cast hpow
    _ ≤ 10 ^ k := pow_le_pow_right₀ (by norm_num) hk

/-- Even the largest word is small once it is divided by the largest power. -/
theorem div_le_small (ha : a ≤ 2 ^ (64 : Int)) (hb : 2 ^ (1000 : Int) ≤ b) : a / b ≤ 2 ^ (-900 : Int) := by
  rw [div_le_iff₀ ((two_zpow_pos _).trans_le hb)]
  calc a ≤ 2 ^ (64 : Int) := ha
    _ ≤ 2 ^ (-900 + 1000 : Int) := two_zpow_le (by decide)
    _ = 2 ^ (-900 : Int) * 2 ^ (1000 : Int) := two_zpow_add _ _
    _ ≤ 2 ^ (-900 : Int) * b := mul_le_mul_of_nonneg_left hb (two_zpow_pos _).le

theorem dividedByTenTo_close {w k : ℕ} (hw : 0 < w) (hword : w < 2 ^ 64) (hlt : (w : ℚ) / 10 ^ k < 2 ^ (30 : Int)) :
    CloseOrSmall ((ofRat w).dividedByTenTo k) (w / 10 ^ k) := by
  obtain ⟨hone, hle, hclose⟩ := close_ofRat_natCast hw hword
  have hten : (0 : ℚ) < 10 ^ k := by positivity
  rw [dividedByTenTo]
  split
  · rename_i hk
    have hpos := zero_lt_one.trans_le (one_le_tenTo hk)
    have hquotient := hclose.div (zero_le_one.trans hone) (Nat.cast_nonneg w) hpos hten (close_tenTo hk)
    exact closeOrSmall_ofRat (div_nonneg (zero_le_one.trans hone) hpos.le) (by positivity) hquotient hlt
  · rename_i hk
    rw [if_neg (zero_lt_one.trans_le hone).ne']
    have hlarge : (2 : ℚ) ^ (1000 : Int) ≤ (tenTo maxPower).toRat := by
      rw [toRat_tenTo le_rfl]
      exact two_zpow_le_rounded (by decide) (two_zpow_le_ten_pow le_rfl)
    refine .inr ⟨Small.dividedByTenTo (small_ofRat ?_ (div_le_small hle hlarge)), ?_⟩
    · exact div_nonneg (zero_le_one.trans hone) ((two_zpow_pos _).le.trans hlarge)
    · exact div_le_small (by exact_mod_cast hword.le) (two_zpow_le_ten_pow (by omega))

/-- A word times a power of ten. If the product is not too large, the power is not either. -/
theorem timesTenTo_close {w : ℕ} {e : Int} (hw : 0 < w) (hword : w < 2 ^ 64)
    (hlt : (w : ℚ) * 10 ^ e < 2 ^ (30 : Int)) : CloseOrSmall ((ofRat w).timesTenTo e) (w * 10 ^ e) := by
  rw [timesTenTo]
  split
  · rename_i he
    have hpow : (w : ℚ) * 10 ^ e = w / 10 ^ e.natAbs := by
      rw [div_eq_mul_inv, ← zpow_natCast, ← zpow_neg]
      congr 2
      omega
    rw [hpow] at hlt ⊢
    exact dividedByTenTo_close hw hword hlt
  · rename_i he
    obtain ⟨k, rfl⟩ := Int.eq_ofNat_of_zero_le (not_lt.mp he)
    rw [zpow_natCast] at hlt ⊢
    obtain ⟨hone, -, hclose⟩ := close_ofRat_natCast hw hword
    have hten : (1 : ℚ) ≤ 10 ^ k := one_le_pow₀ (by norm_num)
    have hk : k ≤ maxPower := by
      by_contra hgt
      have h₁ := two_zpow_le_ten_pow (not_le.mp hgt).le
      have h₂ : (2 : ℚ) ^ (30 : Int) < 2 ^ (1000 : Int) := two_zpow_lt (by decide)
      have h₃ : (10 : ℚ) ^ k ≤ w * 10 ^ k :=
        le_mul_of_one_le_left (zero_le_one.trans hten) (by exact_mod_cast hw)
      exact (h₂.trans_le (h₁.trans h₃)).not_gt hlt
    rw [if_pos (by exact_mod_cast hk), Int.toNat_natCast]
    have hpos := zero_le_one.trans (one_le_tenTo hk)
    have hproduct := hclose.mul (zero_le_one.trans hone) (Nat.cast_nonneg w) hpos (zero_le_one.trans hten)
      (close_tenTo hk)
    exact closeOrSmall_ofRat (mul_nonneg (zero_le_one.trans hone) hpos) (by positivity) hproduct hlt

theorem CloseOrSmall.abs_sub_le {v : Binary64} (h : CloseOrSmall v y) (hy : 0 ≤ y) (hlt : y < 2 ^ (30 : Int)) :
    v.isFinite = true ∧ |v.toRat - y| ≤ 1 / 2500000 := by
  rcases h with ⟨hfinite, hv, hlow, hhigh⟩ | ⟨hsmall, hle⟩
  · refine ⟨hfinite, ?_⟩
    have hshrink : 1 - 3 / 2 ^ 53 ≤ shrink ^ 3 := by norm_num [shrink]
    have hlow := (mul_le_mul_of_nonneg_right hshrink hy).trans hlow
    have hhigh := (mul_le_mul_of_nonneg_right hshrink hv).trans hhigh
    norm_num at hlow hhigh hlt
    rw [abs_le]
    constructor <;> linarith
  · refine ⟨hsmall.isFinite, ?_⟩
    have hbound : (2 : ℚ) ^ (-900 : Int) ≤ 1 / 2500000 := (two_zpow_le (f := -22) (by decide)).trans (by norm_num)
    rw [abs_le]
    constructor <;> linarith only [hsmall.nonneg, hsmall.le, hle, hy, hbound]

theorem timesTenTo_zero (e : Int) : (ofRat 0).timesTenTo e = ofRat 0 := by
  have hzero : (ofRat 0).toRat = 0 := (toRat_ofRat le_rfl (two_zpow_pos _)).trans rounded_zero
  have hdiv : ∀ k, (ofRat 0).dividedByTenTo k = ofRat 0 := fun k => by
    rw [dividedByTenTo, hzero, zero_div, if_pos rfl, ite_self]
  rw [timesTenTo, hdiv, hzero, zero_mul, if_pos rfl]
  split_ifs <;> rfl

theorem toRat_ofRat_natCast {w : ℕ} (hw : w < 2 ^ 53) : (ofRat w).toRat = w := by
  have hword : (w : ℚ) < 2 ^ (53 : Int) := by exact_mod_cast hw
  have hexact := rounded_mul_two_zpow hw (e := 0) (by decide)
  rw [zpow_zero, mul_one] at hexact
  rw [toRat_ofRat (Nat.cast_nonneg w) (hword.trans (two_zpow_lt (by decide))), hexact]

/-- Up to the 22nd power the factor five of ten fits into a significand. -/
theorem toRat_tenTo_of_le {k : ℕ} (hk : k ≤ 22) : (tenTo k).toRat = 10 ^ k := by
  have hfive : 5 ^ k < 2 ^ 53 := (Nat.pow_le_pow_right (by decide) hk).trans_lt (by decide)
  have hexact := rounded_mul_two_zpow hfive (e := k) (by simp only [minExponent]; omega)
  have hten : ((5 ^ k : ℕ) : ℚ) * 2 ^ (k : Int) = 10 ^ k := by
    rw [zpow_natCast, Nat.cast_pow, Nat.cast_ofNat, ← mul_pow]
    norm_num
  rw [toRat_tenTo (hk.trans (by decide)), ← hten, hexact]

/-- A word and a power of ten that are not rounded leave one rounding. -/
theorem timesTenTo_of_le {w : ℕ} (hw : w < 2 ^ 53) {e : Int} (he : e.natAbs ≤ 22) :
    (ofRat w).timesTenTo e = ofRat (w * 10 ^ e) := by
  rw [timesTenTo]
  split
  · rw [dividedByTenTo, if_pos (he.trans (by decide)), toRat_ofRat_natCast hw, toRat_tenTo_of_le he, div_eq_mul_inv,
      ← zpow_natCast, ← zpow_neg, show -(e.natAbs : Int) = e by omega]
  · obtain ⟨k, rfl⟩ := Int.eq_ofNat_of_zero_le (show 0 ≤ e by omega)
    have hk : k ≤ 22 := he
    rw [if_pos (by exact_mod_cast hk.trans (by decide)), Int.toNat_natCast, toRat_ofRat_natCast hw,
      toRat_tenTo_of_le hk, zpow_natCast]

/-! ## Signs -/

theorem isFinite_neg (v : Binary64) : v.neg.isFinite = v.isFinite := by
  cases v <;> rfl

theorem toRat_neg (v : Binary64) : v.neg.toRat = -v.toRat := by
  cases v with
  | finite negative m e => cases negative <;> simp [neg, toRat]
  | infinite => rfl
  | nan => rfl

theorem neg_ofMagnitude (x : ℚ) : (ofMagnitude false x).neg = ofMagnitude true x := by
  unfold ofMagnitude
  dsimp only
  split_ifs <;> rfl

end Binary64

namespace Numeral

open Binary64

variable {n : Numeral}

/-! ## Digits in a word -/

theorem le_foldl_digits : ∀ (word : ℕ) (ds : List Digit), word ≤ ds.foldl (fun w d => w * 10 + d.val) word
  | _, [] => le_rfl
  | word, d :: ds => le_trans (by omega) (le_foldl_digits (word * 10 + d.val) ds)

/-- Nothing is left of digits that fit. -/
theorem gather_of_le : ∀ {word : ℕ} {ds : List Digit}, ds.foldl (fun w d => w * 10 + d.val) word ≤ maxWord →
    gather word ds = (ds.foldl (fun w d => w * 10 + d.val) word, [])
  | _, [], _ => rfl
  | word, d :: ds, h => by
    rw [gather, if_neg (not_lt.mpr ((le_foldl_digits _ ds).trans h))]
    exact gather_of_le h

theorem wordAndScale_of_le (h : n.coefficient ≤ maxWord) : n.wordAndScale = (n.coefficient, n.scale) := by
  have hfold : n.coefficient = ((n.fraction.map Digits.toList).getD []).foldl (fun w d => w * 10 + d.val)
      (n.whole.toList.foldl (fun w d => w * 10 + d.val) 0) := List.foldl_append
  have hwhole := (le_foldl_digits _ _).trans (hfold ▸ h)
  rw [wordAndScale, gather_of_le hwhole]
  dsimp only
  rw [gather_of_le (hfold ▸ h), ← hfold, List.length_nil, Nat.cast_zero, add_zero, add_zero]

theorem reading_plain (n : Numeral) : n.plain.reading = n.reading := by
  simp only [reading, wordAndScale, plain_scale]
  rfl

/-- Numbers with one plain text are read alike. -/
theorem reading_congr {m n : Numeral} (h : m.plain = n.plain) : m.reading = n.reading := by
  rw [← reading_plain, h, reading_plain]

namespace HasKey

theorem coefficient_lt (h : n.HasKey) : n.coefficient < 10 ^ maxDigits :=
  n.coefficient_lt.trans_le (Nat.pow_le_pow_right (by decide) h.digits)

theorem reading_eq_signed (h : n.HasKey) :
    n.reading = if n.negative then ((ofRat n.coefficient).timesTenTo n.scale).neg
      else (ofRat n.coefficient).timesTenTo n.scale := by
  rw [reading, wordAndScale_of_le (h.coefficient_lt.le.trans (by decide))]

/-- What is read from a number with a key is finite and off by less than half a millionth. -/
theorem reading_spec (h : n.HasKey) : n.reading.isFinite = true ∧ |n.reading.toRat - n.toRat| ≤ 1 / 2500000 := by
  have hmagnitude : ((ofRat n.coefficient).timesTenTo n.scale).isFinite = true ∧
      |((ofRat n.coefficient).timesTenTo n.scale).toRat - n.magnitude| ≤ 1 / 2500000 := by
    have hlt := n.abs_toRat ▸ h.abs_toRat_lt
    rw [magnitude, power_eq_zpow] at hlt ⊢
    rcases Nat.eq_zero_or_pos n.coefficient with hc | hc
    · rw [hc, Nat.cast_zero, timesTenTo_zero, zero_mul]
      decide +kernel
    · exact (timesTenTo_close hc (h.coefficient_lt.trans (by decide)) hlt).abs_sub_le (by positivity) hlt
  rw [h.reading_eq_signed, toRat_eq]
  split
  · rw [isFinite_neg, toRat_neg, ← abs_neg, neg_sub, sub_neg_eq_add, neg_add_eq_sub]
    exact hmagnitude
  · exact hmagnitude

end HasKey

/-! ## Short numbers -/

/-- A number with few digits that are not scaled by much. -/
structure IsShort (n : Numeral) : Prop where
  coefficient : n.coefficient < 2 ^ 53
  scale : n.scale.natAbs ≤ 22

theorem IsShort.ofNumeral_eq (hs : n.IsShort) (h : n.HasKey) : ofNumeral n = ofMagnitude n.negative n.magnitude := by
  have hscale := hs.scale
  have hdigits := h.digits
  rw [maxDigits] at hdigits
  unfold ofNumeral
  dsimp only
  split
  · rename_i hc
    rw [magnitude, hc, Nat.cast_zero, zero_mul]
    rfl
  · rw [if_neg (by rw [infiniteFrom]; omega), if_neg (by rw [zeroFrom]; omega)]

/-- A short number is read as the nearest value. -/
theorem HasKey.reading_eq (h : n.HasKey) (hs : n.IsShort) : n.reading = ofNumeral n := by
  have hmagnitude : (ofRat n.coefficient).timesTenTo n.scale = ofMagnitude false n.magnitude := by
    rw [timesTenTo_of_le hs.coefficient hs.scale, ofRat, magnitude, power_eq_zpow]
    exact if_neg (not_lt.mpr (by positivity))
  rw [h.reading_eq_signed, hs.ofNumeral_eq h, hmagnitude]
  cases n.negative with
  | false => rfl
  | true => exact neg_ofMagnitude _

end Numeral

end EventMatch
