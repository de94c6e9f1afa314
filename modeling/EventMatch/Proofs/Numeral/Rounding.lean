import EventMatch.Binary64
import Mathlib.Algebra.Order.Field.Power
import Mathlib.Data.Rat.Floor
import Mathlib.Tactic.Linarith
import Mathlib.Tactic.NormNum.Pow
import Mathlib.Tactic.Positivity
import Mathlib.Tactic.Ring

/-!
# Rounding

The nearest value of the format to a positive rational `x` is `rounded x`: a multiple
of two to the power `exponentOf x` (`toRat_ofRat`). Larger rationals are not rounded
to smaller values (`rounded_mono`), and the value is off by half a unit of the
exponent at most (`abs_rounded_sub_le`). Finite values compare as the rationals they are.
-/

namespace EventMatch

/-! ## Powers and logarithms -/

theorem power_eq_zpow (base : Nat) (e : Int) : power base e = (base : ℚ) ^ e := by
  unfold power
  split
  · rename_i h
    obtain ⟨n, rfl⟩ := Int.eq_ofNat_of_zero_le h
    rw [Int.toNat_natCast, zpow_natCast]
    exact Nat.cast_pow base n
  · rename_i h
    obtain ⟨n, hn⟩ := Int.eq_ofNat_of_zero_le (show 0 ≤ -e by omega)
    rw [show e = -(n : Int) by omega, neg_neg, Int.toNat_natCast, zpow_neg, zpow_natCast, one_div]
    exact congrArg _ (Nat.cast_pow base n)

theorem two_zpow_pos (e : Int) : (0 : ℚ) < 2 ^ e := zpow_pos (by decide) e

theorem two_zpow_le {e f : Int} (h : e ≤ f) : (2 : ℚ) ^ e ≤ 2 ^ f :=
  zpow_le_zpow_right₀ (by decide) h

theorem two_zpow_lt {e f : Int} (h : e < f) : (2 : ℚ) ^ e < 2 ^ f :=
  zpow_lt_zpow_right₀ (by decide) h

theorem two_zpow_add (e f : Int) : (2 : ℚ) ^ (e + f) = 2 ^ e * 2 ^ f := zpow_add₀ (by decide) e f

/-- A positive rational lies between two neighbouring powers of two. -/
theorem floorLog2_spec {x : ℚ} (hx : 0 < x) : 2 ^ floorLog2 x ≤ x ∧ x < 2 ^ (floorLog2 x + 1) := by
  have hn : x.num.natAbs ≠ 0 := Int.natAbs_ne_zero.mpr (Rat.num_pos.mpr hx).ne'
  have hxeq : x = (x.num.natAbs : ℚ) / (x.den : ℚ) := by
    have hnum : ((x.num.natAbs : Int) : ℚ) = x.num :=
      congrArg Int.cast (Int.natAbs_of_nonneg (Rat.num_nonneg.mpr hx.le))
    rw [← Int.cast_natCast (R := ℚ) x.num.natAbs, hnum, Rat.num_div_den]
  have hd : (0 : ℚ) < x.den := Nat.cast_pos.mpr x.den_pos
  have bounds : ∀ n : Nat, n ≠ 0 → (2 : ℚ) ^ (n.log2 : Int) ≤ n ∧ (n : ℚ) < 2 ^ ((n.log2 : Int) + 1) := by
    intro n hn
    rw [two_zpow_add, zpow_one, zpow_natCast, ← pow_succ]
    exact ⟨by exact_mod_cast Nat.log2_self_le hn, by exact_mod_cast Nat.lt_log2_self⟩
  obtain ⟨hn₁, hn₂⟩ := bounds _ hn
  obtain ⟨hd₁, hd₂⟩ := bounds _ x.den_ne_zero
  generalize hk : (x.num.natAbs.log2 : Int) = k at hn₁ hn₂
  generalize hl : (x.den.log2 : Int) = l at hd₁ hd₂
  have hlow : (2 : ℚ) ^ (k - l - 1) < x := by
    rw [hxeq, lt_div_iff₀ hd]
    calc (2 : ℚ) ^ (k - l - 1) * x.den
        < 2 ^ (k - l - 1) * 2 ^ (l + 1) := mul_lt_mul_of_pos_left hd₂ (two_zpow_pos _)
      _ = 2 ^ k := by rw [← two_zpow_add]; congr 1; omega
      _ ≤ _ := hn₁
  have hhigh : x < 2 ^ (k - l + 1) := by
    rw [hxeq, div_lt_iff₀ hd]
    calc (x.num.natAbs : ℚ)
        < 2 ^ (k + 1) := hn₂
      _ = 2 ^ (k - l + 1) * 2 ^ l := by rw [← two_zpow_add]; congr 1; omega
      _ ≤ _ := mul_le_mul_of_nonneg_left hd₁ (two_zpow_pos _).le
  rw [floorLog2, hk, hl]
  simp only [power_eq_zpow, Nat.cast_ofNat]
  split
  · rename_i h
    exact ⟨h, hhigh⟩
  · rename_i h
    rw [sub_add_cancel]
    exact ⟨hlow.le, not_le.mp h⟩

theorem floorLog2_mono {x y : ℚ} (hx : 0 < x) (h : x ≤ y) : floorLog2 x ≤ floorLog2 y := by
  by_contra hlt
  have h₁ := (floorLog2_spec hx).1
  have h₂ := (floorLog2_spec (hx.trans_le h)).2
  have h₃ := two_zpow_le (show floorLog2 y + 1 ≤ floorLog2 x by omega)
  linarith

/-- A power of two above the rational is above its logarithm. -/
theorem floorLog2_lt {x : ℚ} (hx : 0 < x) {e : Int} (h : x < 2 ^ e) : floorLog2 x < e := by
  by_contra hle
  have h₁ := (floorLog2_spec hx).1
  have h₂ := two_zpow_le (show e ≤ floorLog2 x by omega)
  linarith

/-! ## Rounding to integers -/

/-- Rounding goes to the integer below or above, whichever is not further than a half. -/
theorem roundHalfEven_cases (x : ℚ) :
    (roundHalfEven x = ⌊x⌋ ∧ x ≤ ⌊x⌋ + 1 / 2) ∨ (roundHalfEven x = ⌊x⌋ + 1 ∧ (⌊x⌋ : ℚ) + 1 / 2 ≤ x) := by
  have hfloor : Rat.floor x = ⌊x⌋ := rfl
  rw [roundHalfEven, hfloor]
  split
  · rename_i h
    exact .inl ⟨rfl, by linarith⟩
  · rename_i h
    split
    · rename_i h'
      exact .inr ⟨rfl, by linarith⟩
    · rename_i h'
      have he : x = (⌊x⌋ : ℚ) + 1 / 2 := by linarith
      split
      · exact .inl ⟨rfl, he.le⟩
      · exact .inr ⟨rfl, he.ge⟩

theorem abs_roundHalfEven_sub_le (x : ℚ) : |(roundHalfEven x : ℚ) - x| ≤ 1 / 2 := by
  have h₁ := Int.floor_le x
  have h₂ := Int.lt_floor_add_one x
  rw [abs_le]
  rcases roundHalfEven_cases x with ⟨he, h⟩ | ⟨he, h⟩ <;> rw [he] <;> push_cast <;> constructor <;> linarith

theorem roundHalfEven_intCast (n : Int) : roundHalfEven (n : ℚ) = n := by
  rcases roundHalfEven_cases (n : ℚ) with ⟨he, _⟩ | ⟨_, h⟩
  · rw [he, Int.floor_intCast]
  · rw [Int.floor_intCast] at h
    linarith

theorem roundHalfEven_mono {x y : ℚ} (h : x ≤ y) : roundHalfEven x ≤ roundHalfEven y := by
  rcases h.eq_or_lt with rfl | hlt
  · exact le_rfl
  by_contra hc
  have hfloor := Int.floor_mono h
  -- Only the first can have been rounded up, and then both are halfway between the same integers.
  rcases roundHalfEven_cases x with ⟨hx, _⟩ | ⟨hx, hx'⟩ <;>
    rcases roundHalfEven_cases y with ⟨hy, hy'⟩ | ⟨hy, _⟩
  all_goals try omega
  have heq : ⌊x⌋ = ⌊y⌋ := by omega
  rw [heq] at hx'
  linarith

theorem roundHalfEven_le_of_le {x : ℚ} {n : Int} (h : x ≤ n) : roundHalfEven x ≤ n := by
  have := roundHalfEven_mono h
  rwa [roundHalfEven_intCast] at this

theorem le_roundHalfEven_of_le {x : ℚ} {n : Int} (h : (n : ℚ) ≤ x) : n ≤ roundHalfEven x := by
  have := roundHalfEven_mono h
  rwa [roundHalfEven_intCast] at this

/-! ## Rounding to the format -/

namespace Binary64

/-- A rational that is not negative, rounded to a multiple of two to its exponent. -/
def rounded (x : ℚ) : ℚ := roundHalfEven (x / 2 ^ exponentOf x) * 2 ^ exponentOf x

theorem le_exponentOf (x : ℚ) : minExponent ≤ exponentOf x := le_max_left _ _

theorem exponentOf_mono {x y : ℚ} (hx : 0 < x) (h : x ≤ y) : exponentOf x ≤ exponentOf y :=
  max_le_max le_rfl (Int.sub_le_sub_right (floorLog2_mono hx h) _)

/-- The significand has no more than all its bits. -/
theorem div_exponentOf_lt {x : ℚ} (hx : 0 < x) : x / 2 ^ exponentOf x < 2 ^ (53 : Int) := by
  rw [div_lt_iff₀ (two_zpow_pos _), ← two_zpow_add]
  refine (floorLog2_spec hx).2.trans_le (two_zpow_le ?_)
  have := le_max_right minExponent (floorLog2 x - (precision - 1))
  simp only [exponentOf, precision] at this ⊢
  omega

/-- Unless the exponent is the smallest, the significand has all its bits. -/
theorem le_div_exponentOf {x : ℚ} (hx : 0 < x) (h : minExponent < exponentOf x) :
    2 ^ (52 : Int) ≤ x / 2 ^ exponentOf x := by
  rw [le_div_iff₀ (two_zpow_pos _), ← two_zpow_add]
  refine le_trans (two_zpow_le ?_) (floorLog2_spec hx).1
  simp only [exponentOf, precision] at h ⊢
  omega

@[simp]
theorem rounded_zero : rounded 0 = 0 := by
  have := roundHalfEven_intCast 0
  rw [Int.cast_zero] at this
  rw [rounded, zero_div, this, Int.cast_zero, zero_mul]

theorem rounded_nonneg {x : ℚ} (hx : 0 ≤ x) : 0 ≤ rounded x := by
  have hr : 0 ≤ roundHalfEven (x / 2 ^ exponentOf x) :=
    le_roundHalfEven_of_le (by exact_mod_cast div_nonneg hx (two_zpow_pos _).le)
  exact mul_nonneg (by exact_mod_cast hr) (two_zpow_pos _).le

theorem rounded_mono {x y : ℚ} (hx : 0 ≤ x) (h : x ≤ y) : rounded x ≤ rounded y := by
  rcases hx.eq_or_lt with rfl | hx
  · rw [rounded_zero]
    exact rounded_nonneg h
  have hy := hx.trans_le h
  rcases (exponentOf_mono hx h).eq_or_lt with he | hlt
  · rw [rounded, rounded, he]
    have hdiv : x / 2 ^ exponentOf y ≤ y / 2 ^ exponentOf y :=
      div_le_div_of_nonneg_right h (two_zpow_pos _).le
    exact mul_le_mul_of_nonneg_right (by exact_mod_cast roundHalfEven_mono hdiv) (two_zpow_pos _).le
  · -- A power of two lies between the two values.
    have hx' : (roundHalfEven (x / 2 ^ exponentOf x) : ℚ) ≤ 2 ^ (53 : Int) := by
      have := roundHalfEven_le_of_le (n := 2 ^ 53) (by exact_mod_cast (div_exponentOf_lt hx).le)
      exact_mod_cast this
    have hy' : (2 : ℚ) ^ (52 : Int) ≤ roundHalfEven (y / 2 ^ exponentOf y) := by
      have hmin : minExponent < exponentOf y := (le_exponentOf x).trans_lt hlt
      have := le_roundHalfEven_of_le (n := 2 ^ 52) (by exact_mod_cast le_div_exponentOf hy hmin)
      exact_mod_cast this
    calc rounded x
        ≤ 2 ^ (53 : Int) * 2 ^ exponentOf x := mul_le_mul_of_nonneg_right hx' (two_zpow_pos _).le
      _ = 2 ^ (53 + exponentOf x) := (two_zpow_add _ _).symm
      _ ≤ 2 ^ (52 + exponentOf y) := two_zpow_le (by omega)
      _ = 2 ^ (52 : Int) * 2 ^ exponentOf y := two_zpow_add _ _
      _ ≤ rounded y := mul_le_mul_of_nonneg_right hy' (two_zpow_pos _).le

theorem abs_rounded_sub_le (x : ℚ) : |rounded x - x| ≤ 2 ^ exponentOf x / 2 := by
  have hpos := two_zpow_pos (exponentOf x)
  have he : rounded x - x = (roundHalfEven (x / 2 ^ exponentOf x) - x / 2 ^ exponentOf x) * 2 ^ exponentOf x := by
    rw [sub_mul, div_mul_cancel₀ _ hpos.ne']
    rfl
  rw [he, abs_mul, abs_of_pos hpos]
  have := mul_le_mul_of_nonneg_right (abs_roundHalfEven_sub_le (x / 2 ^ exponentOf x)) hpos.le
  linarith

/-- Values below a power of two are off by little. -/
theorem abs_rounded_sub_le_of_lt {x : ℚ} (hx : 0 ≤ x) {e : Int} (he : minExponent ≤ e)
    (h : x < 2 ^ (e + 53)) : |rounded x - x| ≤ 2 ^ e / 2 := by
  rcases hx.eq_or_lt with rfl | hx
  · rw [rounded_zero, sub_zero, abs_zero]
    exact (half_pos (two_zpow_pos e)).le
  have hlog := floorLog2_lt hx h
  have hexp : exponentOf x ≤ e := by
    simp only [exponentOf, precision]
    exact max_le he (by omega)
  have := two_zpow_le hexp
  have := abs_rounded_sub_le x
  linarith

/-- A power of two below the rational is not above its rounded value. -/
theorem two_zpow_le_rounded {x : ℚ} {e : Int} (he : minExponent ≤ e) (h : 2 ^ e ≤ x) : 2 ^ e ≤ rounded x := by
  have hx : 0 < x := (two_zpow_pos e).trans_le h
  -- Some multiple of two to the exponent of `x` lies between the two.
  obtain ⟨n, hn, hle⟩ : ∃ n : Int, (2 : ℚ) ^ e ≤ n * 2 ^ exponentOf x ∧ n ≤ x / 2 ^ exponentOf x := by
    rcases le_or_gt (exponentOf x) e with hlow | hhigh
    · obtain ⟨k, hk⟩ := Int.eq_ofNat_of_zero_le (Int.sub_nonneg.mpr hlow)
      have hpow : (2 : ℚ) ^ e = ((2 ^ k : Int) : ℚ) * 2 ^ exponentOf x := by
        rw [show e = (k : Int) + exponentOf x by omega, two_zpow_add, zpow_natCast]
        push_cast
        rfl
      refine ⟨2 ^ k, hpow.le, ?_⟩
      rw [le_div_iff₀ (two_zpow_pos _), ← hpow]
      exact h
    · refine ⟨2 ^ 52, ?_, by exact_mod_cast le_div_exponentOf hx (he.trans_lt hhigh)⟩
      calc (2 : ℚ) ^ e
          ≤ 2 ^ (52 + exponentOf x) := two_zpow_le (by omega)
        _ = 2 ^ (52 : Int) * 2 ^ exponentOf x := two_zpow_add _ _
        _ = ((2 ^ 52 : Int) : ℚ) * 2 ^ exponentOf x := by norm_num
  have hr : (n : ℚ) ≤ roundHalfEven (x / 2 ^ exponentOf x) := by exact_mod_cast le_roundHalfEven_of_le hle
  exact hn.trans (mul_le_mul_of_nonneg_right hr (two_zpow_pos _).le)

/-- What is below half of the smallest value is rounded to zero. -/
theorem rounded_eq_zero {x : ℚ} (hx : 0 < x) (h : x < 2 ^ (-1075 : Int)) : rounded x = 0 := by
  have hexp : exponentOf x = minExponent := by
    have := floorLog2_lt hx h
    simp only [exponentOf, precision, minExponent]
    omega
  have hhalf : x / 2 ^ exponentOf x < 1 / 2 := by
    rw [hexp, div_lt_iff₀ (two_zpow_pos _)]
    refine h.trans_eq ?_
    rw [minExponent, show (-1075 : Int) = -1 + -1074 from rfl, two_zpow_add, zpow_neg_one, one_div]
  have hpos : 0 ≤ x / 2 ^ exponentOf x := div_nonneg hx.le (two_zpow_pos _).le
  have hfloor : ⌊x / 2 ^ exponentOf x⌋ = 0 := Int.floor_eq_zero_iff.mpr ⟨hpos, by linarith⟩
  rcases roundHalfEven_cases (x / 2 ^ exponentOf x) with ⟨hr, -⟩ | ⟨-, hge⟩
  · rw [rounded, hr, hfloor, Int.cast_zero, zero_mul]
  · rw [hfloor, Int.cast_zero] at hge
    linarith

/-- A positive rational is rounded to an infinite value or to a multiple of two to its exponent. -/
theorem ofMagnitude_cases (negative : Bool) {x : ℚ} (hx : 0 < x) :
    (ofMagnitude negative x = infinite negative ∧ maxExponent < exponentOf x + 1) ∨
      ((ofMagnitude negative x).isFinite = true ∧
        (ofMagnitude negative x).toRat = if negative then -rounded x else rounded x) := by
  have hm : (((roundHalfEven (x / 2 ^ exponentOf x)).toNat : Nat) : ℚ) = roundHalfEven (x / 2 ^ exponentOf x) := by
    have hn : 0 ≤ roundHalfEven (x / 2 ^ exponentOf x) :=
      le_roundHalfEven_of_le (by exact_mod_cast (div_pos hx (two_zpow_pos _)).le)
    exact_mod_cast Int.toNat_of_nonneg hn
  rw [ofMagnitude, if_neg hx.ne']
  simp only [power_eq_zpow, Nat.cast_ofNat]
  by_cases hc : (roundHalfEven (x / 2 ^ exponentOf x)).toNat = hidden * 2
  · rw [if_pos hc]
    dsimp only
    split
    · rename_i hmax
      exact .inl ⟨rfl, hmax⟩
    · refine .inr ⟨rfl, ?_⟩
      have hr : (hidden : ℚ) * 2 ^ (exponentOf x + 1) = rounded x := by
        rw [rounded, ← hm, hc, two_zpow_add]
        push_cast
        ring
      simp only [toRat, power_eq_zpow, Nat.cast_ofNat, hr]
  · rw [if_neg hc]
    dsimp only
    split
    · rename_i hmax
      exact .inl ⟨rfl, by omega⟩
    · refine .inr ⟨rfl, ?_⟩
      simp only [toRat, power_eq_zpow, Nat.cast_ofNat, hm, rounded]

/-- What is rounded to a finite value is rounded to a multiple of two to its exponent. -/
theorem toRat_ofMagnitude {negative : Bool} {x : ℚ} (hx : 0 < x) (h : (ofMagnitude negative x).isFinite = true) :
    (ofMagnitude negative x).toRat = if negative then -rounded x else rounded x := by
  rcases ofMagnitude_cases negative hx with ⟨he, -⟩ | ⟨-, he⟩
  · rw [he] at h
    cases h
  · exact he

/-- What is not too large is rounded to a finite value. -/
theorem ofMagnitude_of_lt (negative : Bool) {x : ℚ} (hx : 0 < x) (h : x < 2 ^ (1023 : Int)) :
    (ofMagnitude negative x).isFinite = true ∧
      (ofMagnitude negative x).toRat = if negative then -rounded x else rounded x := by
  refine (ofMagnitude_cases negative hx).resolve_left fun ⟨_, he⟩ => ?_
  have := floorLog2_lt hx h
  simp only [exponentOf, precision, minExponent, maxExponent] at he
  omega

/-- The nearest value to a rational that is neither negative nor too large. -/
theorem toRat_ofRat {x : ℚ} (hx : 0 ≤ x) (h : x < 2 ^ (1023 : Int)) : (ofRat x).toRat = rounded x := by
  rw [ofRat, if_neg (not_lt.mpr hx)]
  rcases hx.eq_or_lt with rfl | hx
  · rw [ofMagnitude, if_pos rfl, rounded_zero]
    simp [toRat]
  · rw [(ofMagnitude_of_lt false hx h).2]
    rfl

/-! ## Comparing -/

variable {x y : Binary64}

theorem eq_finite_of_isFinite (hx : x.isFinite = true) : ∃ negative m e, x = finite negative m e := by
  cases x with
  | finite negative m e => exact ⟨negative, m, e, rfl⟩
  | infinite _ => cases hx
  | nan => cases hx

theorem lt_iff (hx : x.isFinite = true) (hy : y.isFinite = true) : x.lt y = true ↔ x.toRat < y.toRat := by
  obtain ⟨_, _, _, rfl⟩ := eq_finite_of_isFinite hx
  obtain ⟨_, _, _, rfl⟩ := eq_finite_of_isFinite hy
  exact decide_eq_true_iff

theorem eq_iff (hx : x.isFinite = true) (hy : y.isFinite = true) : x.eq y = true ↔ x.toRat = y.toRat := by
  obtain ⟨_, _, _, rfl⟩ := eq_finite_of_isFinite hx
  obtain ⟨_, _, _, rfl⟩ := eq_finite_of_isFinite hy
  exact beq_iff_eq

theorem le_iff (hx : x.isFinite = true) (hy : y.isFinite = true) : x.le y = true ↔ x.toRat ≤ y.toRat := by
  rw [le, Bool.or_eq_true, lt_iff hx hy, eq_iff hx hy]
  exact le_iff_lt_or_eq.symm

end Binary64

end EventMatch
