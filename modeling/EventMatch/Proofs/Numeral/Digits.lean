import EventMatch.Automaton.Ranges
import EventMatch.Proofs.Automaton.Recognition
import Mathlib.Algebra.Group.Nat.Defs

/-!
# Digits of keys

The digits of a key from the left (`lastDigits_succ`), and the words that key
automata are about: `KeyWord w P` are the `w` digits of the numbers below `10 ^ w`
with the property `P`, and the terminator. A key word's first byte is a digit, and
the rest is a key word for the remaining digits (`keyWord_cons`).
-/

namespace EventMatch

namespace Numeral

/-- The byte of a digit. -/
def digitByte (d : Nat) : UInt8 := UInt8.ofNat (0x30 + d)

theorem toNat_digitByte {d : Nat} (h : d < 10) : (digitByte d).toNat = 0x30 + d := by
  rw [digitByte, UInt8.toNat_ofNat']
  exact Nat.mod_eq_of_lt (by omega)

theorem digitByte_inj {d e : Nat} (hd : d < 10) (he : e < 10) (h : digitByte d = digitByte e) :
    d = e := by
  have := congrArg UInt8.toNat h
  rw [toNat_digitByte hd, toNat_digitByte he] at this
  omega

/-- A byte between the ASCII digits 0 and 9 is one of them. -/
theorem digitByte_sub {b : UInt8} (h₁ : 0x30 ≤ b.toNat) (h₂ : b.toNat < 0x3A) :
    digitByte (b.toNat - 0x30) = b := by
  rw [← UInt8.toNat_inj, toNat_digitByte (by omega)]
  omega

theorem length_lastDigits : ∀ w n, (lastDigits w n).length = w
  | 0, _ => rfl
  | w + 1, n => by
    rw [lastDigits, List.length_append, length_lastDigits w]
    rfl

/-- Digits from the left. -/
theorem lastDigits_succ : ∀ w n,
    lastDigits (w + 1) n = digitByte (n / 10 ^ w % 10) :: lastDigits w n
  | 0, n => by simp [lastDigits, digitByte]
  | w + 1, n => by
    rw [lastDigits, lastDigits_succ w, List.cons_append, lastDigits, Nat.div_div_eq_div_mul,
      Nat.pow_succ']

/-- Only the last digits of the number matter. -/
theorem lastDigits_mod : ∀ w n, lastDigits w (n % 10 ^ w) = lastDigits w n
  | 0, _ => rfl
  | w + 1, n => by
    rw [lastDigits, lastDigits, ← lastDigits_mod w (n / 10), ← lastDigits_mod w (_ / 10), Nat.pow_succ',
      Nat.mod_mul_right_div_self, Nat.mod_mod, Nat.mod_mul_right_mod]

theorem lastDigits_add_mul (w d m : Nat) : lastDigits w (10 ^ w * d + m) = lastDigits w m := by
  rw [← lastDigits_mod, Nat.mul_add_mod, lastDigits_mod]

theorem lastDigits_inj : ∀ {w n m : Nat}, n < 10 ^ w → m < 10 ^ w →
    lastDigits w n = lastDigits w m → n = m
  | 0, n, m, hn, hm, _ => by omega
  | w + 1, n, m, hn, hm, h => by
    rw [lastDigits, lastDigits] at h
    obtain ⟨h₁, h₂⟩ := List.append_inj' h rfl
    rw [Nat.pow_succ] at hn hm
    have e₁ := lastDigits_inj (Nat.div_lt_of_lt_mul (by omega)) (Nat.div_lt_of_lt_mul (by omega)) h₁
    have e₂ := digitByte_inj (Nat.mod_lt n (by decide)) (Nat.mod_lt m (by decide))
      (List.singleton_inj.mp h₂)
    omega

theorem mem_lastDigits : ∀ {w n : Nat} {b : UInt8}, b ∈ lastDigits w n →
    0x30 ≤ b.toNat ∧ b.toNat < 0x3A
  | w + 1, n, b, h => by
    rw [lastDigits] at h
    rcases List.mem_append.mp h with h | h
    · exact mem_lastDigits h
    · have hd := Nat.mod_lt n (show 10 > 0 by decide)
      rw [List.mem_singleton.mp h, show UInt8.ofNat (0x30 + n % 10) = digitByte (n % 10) from rfl,
        toNat_digitByte hd]
      omega

theorem terminator_not_mem_lastDigits (w n : Nat) : terminator ∉ lastDigits w n := fun h =>
  absurd (mem_lastDigits h).2 (by decide)

/-- Numbers of one width compare by their first digit, then by the rest. -/
theorem mul_add_le_iff {q r m d e : Nat} (hr : r < q) (hm : m < q) :
    q * d + r ≤ q * e + m ↔ d < e ∨ d = e ∧ r ≤ m := by
  rcases Nat.lt_trichotomy d e with h | rfl | h
  · have := Nat.mul_le_mul_left q (show d + 1 ≤ e from h)
    rw [Nat.mul_succ] at this
    omega
  · omega
  · have := Nat.mul_le_mul_left q (show e + 1 ≤ d from h)
    rw [Nat.mul_succ] at this
    omega

end Numeral

open Numeral

/-- The words of `w` digits and the terminator whose number has the property `P`. -/
def KeyWord (w : Nat) (P : Nat → Prop) (u : Bytes) : Prop :=
  ∃ n < 10 ^ w, P n ∧ u = lastDigits w n ++ [terminator]

theorem KeyWord.endTerminated (w : Nat) (P : Nat → Prop) : EndTerminated (KeyWord w P) :=
  fun _ ⟨n, _, _, e⟩ => ⟨lastDigits w n, e, terminator_not_mem_lastDigits w n⟩

theorem keyWord_zero {P : Nat → Prop} (h : P 0) (u : Bytes) : KeyWord 0 P u ↔ u = [terminator] :=
  ⟨fun ⟨_, _, _, e⟩ => e, fun e => ⟨0, by decide, h, e⟩⟩

theorem keyWord_congr {w : Nat} {P Q : Nat → Prop} (h : ∀ n < 10 ^ w, P n ↔ Q n) (u : Bytes) :
    KeyWord w P u ↔ KeyWord w Q u :=
  exists_congr fun n => and_congr_right fun hn => and_congr_left' (h n hn)

theorem not_keyWord_nil {w : Nat} {P : Nat → Prop} : ¬ KeyWord w P [] := fun ⟨_, _, _, e⟩ =>
  List.append_ne_nil_of_right_ne_nil _ (List.cons_ne_nil _ _) e.symm

/-- The first byte of a key word is a digit, which counts for the rest. -/
theorem keyWord_cons {w : Nat} {P : Nat → Prop} {b : UInt8} {u : Bytes} :
    KeyWord (w + 1) P (b :: u) ↔ 0x30 ≤ b.toNat ∧ b.toNat < 0x3A ∧
      KeyWord w (fun m => P (10 ^ w * (b.toNat - 0x30) + m)) u := by
  have hq : 0 < 10 ^ w := Nat.pow_pos (by decide)
  constructor
  · rintro ⟨n, hn, hp, e⟩
    rw [lastDigits_succ, List.cons_append] at e
    obtain ⟨rfl, rfl⟩ := List.cons.inj e
    have hd : n / 10 ^ w < 10 := Nat.div_lt_of_lt_mul (by rwa [Nat.pow_succ] at hn)
    rw [Nat.mod_eq_of_lt hd, toNat_digitByte hd, Nat.add_sub_cancel_left]
    refine ⟨Nat.le_add_right _ _, Nat.add_lt_add_left hd _, n % 10 ^ w, Nat.mod_lt _ hq, ?_, ?_⟩
    · show P (10 ^ w * (n / 10 ^ w) + n % 10 ^ w)
      rwa [Nat.div_add_mod]
    · rw [lastDigits_mod]
  · rintro ⟨h₁, h₂, m, hm, hp, rfl⟩
    refine ⟨10 ^ w * (b.toNat - 0x30) + m, ?_, hp, ?_⟩
    · have := Nat.mul_le_mul_left (10 ^ w) (show b.toNat - 0x30 + 1 ≤ 10 by omega)
      rw [Nat.mul_succ] at this
      rw [Nat.pow_succ]
      omega
    · rw [lastDigits_succ, lastDigits_add_mul, Nat.mul_add_div hq, Nat.div_eq_of_lt hm, Nat.add_zero,
        Nat.mod_eq_of_lt (by omega), digitByte_sub h₁ h₂, List.cons_append]

theorem keyWord_nonempty {w : Nat} {P : Nat → Prop} {n : Nat} (hn : n < 10 ^ w) (hp : P n) :
    ∃ u, KeyWord w P u := ⟨_, n, hn, hp, rfl⟩

end EventMatch
