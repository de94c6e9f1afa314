import EventMatch.Proofs.Automaton.Ranges
import EventMatch.Proofs.Numeral.Key

/-!
# Values that automata of key ranges accept

A value is looked up with the terminator behind it. In the automaton of a list of
intervals it reaches the exit once if it then begins with the mark, the digits of a key in
some interval and a terminator (`BeginsWithKey`), and nothing if it does not
(`Automaton.run_ranges`). For this, key words are tied to the digits that spell a number
(`keyWord_iff_digits`), and what a value begins with to its bytes before the first
terminator (`Bytes.upToTerminator_eq_iff`).
-/

namespace EventMatch

open Numeral

/-! ## Digits and what they spell -/

namespace Numeral

/-- All bytes are ASCII digits. -/
def IsDigits (ds : Bytes) : Prop := ∀ b ∈ ds, 0x30 ≤ b.toNat ∧ b.toNat < 0x3A

variable {ds : Bytes}

theorem isDigits_lastDigits (w n : Nat) : IsDigits (lastDigits w n) := fun _ => mem_lastDigits

theorem IsDigits.terminator_not_mem (h : IsDigits ds) : terminator ∉ ds := fun hm =>
  absurd (h _ hm).2 (by decide)

theorem IsDigits.numberMark_not_mem (h : IsDigits ds) : numberMark ∉ ds := fun hm =>
  absurd (h _ hm).2 (by decide)

theorem isDigits_concat {b : UInt8} (h : IsDigits (ds ++ [b])) :
    IsDigits ds ∧ 0x30 ≤ b.toNat ∧ b.toNat < 0x3A :=
  ⟨fun c hc => h c (List.mem_append_left _ hc), h b (List.mem_append_right _ (List.mem_singleton_self b))⟩

theorem ofDecimal_concat (ds : Bytes) {b : UInt8} (h₁ : 0x30 ≤ b.toNat) (h₂ : b.toNat < 0x3A) :
    ofDecimal (ds ++ [b]) = 10 * ofDecimal ds + (b.toNat - 0x30) := by
  rw [← ofDecimal_append_digit ds (show b.toNat - 0x30 < 10 by omega), digitByte_sub h₁ h₂]

theorem IsDigits.ofDecimal_lt (h : IsDigits ds) : ofDecimal ds < 10 ^ ds.length := by
  induction ds using List.reverseRecOn with
  | nil => decide
  | append_singleton ds b ih =>
    obtain ⟨hds, h₁, h₂⟩ := isDigits_concat h
    have := ih hds
    rw [ofDecimal_concat ds h₁ h₂, List.length_append, List.length_singleton, Nat.pow_succ]
    omega

/-- Digits are those of the number that they spell. -/
theorem IsDigits.lastDigits_ofDecimal (h : IsDigits ds) : lastDigits ds.length (ofDecimal ds) = ds := by
  induction ds using List.reverseRecOn with
  | nil => rfl
  | append_singleton ds b ih =>
    obtain ⟨hds, h₁, h₂⟩ := isDigits_concat h
    have hdiv : (10 * ofDecimal ds + (b.toNat - 0x30)) / 10 = ofDecimal ds := by omega
    have hmod : (10 * ofDecimal ds + (b.toNat - 0x30)) % 10 = b.toNat - 0x30 := by omega
    rw [ofDecimal_concat ds h₁ h₂, List.length_append, List.length_singleton, lastDigits, hdiv, hmod, ih hds,
      show UInt8.ofNat (0x30 + _) = digitByte _ from rfl, digitByte_sub h₁ h₂]

end Numeral

variable {P : Nat → Prop}

/-- Key words are the digits of a width that spell a number with the property, and the terminator. -/
theorem keyWord_iff_digits {w : Nat} {u : Bytes} :
    KeyWord w P u ↔ ∃ ds, u = ds ++ [terminator] ∧ ds.length = w ∧ IsDigits ds ∧ P (ofDecimal ds) := by
  constructor
  · rintro ⟨n, hn, hp, rfl⟩
    refine ⟨lastDigits w n, rfl, length_lastDigits w n, isDigits_lastDigits w n, ?_⟩
    rwa [ofDecimal_lastDigits hn]
  · rintro ⟨ds, rfl, rfl, hds, hp⟩
    exact ⟨ofDecimal ds, hds.ofDecimal_lt, hp, by rw [hds.lastDigits_ofDecimal]⟩

/-! ## Beginnings of values -/

theorem Bytes.upToTerminator_append_cons {u : Bytes} (hu : terminator ∉ u) (r : Bytes) :
    Bytes.upToTerminator (u ++ terminator :: r) = u := by
  have hne : ∀ b ∈ u, (b != terminator) = true := fun b hb => bne_iff_ne.mpr fun e => hu (e ▸ hb)
  rw [upToTerminator, List.takeWhile_append_of_pos hne, List.takeWhile_cons_of_neg (by simp), List.append_nil]

/-- A value with the terminator behind it begins with the bytes before the first one. -/
theorem Bytes.upToTerminator_eq_iff {u v : Bytes} (hu : terminator ∉ u) :
    v.upToTerminator = u ↔ ∃ r, v ++ [terminator] = u ++ terminator :: r := by
  obtain ⟨r, hr⟩ := v.upToTerminator_append
  constructor
  · rintro rfl
    exact ⟨r, hr⟩
  · rintro ⟨r', hr'⟩
    have h := congrArg upToTerminator (hr.symm.trans hr')
    rwa [upToTerminator_append_cons v.not_mem_upToTerminator, upToTerminator_append_cons hu] at h

/-- The bytes begin with the mark, the digits of a key that has the property, and a terminator. -/
def BeginsWithKey (P : Nat → Prop) (w : Bytes) : Prop :=
  ∃ ds rest, w = numberMark :: (ds ++ terminator :: rest) ∧ ds.length = keyWidth ∧ IsDigits ds ∧
    P (ofDecimal ds)

/-- Marked digits, whatever is behind them. -/
theorem beginsWithKey_mark_iff {k : Nat} (hk : k ≤ maxKey) (rest : Bytes) :
    BeginsWithKey P (numberMark :: (keyDigits k ++ terminator :: rest)) ↔ P k := by
  have hkey : ofDecimal (keyDigits k) = k := ofDecimal_lastDigits (lt_pow_keyWidth.mpr hk)
  constructor
  · rintro ⟨ds, r, he, hlen, -, hp⟩
    have hd : keyDigits k = ds :=
      (List.append_inj (List.cons.inj he).2 ((length_lastDigits keyWidth k).trans hlen.symm)).1
    rwa [← hd, hkey] at hp
  · intro hp
    exact ⟨keyDigits k, rest, rfl, length_lastDigits _ _, isDigits_lastDigits _ _, by rwa [hkey]⟩

/-- Only the bytes before the first terminator count. -/
theorem beginsWithKey_concat_iff (v : Bytes) :
    BeginsWithKey P (v ++ [terminator]) ↔
      ∃ u, v.upToTerminator ++ [terminator] = numberMark :: u ∧ KeyWord keyWidth P u := by
  have hmark : ∀ {ds : Bytes}, IsDigits ds → terminator ∉ numberMark :: ds := fun hds hm =>
    (List.mem_cons.mp hm).elim (by decide) hds.terminator_not_mem
  constructor
  · rintro ⟨ds, rest, he, hlen, hds, hp⟩
    have hv : v.upToTerminator = numberMark :: ds := (Bytes.upToTerminator_eq_iff (hmark hds)).mpr ⟨rest, he⟩
    refine ⟨ds ++ [terminator], ?_, keyWord_iff_digits.mpr ⟨ds, rfl, hlen, hds, hp⟩⟩
    rw [hv, List.cons_append]
  · rintro ⟨u, hu, hw⟩
    obtain ⟨ds, rfl, hlen, hds, hp⟩ := keyWord_iff_digits.mp hw
    have hv : v.upToTerminator = numberMark :: ds := List.append_cancel_right (hu.trans (List.cons_append).symm)
    obtain ⟨rest, he⟩ := (Bytes.upToTerminator_eq_iff (hmark hds)).mp hv
    exact ⟨ds, rest, he, hlen, hds, hp⟩

/-! ## Lookups -/

namespace Automaton

variable {β : Type} {t : Automaton β} {L : Bytes → Prop} {exit : β}

/-- A lookup reaches the exit once if the bytes before the first terminator and one behind
them are a word, and nothing otherwise. -/
theorem Recognizes.run_eq (h : t.Recognizes L exit) (hL : EndTerminated L) (v : Bytes) :
    (L (v.upToTerminator ++ [terminator]) → t.run v = [exit]) ∧
      (¬ L (v.upToTerminator ++ [terminator]) → t.run v = []) := by
  rw [Automaton.run_eq (h.endsAtTerminator hL), exitsAt]
  constructor
  · intro hw
    rw [h.accept hw]
    rfl
  · intro hw
    rcases h.eq_none_or hw with e | e <;> rw [e] <;> rfl

/-- The automaton of any list of intervals, in any order and with any overlaps, reaches its
exit once on the values that begin with a marked key in some interval, and nothing on others. -/
theorem run_ranges [BEq β] [ReflBEq β] (intervals : List KeyInterval)
    (hi : ∀ i ∈ intervals, i.lo ≤ i.hi ∧ i.hi ≤ maxKey) (exit : β) (n : Nat) (v : Bytes) :
    (BeginsWithKey (InSome intervals) (v ++ [terminator]) →
        (((ranges intervals exit).run n).1).run v = [exit]) ∧
      (¬ BeginsWithKey (InSome intervals) (v ++ [terminator]) →
        (((ranges intervals exit).run n).1).run v = []) := by
  obtain ⟨_, -, -, -, -, hr⟩ := makes_ranges (Pool.empty n) hi exit
  rw [beginsWithKey_concat_iff]
  exact hr.run_eq (.cons (by decide) (KeyWord.endTerminated _ _)) v

/-- Four intervals that are unsorted, meet and repeat. The bounds of the first cross in the digits
behind the first one. What is behind the terminator of an accepted key does not matter. -/
theorem run_ranges_crossing :
    let intervals : List KeyInterval := [⟨999999995000000001, 1000000000499999999⟩, ⟨8, 9⟩, ⟨5, 8⟩, ⟨8, 9⟩]
    let t := ((ranges intervals 3).run 0).1
    (∀ i ∈ intervals, i.lo ≤ i.hi ∧ i.hi ≤ maxKey) ∧
      (∀ k ∈ [999999995000000001, 1000000000000000000, 8],
        t.run (numberMark :: keyDigits k) = [3] ∧
          t.run (numberMark :: (keyDigits k ++ [terminator, 0x61])) = [3]) ∧
      ∀ k ∈ [999999995000000000, 1000000000500000000, 4], t.run (numberMark :: keyDigits k) = [] := by
  intro intervals t
  have hi : ∀ i ∈ intervals, i.lo ≤ i.hi ∧ i.hi ≤ maxKey := by decide
  have hrun := run_ranges intervals hi 3 0
  refine ⟨hi, fun k hk => ?_, fun k hk => ?_⟩
  · obtain ⟨hmax, hin⟩ : k ≤ maxKey ∧ InSome intervals k := by
      have hall : ∀ k ∈ [999999995000000001, 1000000000000000000, 8],
          k ≤ maxKey ∧ ∃ i ∈ intervals, i.contains k := by decide
      exact hall k hk
    refine ⟨(hrun _).1 ((beginsWithKey_mark_iff hmax []).mpr hin), (hrun _).1 ?_⟩
    rw [List.cons_append, List.append_assoc]
    exact (beginsWithKey_mark_iff hmax [0x61, terminator]).mpr hin
  · obtain ⟨hmax, hout⟩ : k ≤ maxKey ∧ ¬ InSome intervals k := by
      have hall : ∀ k ∈ [999999995000000000, 1000000000500000000, 4],
          k ≤ maxKey ∧ ¬ ∃ i ∈ intervals, i.contains k := by decide
      exact hall k hk
    exact (hrun _).2 fun h => hout ((beginsWithKey_mark_iff hmax []).mp h)

end Automaton

end EventMatch
