import EventMatch.Proofs.Numeral.Digits

/-!
# What the automata of key ranges recognize

For each way of building states for digits, the key words that they recognize:
those of all numbers (`makes_anyDigits`), of the numbers from a bound on
(`makes_atLeast`), up to a bound (`makes_atMost`) and between two bounds
(`makes_between`). A list of intervals is then recognized exactly
(`makes_ranges`), whatever states its automaton shares.
-/

namespace EventMatch

open Numeral

variable {β : Type} {S : Set (State β)} {n : Nat} {exit : β}

/-- The states that accept any `w - 1`, `w - 2` and so on down to no digits. -/
def FreeStates (S : Set (State β)) (exit : β) : Nat → List (State β) → Prop
  | 0, _ => True
  | _ + 1, [] => False
  | w + 1, s :: states => s ∈ S ∧ s.Recognizes (KeyWord w fun _ => True) exit ∧ FreeStates S exit w states

theorem FreeStates.mono {S' : Set (State β)} (hS : S ⊆ S') :
    ∀ {w : Nat} {states : List (State β)}, FreeStates S exit w states → FreeStates S' exit w states
  | 0, _, _ => trivial
  | _ + 1, _ :: _, ⟨h₁, h₂, h₃⟩ => ⟨hS h₁, h₂, h₃.mono hS⟩

/-- A table of steps on digits recognizes key words if each target recognizes the
rest and every digit of a word has a target. -/
theorem recognizes_keyWord {w : Nat} {P : Nat → Prop} {t : Automaton β}
    (hstep : ∀ b s, t.step b = some s → 0x30 ≤ b.toNat ∧ b.toNat < 0x3A ∧
      s.Recognizes (KeyWord w fun m => P (10 ^ w * (b.toNat - 0x30) + m)) exit)
    (hnone : ∀ b, t.step b = none → 0x30 ≤ b.toNat → b.toNat < 0x3A →
      ∀ m < 10 ^ w, ¬ P (10 ^ w * (b.toNat - 0x30) + m)) :
    t.Recognizes (KeyWord (w + 1) P) exit := by
  refine Automaton.recognizes_of_step not_keyWord_nil (fun b s h => ?_) fun b h u hu => ?_
  · obtain ⟨h₁, h₂, hr⟩ := hstep b s h
    exact hr.congr fun u => keyWord_cons.trans ⟨fun h => h.2.2, fun h => ⟨h₁, h₂, h⟩⟩
  · obtain ⟨h₁, h₂, m, hm, hp, -⟩ := keyWord_cons.mp hu
    exact hnone b h h₁ h₂ m hm hp

theorem makes_keyState (hS : Pool S n) {w : Nat} {P : Nat → Prop} {t : Automaton β}
    (ht : t.WellFormed (· ∈ S)) (h : t.Recognizes (KeyWord w P) exit) {k : Nat} (hk : k < 10 ^ w)
    (hp : P k) : Makes S n (State.ofTable t) fun S' s => s ∈ S' ∧ s.Recognizes (KeyWord w P) exit :=
  (makes_ofTable hS ht).weaken fun _ _ _ ⟨hs, hst, hse⟩ =>
    ⟨hs, State.recognizes_of_table hse (hst ▸ h) (keyWord_nonempty hk hp)⟩

theorem makes_anyDigits {last : State β} (hlast : last.Recognizes (KeyWord 0 fun _ => True) exit)
    (hS : Pool S n) (hl : last ∈ S) :
    ∀ w, Makes S n (Automaton.anyDigits last w) fun S' states => FreeStates S' exit (w + 1) states
  | 0 => .pure hS ⟨hl, hlast, trivial⟩
  | w + 1 => by
    refine (makes_anyDigits hlast hS hl w).bind fun {S' n' states} hS' _ hp hfree => ?_
    obtain ⟨s, states, rfl⟩ : ∃ s l, states = s :: l := by
      cases states with
      | nil => exact hfree.elim
      | cons s l => exact ⟨s, l, rfl⟩
    have hs := hfree.1
    have hw := RangeTable.wellFormed_setRange (RangeTable.wellFormed_empty (· ∈ S')) hs
      (show Automaton.digitZero < Automaton.digitCeiling by decide)
    have hstep : ∀ b, (RangeTable.empty.setRange Automaton.digitZero Automaton.digitCeiling s).step b =
        if 0x30 ≤ b.toNat ∧ b.toNat < 0x3A then some s else none := fun b => by
      rw [RangeTable.step_setRange hp.separated (RangeTable.wellFormed_empty _) hs (by decide),
        RangeTable.step_empty]
      rfl
    have hr : Automaton.Recognizes (RangeTable.empty.setRange Automaton.digitZero Automaton.digitCeiling s)
        (KeyWord (w + 1) fun _ => True) exit := by
      refine recognizes_keyWord (fun b t ht => ?_) fun b hb h₁ h₂ => ?_
      · rw [hstep] at ht
        split at ht
        · rename_i hb
          exact Option.some.inj ht ▸ ⟨hb.1, hb.2, hfree.2.1⟩
        · cases ht
      · rw [hstep, if_pos ⟨h₁, h₂⟩] at hb
        cases hb
    exact (makes_keyState hp hw hr (Nat.pow_pos (by decide)) trivial).bind
      fun hS'' _ hp' ⟨ht, htr⟩ => .pure hp' ⟨ht, htr, hfree.mono hS''⟩

/-- The first digit of a number's last `w + 1` digits is a digit. -/
theorem toNat_firstDigit (w k : Nat) : (digitByte (k / 10 ^ w % 10)).toNat = 0x30 + k / 10 ^ w % 10 :=
  toNat_digitByte (Nat.mod_lt _ (by decide))

/-- A table with a tight way on one byte and a free one from the next byte up to
`up`, if there is any. -/
theorem tight_free_ok (hS : Pool S n) {tight free : State β} (ht : tight ∈ S) (hf : free ∈ S)
    (c : UInt8) (up : Nat) :
    let t := if c.toNat + 1 < up then (RangeTable.empty.setByte c tight).setRange (c.toNat + 1) up free
      else RangeTable.empty.setByte c tight
    t.WellFormed (· ∈ S) ∧ ∀ b, t.step b = if c.toNat < b.toNat ∧ b.toNat < up then some free else
      if b.toNat = c.toNat then some tight else none := by
  have hw := RangeTable.wellFormed_byte ht c
  have hone : ∀ b, (RangeTable.empty.setByte c tight).step b =
      if b.toNat = c.toNat then some tight else none := fun b => by
    rw [RangeTable.step_setByte hS.separated (RangeTable.wellFormed_empty _) ht, RangeTable.step_empty]
  intro t
  by_cases hlt : c.toNat + 1 < up
  · simp only [t, if_pos hlt]
    refine ⟨RangeTable.wellFormed_setRange hw hf hlt, fun b => ?_⟩
    rw [RangeTable.step_setRange hS.separated hw hf hlt, hone]
    rfl
  · simp only [t, if_neg hlt]
    refine ⟨hw, fun b => ?_⟩
    rw [hone, if_neg (show ¬ (c.toNat < b.toNat ∧ b.toNat < up) by omega)]

/-- The digits of `lo` as a lower bound. -/
theorem makes_atLeast {last : State β} (hlast : last.Recognizes (KeyWord 0 fun _ => True) exit)
    (hS : Pool S n) (hl : last ∈ S) (lo : Nat) :
    ∀ {w : Nat} {free : List (State β)}, FreeStates S exit w free →
      Makes S n (Automaton.atLeast last ((lastDigits w lo).zip free)) fun S' s =>
        s ∈ S' ∧ s.Recognizes (KeyWord w fun m => lo % 10 ^ w ≤ m) exit
  | 0, _, _ => .pure hS ⟨hl, hlast.congr fun u =>
      keyWord_congr (fun m _ => iff_true_intro (by rw [Nat.pow_zero, Nat.mod_one]; exact Nat.zero_le m)) u⟩
  | w + 1, f :: free, hf => by
    rw [lastDigits_succ, List.zip_cons_cons, Automaton.atLeast]
    refine (makes_atLeast hlast hS hl lo hf.2.2).bind fun {S' n' tight} hS' _ hp ⟨ht, htr⟩ => ?_
    have hd := toNat_firstDigit w lo
    have hd10 := Nat.mod_lt (lo / 10 ^ w) (show 10 > 0 by decide)
    have hq : 0 < 10 ^ w := Nat.pow_pos (by decide)
    generalize digitByte (lo / 10 ^ w % 10) = c at hd ⊢
    obtain ⟨hwf, hstep⟩ := tight_free_ok hp ht (hS' hf.1) c Automaton.digitCeiling
    refine makes_keyState hp hwf (recognizes_keyWord (fun b s hs => ?_) fun b hb h₁ h₂ m hm => ?_)
      (Nat.mod_lt lo (Nat.pow_pos (by decide))) (Nat.le_refl _)
    · rw [hstep] at hs
      rw [Nat.mod_pow_succ, Nat.add_comm (lo % 10 ^ w)]
      split at hs
      · rename_i hb
        have hlt : b.toNat < 0x3A := hb.2
        refine Option.some.inj hs ▸ ⟨by omega, hlt, hf.2.1.congr fun u => keyWord_congr (fun m hm => ?_) u⟩
        rw [mul_add_le_iff (Nat.mod_lt lo hq) hm]
        exact iff_true_intro (.inl (by omega))
      · split at hs
        · rename_i hb
          refine Option.some.inj hs ▸ ⟨by omega, by omega, htr.congr fun u => keyWord_congr (fun m hm => ?_) u⟩
          rw [mul_add_le_iff (Nat.mod_lt lo hq) hm, hb, hd, Nat.add_sub_cancel_left]
          omega
        · cases hs
    · rw [hstep] at hb
      rw [Nat.mod_pow_succ, Nat.add_comm (lo % 10 ^ w), mul_add_le_iff (Nat.mod_lt lo hq) hm]
      split at hb
      · cases hb
      · rename_i hfree
        split at hb
        · cases hb
        · simp only [Automaton.digitCeiling] at hfree
          omega

/-- The digits of `hi` as an upper bound. -/
theorem makes_atMost {last : State β} (hlast : last.Recognizes (KeyWord 0 fun _ => True) exit)
    (hS : Pool S n) (hl : last ∈ S) (hi : Nat) :
    ∀ {w : Nat} {free : List (State β)}, FreeStates S exit w free →
      Makes S n (Automaton.atMost last ((lastDigits w hi).zip free)) fun S' s =>
        s ∈ S' ∧ s.Recognizes (KeyWord w fun m => m ≤ hi % 10 ^ w) exit
  | 0, _, _ => .pure hS ⟨hl, hlast.congr fun u =>
      keyWord_congr (fun m hm => iff_true_intro (by
        rw [Nat.pow_zero] at hm
        omega)) u⟩
  | w + 1, f :: free, hf => by
    rw [lastDigits_succ, List.zip_cons_cons, Automaton.atMost]
    refine (makes_atMost hlast hS hl hi hf.2.2).bind fun {S' n' tight} hS' _ hp ⟨ht, htr⟩ => ?_
    have hd := toNat_firstDigit w hi
    have hd10 := Nat.mod_lt (hi / 10 ^ w) (show 10 > 0 by decide)
    have hq : 0 < 10 ^ w := Nat.pow_pos (by decide)
    generalize digitByte (hi / 10 ^ w % 10) = c at hd ⊢
    have hf' := hS' hf.1
    have he := RangeTable.wellFormed_empty (· ∈ S')
    -- The free way below the digit, the tight one on the digit itself.
    obtain ⟨hwf, hstep⟩ : RangeTable.WellFormed (· ∈ S')
        (if Automaton.digitZero < c.toNat then
          RangeTable.empty.setRange Automaton.digitZero c.toNat f else RangeTable.empty) ∧
      ∀ b, RangeTable.step (if Automaton.digitZero < c.toNat then
          RangeTable.empty.setRange Automaton.digitZero c.toNat f else RangeTable.empty) b =
        if 0x30 ≤ b.toNat ∧ b.toNat < c.toNat then some f else none := by
      split
      · rename_i hlt
        refine ⟨RangeTable.wellFormed_setRange he hf' hlt, fun b => ?_⟩
        rw [RangeTable.step_setRange hp.separated he hf' hlt,
          RangeTable.step_empty]
        rfl
      · rename_i hlt
        refine ⟨he, fun b => ?_⟩
        rw [RangeTable.step_empty, if_neg (show ¬ (0x30 ≤ b.toNat ∧ b.toNat < c.toNat) by
          simp only [Automaton.digitZero] at hlt
          omega)]
    generalize (if Automaton.digitZero < c.toNat then _ else _ : RangeTable (State β)) = t at hwf hstep ⊢
    refine makes_keyState hp (RangeTable.wellFormed_setByte hwf ht c)
      (recognizes_keyWord (fun b s hs => ?_) fun b hb h₁ h₂ m hm => ?_)
      (Nat.mod_lt hi (Nat.pow_pos (by decide))) (Nat.le_refl _)
    · rw [RangeTable.step_setByte hp.separated hwf ht, hstep] at hs
      rw [Nat.mod_pow_succ, Nat.add_comm (hi % 10 ^ w)]
      split at hs
      · rename_i hb
        refine Option.some.inj hs ▸ ⟨by rw [hb]; omega, by rw [hb]; omega,
          htr.congr fun u => keyWord_congr (fun m hm => ?_) u⟩
        rw [mul_add_le_iff hm (Nat.mod_lt hi hq), hb, hd, Nat.add_sub_cancel_left]
        omega
      · split at hs
        · rename_i hb
          refine Option.some.inj hs ▸ ⟨by omega, by omega, hf.2.1.congr fun u => keyWord_congr (fun m hm => ?_) u⟩
          rw [mul_add_le_iff hm (Nat.mod_lt hi hq)]
          exact iff_true_intro (.inl (by omega))
        · cases hs
    · rw [RangeTable.step_setByte hp.separated hwf ht, hstep] at hb
      rw [Nat.mod_pow_succ, Nat.add_comm (hi % 10 ^ w), mul_add_le_iff hm (Nat.mod_lt hi hq)]
      split at hb
      · cases hb
      · rename_i hne
        split at hb
        · cases hb
        · omega

theorem map_zip_left {γ δ ε : Type} : ∀ {as : List γ} {bs : List δ} {cs : List ε}, as.length = bs.length →
    ((as.zip (bs.zip cs)).map fun (a, _, c) => (a, c)) = as.zip cs
  | [], _, _, _ => rfl
  | _ :: _, _ :: _, [], _ => rfl
  | _ :: _, _ :: _, _ :: _, h =>
    congrArg (List.cons _) (map_zip_left (Nat.succ.inj h))

theorem map_zip_right {γ δ ε : Type} : ∀ {as : List γ} {bs : List δ} {cs : List ε}, as.length = bs.length →
    ((as.zip (bs.zip cs)).map fun (_, b, c) => (b, c)) = bs.zip cs
  | [], [], _, _ => rfl
  | _ :: _, _ :: _, [], _ => rfl
  | _ :: _, _ :: _, _ :: _, h =>
    congrArg (List.cons _) (map_zip_right (Nat.succ.inj h))

/-- A number lies between two bounds by its first digit or, on a bound's first
digit, by the rest. -/
theorem between_iff {q d r e t k m : Nat} (hr : r < q) (ht : t < q) (hm : m < q) :
    q * d + r ≤ q * k + m ∧ q * k + m ≤ q * e + t ↔
      (d < k ∨ d = k ∧ r ≤ m) ∧ (k < e ∨ k = e ∧ m ≤ t) :=
  and_congr (mul_add_le_iff hr hm) (mul_add_le_iff hm ht)

/-- The bounds differ in their first digit. -/
theorem makes_between_apart {last : State β} (hlast : last.Recognizes (KeyWord 0 fun _ => True) exit)
    (hS : Pool S n) (hl : last ∈ S) {lo hi w d e : Nat} {f : State β} {free : List (State β)}
    (hf : FreeStates S exit (w + 1) (f :: free)) (hde : d < e) (he : e < 10) :
    Makes S n (Automaton.between last ((digitByte d, digitByte e, f) ::
        (lastDigits w lo).zip ((lastDigits w hi).zip free))) fun S' t =>
      t.WellFormed (· ∈ S') ∧ Automaton.Recognizes t (KeyWord (w + 1) fun m =>
        10 ^ w * d + lo % 10 ^ w ≤ m ∧ m ≤ 10 ^ w * e + hi % 10 ^ w) exit := by
  have hq : 0 < 10 ^ w := Nat.pow_pos (by decide)
  have hlo := Nat.mod_lt lo hq
  have hhi := Nat.mod_lt hi hq
  have hdb := toNat_digitByte (show d < 10 by omega)
  have heb := toNat_digitByte he
  have hlen : (lastDigits w lo).length = (lastDigits w hi).length := by
    rw [length_lastDigits, length_lastDigits]
  rw [Automaton.between, if_neg fun h => Nat.ne_of_lt hde (digitByte_inj (by omega) he h),
    map_zip_left hlen, map_zip_right hlen]
  refine (makes_atLeast hlast hS hl lo hf.2.2).bind fun {S₁ _ lower} hS₁ _ hp₁ ⟨hlow, hlowr⟩ => ?_
  refine (makes_atMost hlast hp₁ (hS₁ hl) hi (hf.2.2.mono hS₁)).bind
    fun {S₂ _ upper} hS₂ _ hp₂ ⟨hup, hupr⟩ => ?_
  obtain ⟨hw, hstep⟩ := tight_free_ok hp₂ (hS₂ hlow) (hS₂ (hS₁ hf.1)) (digitByte d) (digitByte e).toNat
  refine .pure hp₂ ⟨RangeTable.wellFormed_setByte hw hup _, recognizes_keyWord (fun b s hs => ?_)
    fun b hb h₁ h₂ m hm => ?_⟩
  · rw [RangeTable.step_setByte hp₂.separated hw hup, hstep, hdb, heb] at hs
    split at hs
    · refine Option.some.inj hs ▸ ⟨by omega, by omega, hupr.congr fun u => keyWord_congr (fun m hm => ?_) u⟩
      rw [between_iff hlo hhi hm]
      omega
    · split at hs
      · refine Option.some.inj hs ▸ ⟨by omega, by omega, hf.2.1.congr fun u => keyWord_congr (fun m hm => ?_) u⟩
        rw [between_iff hlo hhi hm]
        exact iff_true_intro (by omega)
      · split at hs
        · refine Option.some.inj hs ▸ ⟨by omega, by omega, hlowr.congr fun u => keyWord_congr (fun m hm => ?_) u⟩
          rw [between_iff hlo hhi hm]
          omega
        · cases hs
  · rw [RangeTable.step_setByte hp₂.separated hw hup, hstep, hdb, heb] at hb
    rw [between_iff hlo hhi hm]
    split at hb
    · cases hb
    · split at hb
      · cases hb
      · split at hb
        · cases hb
        · omega

theorem between_cons_same (last : State β) (l : UInt8) (f : State β) (rest : List (UInt8 × UInt8 × State β)) :
    Automaton.between last ((l, l, f) :: rest) =
      (if rest.isEmpty then pure last else do State.ofTable (← Automaton.between last rest)) >>=
        fun tight => pure (RangeTable.empty.setByte l tight) := by
  rw [Automaton.between, if_pos rfl]
  cases rest <;> rfl

/-- The digits between those of `lo` and `hi`. -/
theorem makes_between {last : State β} (hlast : last.Recognizes (KeyWord 0 fun _ => True) exit)
    (hS : Pool S n) (hl : last ∈ S) (lo hi : Nat) :
    ∀ {w : Nat} {free : List (State β)}, FreeStates S exit (w + 1) free →
      lo % 10 ^ (w + 1) ≤ hi % 10 ^ (w + 1) →
      Makes S n (Automaton.between last ((lastDigits (w + 1) lo).zip ((lastDigits (w + 1) hi).zip free)))
        fun S' t => t.WellFormed (· ∈ S') ∧ Automaton.Recognizes t
          (KeyWord (w + 1) fun m => lo % 10 ^ (w + 1) ≤ m ∧ m ≤ hi % 10 ^ (w + 1)) exit
  | w, f :: free, hf, hle => by
    have hq : 0 < 10 ^ w := Nat.pow_pos (by decide)
    have hlo := Nat.mod_lt lo hq
    have hhi := Nat.mod_lt hi hq
    have hd10 := Nat.mod_lt (lo / 10 ^ w) (show 10 > 0 by decide)
    have he10 := Nat.mod_lt (hi / 10 ^ w) (show 10 > 0 by decide)
    rw [Nat.mod_pow_succ, Nat.mod_pow_succ, Nat.add_comm (lo % 10 ^ w), Nat.add_comm (hi % 10 ^ w)] at hle ⊢
    rw [lastDigits_succ, lastDigits_succ, List.zip_cons_cons, List.zip_cons_cons]
    rcases (mul_add_le_iff hlo hhi).mp hle with hlt | ⟨hde, hle'⟩
    · exact makes_between_apart hlast hS hl hf hlt he10
    rw [← hde]
    have hdb := toNat_digitByte hd10
    generalize lo / 10 ^ w % 10 = d at hd10 hdb ⊢
    -- One way on: the bounds' first digit, behind which the rest of the digits are compared.
    have htight : Makes S n
        (if ((lastDigits w lo).zip ((lastDigits w hi).zip free)).isEmpty then pure last
          else do State.ofTable (← Automaton.between last ((lastDigits w lo).zip ((lastDigits w hi).zip free))))
        fun S' s => s ∈ S' ∧ s.Recognizes (KeyWord w fun m => lo % 10 ^ w ≤ m ∧ m ≤ hi % 10 ^ w) exit := by
      cases w with
      | zero =>
        refine .pure hS ⟨hl, hlast.congr fun u => keyWord_congr (fun m hm => iff_true_intro ?_) u⟩
        rw [Nat.pow_zero] at hm hlo hhi ⊢
        omega
      | succ w =>
        obtain ⟨g, free, rfl⟩ : ∃ g l, free = g :: l := by
          cases free with
          | nil => exact hf.2.2.elim
          | cons g l => exact ⟨g, l, rfl⟩
        rw [if_neg (by simp [lastDigits_succ])]
        refine (makes_between hlast hS hl lo hi hf.2.2 hle').bind fun _ _ hp ⟨hw, hr⟩ => ?_
        exact makes_keyState hp hw hr hlo ⟨Nat.le_refl _, hle'⟩
    rw [between_cons_same]
    refine htight.bind fun {S' n' tight} hS' _ hp ⟨ht, htr⟩ => ?_
    refine .pure hp ⟨RangeTable.wellFormed_byte ht _, ?_⟩
    have hstep : ∀ b, (RangeTable.empty.setByte (digitByte d) tight).step b =
        if b.toNat = 0x30 + d then some tight else none := fun b => by
      rw [RangeTable.step_setByte hp.separated (RangeTable.wellFormed_empty _) ht,
        RangeTable.step_empty, hdb]
    refine recognizes_keyWord (fun b s hs => ?_) fun b hb h₁ h₂ m hm => ?_
    · rw [hstep] at hs
      split at hs
      · rename_i hb
        refine Option.some.inj hs ▸ ⟨by omega, by omega, htr.congr fun u => keyWord_congr (fun m hm => ?_) u⟩
        rw [between_iff hlo hhi hm]
        omega
      · cases hs
    · rw [hstep] at hb
      split at hb
      · cases hb
      · rw [between_iff hlo hhi hm]
        omega

/-- The digits of the keys of an interval. -/
theorem makes_interval {last : State β} (hlast : last.Recognizes (KeyWord 0 fun _ => True) exit)
    (hS : Pool S n) (hl : last ∈ S) {free : List (State β)}
    (hf : FreeStates S exit (keyWidth + 1) free) {i : KeyInterval} (hle : i.lo ≤ i.hi)
    (hmax : i.hi ≤ maxKey) :
    Makes S n (Automaton.interval i last free) fun S' t =>
      t.WellFormed (· ∈ S') ∧ Automaton.Recognizes t (KeyWord keyWidth fun m => i.contains m) exit := by
  obtain ⟨f, free, rfl⟩ : ∃ f l, free = f :: l := by
    cases free with
    | nil => exact hf.elim
    | cons f l => exact ⟨f, l, rfl⟩
  have hlt : i.hi < 10 ^ keyWidth := Nat.lt_of_le_of_lt hmax (by decide)
  have e₁ := Nat.mod_eq_of_lt (Nat.lt_of_le_of_lt hle hlt)
  have e₂ := Nat.mod_eq_of_lt hlt
  refine (makes_between hlast hS hl i.lo i.hi hf.2.2 (by rwa [show 18 + 1 = keyWidth from rfl, e₁, e₂])).weaken
    fun S' t _ ⟨hw, hr⟩ => ⟨hw, hr.congr fun u => keyWord_congr (fun m _ => ?_) u⟩
  rw [show 18 + 1 = keyWidth from rfl, e₁, e₂, KeyInterval.contains, Bool.and_eq_true, decide_eq_true_iff,
    decide_eq_true_iff]

/-! ## Lists of intervals -/

/-- The keys in the intervals of a list. -/
def InSome (intervals : List KeyInterval) (key : Nat) : Prop := ∃ i ∈ intervals, i.contains key

section Merged

variable [BEq β] [ReflBEq β]

/-- The automaton of a list of intervals recognizes the marked digits of the keys
that are in some interval. -/
theorem makes_ranges (hS : Pool S n) {intervals : List KeyInterval}
    (hi : ∀ i ∈ intervals, i.lo ≤ i.hi ∧ i.hi ≤ maxKey) (exit : β) :
    Makes S n (Automaton.ranges intervals exit) fun S' t => t.WellFormed (· ∈ S') ∧
      t.Recognizes (fun w => ∃ u, w = numberMark :: u ∧ KeyWord keyWidth (InSome intervals) u) exit := by
  refine (makes_final hS exit).bind fun {S₁ _ final} _ _ hp₁ ⟨hfin, hft, hfe⟩ => ?_
  have hlastr := (Automaton.recognizes_setByte hp₁ hfin (State.recognizes_final hft hfe) terminator).congr
    fun u => (keyWord_zero (P := fun _ => True) trivial u).trans
      ⟨fun e => ⟨[], e, rfl⟩, fun ⟨v, e, hv⟩ => e.trans (congrArg _ hv)⟩
  refine (makes_keyState hp₁ (RangeTable.wellFormed_byte hfin _) hlastr (k := 0) (by decide) trivial).bind
    fun {S₂ _ last} _ _ hp₂ ⟨hl, hlr⟩ => ?_
  refine (makes_anyDigits hlr hp₂ hl keyWidth).bind fun {S₃ n₃ free} hS₃ _ hp₃ hf => ?_
  refine (makes_union hp₃ intervals fun i hi' S n hS hp =>
    makes_interval hlr hp (hS (hS₃ hl)) (hf.mono hS) (hi i hi').1 (hi i hi').2).bind
    fun {S₄ _ digits} _ _ hp₄ ⟨hw, hr⟩ => ?_
  have hr := hr.congr (M := KeyWord keyWidth (InSome intervals)) fun u =>
    ⟨fun ⟨m, hm, ⟨i, hi, h⟩, e⟩ => ⟨i, hi, m, hm, h, e⟩, fun ⟨i, hi, m, hm, h, e⟩ => ⟨m, hm, ⟨i, hi, h⟩, e⟩⟩
  by_cases he : digits.isEmpty
  · simp only [he, if_true]
    refine .pure hp₄ ⟨RangeTable.wellFormed_empty _, (Automaton.recognizes_empty exit).congr fun w => ?_⟩
    refine ⟨fun ⟨u, _, hu⟩ => ?_, False.elim⟩
    have := hr.accept hu
    cases u with
    | nil => cases this
    | cons b u =>
      rw [Automaton.exitsAt?_cons, RangeTable.step_of_isEmpty he] at this
      cases this
  · simp only [he]
    obtain ⟨b, s, hs⟩ := hw.exists_step he
    have hex : ∃ u, KeyWord keyWidth (InSome intervals) u :=
      (hr.alive (w := [b]) (by rw [Automaton.exitsAt?_cons, hs]; rfl)).imp' _ fun _ h => h
    exact makes_byte hp₄ hw hr hex numberMark

end Merged

end EventMatch
