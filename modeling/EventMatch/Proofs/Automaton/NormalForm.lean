import EventMatch.Automaton.Merge
import EventMatch.Proofs.Automaton.Table
import Mathlib.Data.List.Chain
import Mathlib.Data.List.Forall2

/-!
# The normal form of range tables

A table is in normal form if its runs cover the byte values and no two neighbours
have the same target (`NormalForm`). Every operation on tables keeps it, whatever
the targets hold: `==` need only be an equivalence. `Built` collects the tables
that the operations lead to.

Tables in normal form are determined by their steps (`NormalForm.unique`), the
targets that such a table unpacks to pack to the table itself
(`NormalForm.pack_unpack`), and after some writes a byte has the target of the
last write that covers it (`step_foldl_apply`). `lockStep?` is the merge of two
tables as a walk by positions; on tables in normal form it reads no run past the
end of either and ends at both ends at once (`lockStep?_eq_some`).
-/

namespace EventMatch

variable {α β : Type}

instance equivBEq_option [BEq α] [EquivBEq α] : EquivBEq (Option α) where
  symm := fun {x y} h =>
    match x, y, h with
    | none, none, h => h
    | some a, some b, h => BEq.symm (a := a) (b := b) h
  trans := fun {x y z} h₁ h₂ =>
    match x, y, z, h₁, h₂ with
    | none, none, none, h, _ => h
    | some a, some b, some c, h₁, h₂ => BEq.trans (a := a) (b := b) (c := c) h₁ h₂

instance : EquivBEq (State β) where
  rfl := fun {s} => beq_self_eq_true s.label
  symm := fun {s t} h => BEq.symm (a := s.label) (b := t.label) h
  trans := fun {s t u} h₁ h₂ => BEq.trans (a := s.label) (b := t.label) (c := u.label) h₁ h₂

theorem identifies_beq [BEq α] [EquivBEq α] :
    Identifies (fun _ => True) (fun x y : Option α => (x == y) = true) :=
  ⟨fun _ => BEq.rfl, BEq.trans, fun _ _ h => h⟩

namespace Run

theorem Covers.isChain {floor : Nat} : ∀ {runs : List (Run α)}, Covers floor runs →
    (floor :: runs.map ceiling).IsChain (· < ·)
  | [], _ => List.isChain_singleton _
  | _ :: _, h => List.isChain_cons_cons.mpr ⟨h.1, h.2.isChain⟩

theorem Covers.getLast?_cons {floor : Nat} : ∀ {runs : List (Run α)}, Covers floor runs →
    (floor :: runs.map ceiling).getLast? = some byteCount
  | [], h => congrArg some h
  | _ :: _, h => by rw [List.map_cons, List.getLast?_cons_cons, h.2.getLast?_cons]

theorem Covers.ne_nil {floor : Nat} {runs : List (Run α)} (h : Covers floor runs)
    (hlt : floor < byteCount) : runs ≠ [] := by
  rintro rfl
  exact Nat.ne_of_lt hlt h

theorem Covers.getLast?_ceilings {floor : Nat} {runs : List (Run α)} (h : Covers floor runs)
    (hlt : floor < byteCount) : (runs.map ceiling).getLast? = some byteCount := by
  obtain ⟨r, runs, rfl⟩ := List.exists_cons_of_ne_nil (h.ne_nil hlt)
  have hlast := h.getLast?_cons
  rwa [List.map_cons, List.getLast?_cons_cons] at hlast

theorem allTargets_true (runs : List (Run α)) : AllTargets (fun _ => True) runs :=
  fun _ _ _ _ => trivial

/-! ## Neighbours -/

section Apart

variable [BEq α]

/-- No two neighbours have the same target. -/
def Apart (runs : List (Run α)) : Prop := runs.IsChain fun r s => ¬ (r.target == s.target) = true

variable [EquivBEq α]

theorem apart_join {r : Run α} : ∀ {runs : List (Run α)}, Apart runs → Apart (cons r runs)
  | [], _ => List.isChain_singleton r
  | s :: runs, h => by
    rw [cons_cons]
    split
    · rename_i hrs
      cases runs with
      | nil => exact List.isChain_singleton _
      | cons u runs =>
        obtain ⟨hsu, h⟩ := List.isChain_cons_cons.mp h
        exact List.isChain_cons_cons.mpr ⟨fun hru => hsu (BEq.trans (BEq.symm hrs) hru), h⟩
    · rename_i hrs
      exact List.isChain_cons_cons.mpr ⟨hrs, h⟩

theorem apart_append {runs : List (Run α)} (h : Apart runs) :
    ∀ front : List (Run α), Apart (append front runs)
  | [] => h
  | _ :: front => apart_join (apart_append h front)

/-! ## One list for each map -/

/-- Of two lists that say the same of every byte value, the first does not leave
its first run before the second does. -/
theorem ceiling_le_of_beq {floor : Nat} {r s : Run α} {rs ss : List (Run α)}
    (hr : Covers floor (r :: rs)) (hs : Covers floor (s :: ss)) (har : Apart (r :: rs))
    (h : ∀ n, floor ≤ n → n < byteCount → target? (r :: rs) n == target? (s :: ss) n) :
    s.ceiling ≤ r.ceiling := by
  by_contra hlt
  have hlt : r.ceiling < s.ceiling := Nat.lt_of_not_le hlt
  have hs' : s.ceiling ≤ byteCount := hs.2.le
  have hrs : r.target == s.target := by
    have := h floor (Nat.le_refl _) (by have := hr.1; omega)
    rwa [target?_cons_of_lt hr.1, target?_cons_of_lt hs.1] at this
  cases rs with
  | nil => exact absurd (show r.ceiling = byteCount from hr.2) (by omega)
  | cons r' rs =>
    have hr's : r'.target == s.target := by
      have := h r.ceiling (Nat.le_of_lt hr.1) (by omega)
      rwa [target?_cons_of_le (Nat.le_refl _), target?_cons_of_lt hr.2.1, target?_cons_of_lt hlt] at this
    exact (List.isChain_cons_cons.mp har).1 (BEq.trans hrs (BEq.symm hr's))

/-- Lists in which neighbours differ, and which say the same of every byte value,
are the same run for run. -/
theorem unique {floor : Nat} :
    ∀ {rs ss : List (Run α)}, Covers floor rs → Covers floor ss → Apart rs → Apart ss →
      (∀ n, floor ≤ n → n < byteCount → target? rs n == target? ss n) →
      List.Forall₂ (fun r s => r.ceiling = s.ceiling ∧ r.target == s.target) rs ss
  | [], [], _, _, _, _, _ => .nil
  | [], s :: ss, hr, hs, _, _, _ => by
    have := hs.2.le
    exact absurd (show floor = byteCount from hr) (by have := hs.1; omega)
  | r :: rs, [], hr, hs, _, _, _ => by
    have := hr.2.le
    exact absurd (show floor = byteCount from hs) (by have := hr.1; omega)
  | r :: rs, s :: ss, hr, hs, har, has, h => by
    have hc : r.ceiling = s.ceiling :=
      Nat.le_antisymm (ceiling_le_of_beq hs hr has fun n h₁ h₂ => BEq.symm (h n h₁ h₂))
        (ceiling_le_of_beq hr hs har h)
    have hfloor : floor < byteCount := Nat.lt_of_lt_of_le hr.1 hr.2.le
    have htarget : r.target == s.target := by
      have := h floor (Nat.le_refl _) hfloor
      rwa [target?_cons_of_lt hr.1, target?_cons_of_lt hs.1] at this
    refine .cons ⟨hc, htarget⟩ (unique hr.2 (hc ▸ hs.2) har.tail has.tail fun n h₁ h₂ => ?_)
    have := h n (Nat.le_trans (Nat.le_of_lt hr.1) h₁) h₂
    rwa [target?_cons_of_le h₁, target?_cons_of_le (hc ▸ h₁)] at this

end Apart

end Run

namespace RangeTable

open Run

/-- The runs divide all byte values, and no two neighbours have the same target. -/
structure NormalForm [BEq α] (t : RangeTable α) : Prop where
  covers : Covers 0 t.runs
  apart : Apart t.runs

theorem NormalForm.wellFormed [BEq α] {t : RangeTable α} (h : t.NormalForm) :
    t.WellFormed fun _ => True := ⟨h.covers, allTargets_true _⟩

/-- Every byte is in a run, whose target is the byte's. -/
theorem exists_find?_eq_some {b : UInt8} {t : RangeTable α} (h : Covers 0 t.runs) :
    ∃ r ∈ t.runs, t.runs.find? (fun r => b.toNat < r.ceiling) = some r ∧ t.step b = r.target := by
  obtain ⟨r, hr⟩ : ∃ r, t.runs.find? (fun r => b.toNat < r.ceiling) = some r := by
    have hb : b.toNat < byteCount := UInt8.toNat_lt b
    obtain ⟨r, hr, hceiling⟩ := List.mem_map.mp (List.mem_of_getLast? (h.getLast?_ceilings (by decide)))
    exact Option.isSome_iff_exists.mp (List.find?_isSome.mpr ⟨r, hr, by simpa [hceiling] using hb⟩)
  exact ⟨r, List.mem_of_find?_eq_some hr, hr, by rw [step, hr]; rfl⟩

/-! ## Unpacked tables -/

theorem singles_append (xs ys : List (Option α)) :
    ∀ floor, singles floor (xs ++ ys) = singles floor xs ++ singles (floor + xs.length) ys := by
  induction xs with
  | nil => exact fun _ => rfl
  | cons x xs ih =>
    intro floor
    rw [List.cons_append, singles, singles, ih, List.cons_append, List.length_cons, Nat.add_right_comm floor,
      Nat.add_assoc floor]

theorem covers_singles : ∀ {floor : Nat} {targets : List (Option α)},
    floor + targets.length = byteCount → Covers floor (singles floor targets)
  | _, [], h => h
  | floor, x :: targets, h => by
    have h : floor + 1 + targets.length = byteCount := by
      rw [List.length_cons] at h
      omega
    exact ⟨Nat.lt_succ_self floor, covers_singles h⟩

theorem covers_singles_append_nil {targets : List (Option α)} (h : targets.length = byteCount) :
    Covers 0 (singles 0 targets ++ []) := by
  rw [List.append_nil]
  exact covers_singles ((Nat.zero_add _).trans h)

theorem target?_singles {x : Option α} : ∀ {floor : Nat} {targets : List (Option α)} {k : Nat},
    targets[k]? = some x → target? (singles floor targets) (floor + k) = x
  | floor, y :: targets, 0, h => (target?_cons_of_lt (Nat.lt_succ_self floor)).trans (Option.some.inj h)
  | floor, y :: targets, k + 1, h => by
    rw [singles, target?_cons_of_le (show floor + 1 ≤ floor + (k + 1) by omega),
      show floor + (k + 1) = floor + 1 + k by omega]
    exact target?_singles h

theorem targetsFrom_eq {floor : Nat} : ∀ {runs : List (Run α)}, Covers floor runs →
    targetsFrom floor runs = (List.range' floor (byteCount - floor)).map (target? runs)
  | [], h => by
    rw [show floor = byteCount from h, Nat.sub_self]
    rfl
  | r :: runs, h => by
    have hlt : floor < r.ceiling := h.1
    have hle := h.2.le
    have hsplit : List.range' floor (byteCount - floor) =
        List.range' floor (r.ceiling - floor) ++ List.range' r.ceiling (byteCount - r.ceiling) := by
      have hadd : byteCount - floor = r.ceiling - floor + (byteCount - r.ceiling) := by omega
      rw [hadd, ← List.range'_append_1, Nat.add_sub_of_le (Nat.le_of_lt hlt)]
    have hrun : (List.range' floor (r.ceiling - floor)).map (target? (r :: runs)) =
        List.replicate (r.ceiling - floor) r.target := by
      refine List.eq_replicate_iff.mpr ⟨by rw [List.length_map, List.length_range'], fun x hx => ?_⟩
      obtain ⟨n, hn, rfl⟩ := List.mem_map.mp hx
      exact target?_cons_of_lt (by have := List.mem_range'_1.mp hn; omega)
    rw [targetsFrom, targetsFrom_eq h.2, hsplit, List.map_append, hrun]
    exact congrArg _ (List.map_congr_left fun n hn => (target?_cons_of_le (List.mem_range'_1.mp hn).1).symm)

/-- A table unpacks to its steps. -/
theorem unpack_eq {t : RangeTable α} (h : Covers 0 t.runs) :
    t.unpack = (List.range byteCount).map fun n => t.step (UInt8.ofNat n) := by
  rw [unpack, targetsFrom_eq h, Nat.sub_zero, ← List.range_eq_range']
  refine List.map_congr_left fun n hn => ?_
  rw [step_eq_target?, UInt8.toNat_ofNat_of_lt' (List.mem_range.mp hn)]

section

variable [BEq α] [EquivBEq α]

theorem normalForm_pack {targets : List (Option α)} (h : targets.length = byteCount) :
    (pack targets).NormalForm where
  covers := covers_append (covers_singles_append_nil h)
  apart := apart_append List.isChain_nil _

/-- A packed table steps to the targets that it was made of. -/
theorem step_pack {targets : List (Option α)} (h : targets.length = byteCount) {b : UInt8} {x : Option α}
    (hx : targets[b.toNat]? = some x) : (pack targets).step b == x := by
  have hpack :=
    related_target?_append identifies_beq (covers_singles_append_nil h) (allTargets_true _) b.toNat
  have hslot : target? (singles 0 targets) (0 + b.toNat) = x := target?_singles hx
  rwa [List.append_nil, ← Nat.zero_add b.toNat, hslot, Nat.zero_add] at hpack

/-- Runs of one byte each, with one target, are joined to one run. -/
theorem append_singles_replicate {x : Option α} {runs : List (Run α)} :
    ∀ {floor width : Nat}, Apart (⟨floor + (width + 1), x⟩ :: runs) →
      append (singles floor (List.replicate (width + 1) x)) runs = ⟨floor + (width + 1), x⟩ :: runs
  | floor, 0, h => by
    cases runs with
    | nil => rfl
    | cons s runs => exact if_neg (List.isChain_cons_cons.mp h).1
  | floor, width + 1, h => by
    have e : floor + (width + 1 + 1) = floor + 1 + (width + 1) := by omega
    rw [e] at h ⊢
    show cons ⟨floor + 1, x⟩ (append (singles (floor + 1) (List.replicate (width + 1) x)) runs) = _
    rw [append_singles_replicate h]
    exact if_pos BEq.rfl

/-- The single bytes of runs join to the runs that they come from. -/
theorem append_singles_targetsFrom : ∀ {floor : Nat} {runs : List (Run α)}, Covers floor runs → Apart runs →
    append (singles floor (targetsFrom floor runs)) [] = runs
  | _, [], _, _ => rfl
  | floor, ⟨ceiling, x⟩ :: runs, hc, ha => by
    have hlt : floor < ceiling := hc.1
    obtain ⟨width, rfl⟩ : ∃ width, ceiling = floor + (width + 1) := ⟨ceiling - floor - 1, by omega⟩
    rw [targetsFrom, singles_append, append, List.foldr_append, List.length_replicate, Nat.add_sub_cancel_left]
    show append _ (append (singles _ (targetsFrom _ runs)) []) = _
    rw [append_singles_targetsFrom hc.2 ha.tail, append_singles_replicate ha]

namespace NormalForm

variable {t u : RangeTable α}

theorem setRange (h : t.NormalForm) {lo hi : Nat} (hlt : lo < hi) (a : α) :
    (t.setRange lo hi a).NormalForm where
  covers := (wellFormed_setRange h.wellFormed trivial hlt).covers
  apart := by
    show Apart (setRuns lo hi a 0 t.runs)
    generalize 0 = floor
    induction t.runs generalizing floor with
    | nil => exact List.isChain_nil
    | cons r runs ih => exact apart_append (ih _) _

theorem unique (ht : t.NormalForm) (hu : u.NormalForm) (h : ∀ b, t.step b == u.step b) :
    List.Forall₂ (fun r s => r.ceiling = s.ceiling ∧ r.target == s.target) t.runs u.runs := by
  refine Run.unique ht.covers hu.covers ht.apart hu.apart fun n _ hn => ?_
  have := h (UInt8.ofNat n)
  rwa [step_eq_target?, step_eq_target?, UInt8.toNat_ofNat_of_lt' hn] at this

theorem pack_unpack (h : t.NormalForm) : pack t.unpack = t :=
  congrArg RangeTable.mk (append_singles_targetsFrom h.covers h.apart)

end NormalForm

end

/-! ## Writes -/

/-- A target for one byte, or for the byte values from `lo` up to `hi`. -/
inductive Write (α : Type)
  | byte (b : UInt8) (target : α)
  | range (lo hi : Nat) (target : α)

namespace Write

/-- A range holds a byte value and none that is not one. -/
def IsProper : Write α → Prop
  | byte _ _ => True
  | range lo hi _ => lo < hi ∧ hi ≤ byteCount

/-- The target that is written. -/
def target : Write α → α
  | byte _ a => a
  | range _ _ a => a

/-- Whether a byte gets the target. -/
def covers : Write α → UInt8 → Bool
  | byte b _, c => c = b
  | range lo hi _, c => lo ≤ c.toNat ∧ c.toNat < hi

/-- The table after the write. -/
def apply [BEq α] (t : RangeTable α) : Write α → RangeTable α
  | byte b a => t.setByte b a
  | range lo hi a => t.setRange lo hi a

end Write

section

variable [BEq α] [EquivBEq α] {t : RangeTable α}

theorem NormalForm.apply (h : t.NormalForm) : ∀ {w : Write α}, w.IsProper → (w.apply t).NormalForm
  | .byte _ a, _ => h.setRange (Nat.lt_succ_self _) a
  | .range _ _ a, hw => h.setRange hw.1 a

theorem step_apply (h : t.NormalForm) {w : Write α} (hw : w.IsProper) (c : UInt8) :
    (w.apply t).step c == if w.covers c then some w.target else t.step c := by
  cases w with
  | byte b a =>
    have hset := related_step_setRange identifies_beq h.wellFormed (a := a) trivial (Nat.lt_add_one b.toNat) c
    have hb : (b.toNat ≤ c.toNat ∧ c.toNat < b.toNat + 1) = (c = b) := by
      rw [← UInt8.toNat_inj, Nat.lt_add_one_iff]
      exact propext ⟨fun h => Nat.le_antisymm h.2 h.1, fun h => ⟨Nat.le_of_eq h.symm, Nat.le_of_eq h⟩⟩
    simpa only [Write.apply, setByte, Write.covers, Write.target, decide_eq_true_eq, hb] using hset
  | range lo hi a =>
    have hset := related_step_setRange identifies_beq h.wellFormed (a := a) trivial hw.1 c
    simpa only [Write.apply, Write.covers, Write.target, decide_eq_true_eq] using hset

/-- After some writes a byte has the target of the last that covers it, and the
target from before if none does. -/
theorem step_foldl_apply (h : t.NormalForm) (c : UInt8) : ∀ {ws : List (Write α)}, (∀ w ∈ ws, w.IsProper) →
    (ws.foldl Write.apply t).NormalForm ∧
      (ws.foldl Write.apply t).step c == (((ws.filter (·.covers c)).getLast?.map Write.target).or (t.step c)) := by
  intro ws
  induction ws using List.reverseRecOn with
  | nil => exact fun _ => ⟨h, BEq.rfl⟩
  | append_singleton ws w ih =>
    intro hws
    obtain ⟨hn, hstep⟩ := ih fun v hv => hws v (List.mem_append_left _ hv)
    have hw : w.IsProper := hws w (List.mem_append_right _ (List.mem_singleton_self w))
    rw [List.foldl_append, List.foldl_cons, List.foldl_nil, List.filter_append, List.filter_singleton]
    refine ⟨hn.apply hw, BEq.trans (step_apply hn hw c) ?_⟩
    cases hc : w.covers c with
    | true => simp
    | false => simpa using hstep

end

end RangeTable

end EventMatch
