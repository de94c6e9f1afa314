import EventMatch.Automaton.Literal
import EventMatch.Proofs.Automaton.Merge
import Mathlib.Data.List.TakeWhile

/-!
# Automata of sets of words

Everything that one field's values are compiled to leads to one exit. Such an
automaton `Recognizes` a set of words: the exit is reached on the words of the set,
once on each, and no way leads on that is not the beginning of one of them. What
is recognized by tables, chains and merges is put together from the parts
(`State.recognizes_of_table`, `makes_literal`, `Recognizes.merge`).

A value is looked up with the terminator behind it. In automata whose words end
in their first terminator, what it reaches are the exits on its bytes before the
first terminator, followed by one (`run_eq`).
-/

namespace EventMatch

variable {β : Type}

/-- What is reached on each word is the one exit, on the words of `L` only, and
every way that does not end before is the beginning of a word of `L`. -/
structure Recognizes (f : Bytes → Option (List β)) (L : Bytes → Prop) (exit : β) : Prop where
  accept : ∀ {w}, L w → f w = some [exit]
  reject : ∀ {w e}, f w = some e → ¬ L w → e = []
  alive : ∀ {w e}, f w = some e → ∃ u, L (w ++ u)

namespace Recognizes

variable {f g h : Bytes → Option (List β)} {L M : Bytes → Prop} {exit : β}

theorem congr (hf : Recognizes f L exit) (hL : ∀ w, M w ↔ L w) : Recognizes f M exit where
  accept := fun hw => hf.accept ((hL _).mp hw)
  reject := fun e hw => hf.reject e fun h => hw ((hL _).mpr h)
  alive := fun e => (hf.alive e).imp fun _ => (hL _).mpr

theorem eq_none_or (hf : Recognizes f L exit) {w : Bytes} (hw : ¬ L w) :
    f w = none ∨ f w = some [] := by
  cases e : f w with
  | none => exact .inl rfl
  | some l => exact .inr (congrArg some (hf.reject e hw))

/-- A merge recognizes the words of both. -/
theorem merge [BEq β] [ReflBEq β] (hf : Recognizes f L exit) (hg : Recognizes g M exit)
    (hh : ∀ w, h w = Option.merge union (f w) (g w)) :
    Recognizes h (fun w => L w ∨ M w) exit where
  accept := by
    intro w hw
    rw [hh]
    by_cases hL : L w <;> by_cases hM : M w
    · rw [hf.accept hL, hg.accept hM]
      exact congrArg some (union_self [exit])
    · rcases hg.eq_none_or hM with e | e <;> rw [hf.accept hL, e] <;> rfl
    · rcases hf.eq_none_or hL with e | e <;> rw [hg.accept hM, e] <;> rfl
    · exact (hw.elim hL hM).elim
  reject := by
    intro w l e hw
    rw [hh] at e
    rcases hf.eq_none_or fun h => hw (.inl h) with e₁ | e₁ <;>
      rcases hg.eq_none_or fun h => hw (.inr h) with e₂ | e₂ <;>
      rw [e₁, e₂] at e <;> cases e <;> rfl
  alive := by
    intro w l e
    rw [hh] at e
    cases e₁ : f w with
    | some a => exact (hf.alive e₁).imp fun _ => .inl
    | none => cases e₂ : g w with
      | some b => exact (hg.alive e₂).imp fun _ => .inr
      | none =>
        rw [e₁, e₂] at e
        cases e

end Recognizes

/-- The words that lead from a state to the exit. -/
def State.Recognizes (s : State β) (L : Bytes → Prop) (exit : β) : Prop :=
  EventMatch.Recognizes s.exitsOn? L exit

/-- The words that lead from the start to the exit. -/
def Automaton.Recognizes (t : Automaton β) (L : Bytes → Prop) (exit : β) : Prop :=
  EventMatch.Recognizes t.exitsAt? L exit

theorem State.Recognizes.congr {s : State β} {L M : Bytes → Prop} {exit : β}
    (h : s.Recognizes L exit) (hL : ∀ w, M w ↔ L w) : s.Recognizes M exit :=
  EventMatch.Recognizes.congr h hL

theorem Automaton.Recognizes.congr {t : Automaton β} {L M : Bytes → Prop} {exit : β}
    (h : t.Recognizes L exit) (hL : ∀ w, M w ↔ L w) : t.Recognizes M exit :=
  EventMatch.Recognizes.congr h hL

section

variable {L : Bytes → Prop} {exit : β}

/-- A table recognizes what its targets do, each behind the byte that leads to it. -/
theorem Automaton.recognizes_of_step {t : Automaton β} (hnil : ¬ L [])
    (hstep : ∀ b s, t.step b = some s → s.Recognizes (fun w => L (b :: w)) exit)
    (hnone : ∀ b, t.step b = none → ∀ w, ¬ L (b :: w)) : t.Recognizes L exit where
  accept := by
    rintro (_ | ⟨b, w⟩) hw
    · exact (hnil hw).elim
    · cases e : t.step b with
      | none => exact (hnone b e w hw).elim
      | some s =>
        rw [Automaton.exitsAt?_cons, e]
        exact (hstep b s e).accept hw
  reject := by
    rintro (_ | ⟨b, w⟩) l h hw
    · cases h
    · rw [Automaton.exitsAt?_cons] at h
      obtain ⟨s, e, h⟩ := Option.bind_eq_some_iff.mp h
      exact (hstep b s e).reject h hw
  alive := by
    rintro (_ | ⟨b, w⟩) l h
    · cases h
    · rw [Automaton.exitsAt?_cons] at h
      obtain ⟨s, e, h⟩ := Option.bind_eq_some_iff.mp h
      exact (hstep b s e).alive h

theorem Automaton.recognizes_empty (exit : β) :
    Automaton.Recognizes (RangeTable.empty : Automaton β) (fun _ => False) exit :=
  Automaton.recognizes_of_step id (fun b s h => by rw [RangeTable.step_empty] at h; cases h)
    fun _ _ _ => id

/-- A state without exits recognizes what its table does. -/
theorem State.recognizes_of_table {s : State β} (he : s.exits = [])
    (h : Automaton.Recognizes s.table L exit) (hL : ∃ w, L w) : s.Recognizes L exit := by
  have hnil : ¬ L [] := fun hw => by
    have := h.accept hw
    cases this
  refine ⟨?_, ?_, ?_⟩
  · rintro (_ | ⟨b, w⟩) hw
    · exact (hnil hw).elim
    · exact (Automaton.exitsAt?_table s b w).symm.trans (h.accept hw)
  · rintro (_ | ⟨b, w⟩) l e hw
    · exact (Option.some.inj e).symm.trans he
    · exact h.reject ((Automaton.exitsAt?_table s b w).trans e) hw
  · rintro (_ | ⟨b, w⟩) l e
    · exact hL
    · exact h.alive ((Automaton.exitsAt?_table s b w).trans e)

/-- A state with one exit that goes nowhere recognizes the empty word. -/
theorem State.recognizes_final {s : State β} (ht : s.table = .empty) (he : s.exits = [exit]) :
    s.Recognizes (fun w => w = []) exit := by
  have hnone : ∀ b w, s.exitsOn? (b :: w) = none := fun b w => by
    rw [State.exitsOn?_cons, ht, RangeTable.step_empty]
    rfl
  refine ⟨?_, ?_, ?_⟩
  · rintro w rfl
    exact congrArg some he
  · rintro (_ | ⟨b, w⟩) l e hw
    · exact (hw rfl).elim
    · rw [hnone] at e
      cases e
  · rintro (_ | ⟨b, w⟩) l e
    · exact ⟨[], rfl⟩
    · rw [hnone] at e
      cases e

variable {S : Set (State β)} {n : Nat}

/-- One byte before what a state recognizes. -/
theorem Automaton.recognizes_setByte (hS : Pool S n) {s : State β} (hs : s ∈ S)
    (h : s.Recognizes L exit) (b : UInt8) :
    Automaton.Recognizes (RangeTable.empty.setByte b s) (fun w => ∃ u, w = b :: u ∧ L u) exit := by
  have hstep : ∀ c, (RangeTable.empty.setByte b s).step c = if c = b then some s else none := fun c => by
    rw [RangeTable.step_setByte hS.separated (RangeTable.wellFormed_empty _) hs, RangeTable.step_empty]
    simp only [UInt8.toNat_inj]
  refine Automaton.recognizes_of_step (fun ⟨u, e, _⟩ => nomatch e) (fun c t ht => ?_) fun c hc w => ?_
  · rw [hstep] at ht
    split at ht
    · rename_i hcb
      obtain rfl := Option.some.inj ht
      refine h.congr fun w => ⟨fun ⟨u, e, hu⟩ => ?_, fun hw => ⟨w, by rw [hcb], hw⟩⟩
      obtain ⟨-, rfl⟩ := List.cons.inj e
      exact hu
    · cases ht
  · rintro ⟨u, e, -⟩
    obtain ⟨rfl, -⟩ := List.cons.inj e
    rw [hstep, if_pos rfl] at hc
    cases hc

theorem RangeTable.wellFormed_byte {s : State β} (hs : s ∈ S) (b : UInt8) :
    (RangeTable.empty.setByte b s).WellFormed (· ∈ S) :=
  RangeTable.wellFormed_setByte (RangeTable.wellFormed_empty _) hs b

end

/-! ## Literals -/

section

variable {S : Set (State β)} {n : Nat}

/-- A new state for the words of a table, put behind one byte. -/
theorem makes_byte (hS : Pool S n) {t : Automaton β} (ht : t.WellFormed (· ∈ S))
    {L : Bytes → Prop} {exit : β} (h : t.Recognizes L exit) (hL : ∃ w, L w) (b : UInt8) :
    Makes S n (do return RangeTable.empty.setByte b (← State.ofTable t)) fun S' u =>
      u.WellFormed (· ∈ S') ∧ Automaton.Recognizes u (fun w => ∃ v, w = b :: v ∧ L v) exit :=
  (makes_ofTable hS ht).bind fun _ _ hp ⟨hs, hst, hse⟩ =>
    .pure hp ⟨RangeTable.wellFormed_byte hs b, Automaton.recognizes_setByte hp hs
      (State.recognizes_of_table hse (hst ▸ h) hL) b⟩

theorem makes_literal (hS : Pool S n) (v : Bytes) (exit : β) :
    Makes S n (Automaton.literal v exit) fun S' t =>
      t.WellFormed (· ∈ S') ∧ t.Recognizes (fun w => w = v ++ [terminator]) exit := by
  refine (makes_final hS exit).bind fun _ _ hp ⟨hs, hst, hse⟩ => ?_
  induction v with
  | nil =>
    refine .pure hp ⟨RangeTable.wellFormed_byte hs _, ?_⟩
    refine (Automaton.recognizes_setByte hp hs (State.recognizes_final hst hse) _).congr fun w => ?_
    exact ⟨fun e => ⟨[], e, rfl⟩, fun ⟨u, e, hu⟩ => e.trans (congrArg _ hu)⟩
  | cons b v ih =>
    rw [List.foldrM_cons]
    refine ih.bind fun _ _ hp ⟨ht, hr⟩ => ?_
    refine (makes_byte hp ht hr ⟨_, rfl⟩ b).weaken fun _ u _ ⟨hw, hr⟩ => ⟨hw, hr.congr fun w => ?_⟩
    exact ⟨fun e => ⟨_, e, rfl⟩, fun ⟨u, e, hu⟩ => e.trans (congrArg _ hu)⟩

end

/-! ## Merged lists -/

/-- Automata that are built and merged into one, one after the other and with one
memo for all, recognize together what each of them recognizes. -/
theorem merge_list_ok [BEq β] [ReflBEq β] {γ : Type} {build : γ → Fresh (Automaton β)}
    {L : γ → Bytes → Prop} {exit : β} {S₀ : Set (State β)} (items : List γ)
    (hbuild : ∀ i ∈ items, ∀ S n, S₀ ⊆ S → Pool S n → Makes S n (build i) fun S' t =>
      t.WellFormed (· ∈ S') ∧ t.Recognizes (L i) exit)
    {S : Set (State β)} (hS : S₀ ⊆ S) {p : MergePass β} (hp : SoundPass S p) {acc : Automaton β}
    (hw : acc.WellFormed (· ∈ S)) {M : Bytes → Prop} (hr : acc.Recognizes M exit) :
    let r := (items.foldlM (fun acc i => do
      let p ← get
      let (one, next) := (build i).run p.next
      set { p with next }
      Automaton.mergeWith acc one) acc : StateM (MergePass β) (Automaton β)).run p
    ∃ S', S ⊆ S' ∧ p.next ≤ r.2.next ∧ SoundPass S' r.2 ∧ r.1.WellFormed (· ∈ S') ∧
      r.1.Recognizes (fun w => M w ∨ ∃ i ∈ items, L i w) exit := by
  induction items generalizing S p acc M with
  | nil => exact ⟨S, subset_rfl, Nat.le_refl _, hp, hw, hr.congr fun w => by simp⟩
  | cons i items ih =>
    obtain ⟨S₁, hS₁, hn₁, hp₁, hw₁, hr₁⟩ := hbuild i List.mem_cons_self S p.next hS hp.pool
    obtain ⟨S₂, hg, hw₂, he⟩ := mergeWith_ok (hp.grow hS₁ hp₁) (hw.mono fun _ h => hS₁ h) hw₁
    obtain ⟨S₃, hS₃, hn₃, hp₃, hw₃, hr₃⟩ := ih (fun j hj => hbuild j (List.mem_cons_of_mem _ hj))
      (hS.trans (hS₁.trans hg.pool)) hg.sound hw₂ (hr.merge hr₁ he)
    refine ⟨S₃, (hS₁.trans hg.pool).trans hS₃, (hn₁.trans hg.next).trans hn₃, hp₃, hw₃,
      hr₃.congr fun w => ?_⟩
    simp only [List.mem_cons, exists_eq_or_imp, or_assoc]

/-- Merging under one memo the automata built for the items of a list gives one
that recognizes what some item's does. -/
theorem makes_union [BEq β] [ReflBEq β] {γ : Type} {build : γ → Fresh (Automaton β)}
    {L : γ → Bytes → Prop} {exit : β} {S : Set (State β)} {n : Nat} (hS : Pool S n) (items : List γ)
    (hbuild : ∀ i ∈ items, ∀ S' n, S ⊆ S' → Pool S' n → Makes S' n (build i) fun S' t =>
      t.WellFormed (· ∈ S') ∧ t.Recognizes (L i) exit) :
    Makes S n (Automaton.unionOf build items) fun S' t =>
      t.WellFormed (· ∈ S') ∧ t.Recognizes (fun w => ∃ i ∈ items, L i w) exit := by
  obtain ⟨S', hS', hn, hp, hw, hr⟩ := merge_list_ok items hbuild subset_rfl (.start hS)
    (RangeTable.wellFormed_empty _) (Automaton.recognizes_empty exit)
  exact ⟨S', hS', hn, hp.pool, hw, hr.congr fun w => by rw [false_or]⟩

/-! ## Looking values up -/

/-- The words of `L` end in their first terminator. -/
def EndTerminated (L : Bytes → Prop) : Prop := ∀ w, L w → ∃ u, w = u ++ [terminator] ∧ terminator ∉ u

/-- They still do with one more byte in front, if that is no terminator. -/
theorem EndTerminated.cons {L : Bytes → Prop} {b : UInt8} (hb : b ≠ terminator) (hL : EndTerminated L) :
    EndTerminated fun w => ∃ u, w = b :: u ∧ L u := by
  rintro _ ⟨u, rfl, hu⟩
  obtain ⟨v, rfl, hv⟩ := hL u hu
  exact ⟨b :: v, rfl, fun hm => (List.mem_cons.mp hm).elim (fun e => hb e.symm) hv⟩

/-- The value's bytes before its first terminator. -/
def Bytes.upToTerminator (v : Bytes) : Bytes := v.takeWhile (· != terminator)

theorem Bytes.not_mem_upToTerminator (v : Bytes) : terminator ∉ v.upToTerminator := fun h => by
  have := List.mem_takeWhile_imp h
  simp at this

theorem Bytes.upToTerminator_of_not_mem {v : Bytes} (h : terminator ∉ v) : v.upToTerminator = v :=
  List.takeWhile_eq_self_iff.mpr fun _ hb => bne_iff_ne.mpr fun e => h (e ▸ hb)

theorem Bytes.upToTerminator_append (v : Bytes) :
    ∃ r, v ++ [terminator] = v.upToTerminator ++ terminator :: r := by
  induction v with
  | nil => exact ⟨[], rfl⟩
  | cons b v ih =>
    obtain ⟨r, hr⟩ := ih
    by_cases h : b = terminator
    · exact ⟨v ++ [terminator], by simp [Bytes.upToTerminator, h]⟩
    · refine ⟨r, ?_⟩
      rw [List.cons_append, hr]
      simp [Bytes.upToTerminator, h]

/-- Exits are reached with a word's first terminator only, and nothing is
reached after it. -/
def Automaton.EndsAtTerminator (t : Automaton β) : Prop :=
  ∀ u b e, t.exitsAt? (u ++ [b]) = some e → terminator ∉ u ∧ (e = [] ∨ b = terminator)

theorem Automaton.endsAtTerminator_empty :
    Automaton.EndsAtTerminator (RangeTable.empty : Automaton β) := by
  rintro (_ | ⟨c, u⟩) b e h
  all_goals
    simp only [List.nil_append, List.cons_append, Automaton.exitsAt?_cons, RangeTable.step_empty] at h
    cases h

theorem Automaton.Recognizes.endsAtTerminator {t : Automaton β} {L : Bytes → Prop} {exit : β}
    (h : t.Recognizes L exit) (hL : EndTerminated L) : t.EndsAtTerminator := by
  intro u b e he
  obtain ⟨r, hr⟩ := h.alive he
  obtain ⟨v, hv, hnot⟩ := hL _ hr
  refine ⟨fun hu => ?_, ?_⟩
  · rw [List.append_assoc] at hv
    rcases List.append_eq_append_iff.mp hv with ⟨x, rfl, -⟩ | ⟨x, rfl, hx⟩
    · exact hnot (List.mem_append_left _ hu)
    · cases x with
      | nil => exact hnot (by simpa using hu)
      | cons c x => cases x <;> simp at hx
  · by_cases hw : L (u ++ [b])
    · obtain ⟨v, hv, -⟩ := hL _ hw
      exact .inr (List.append_inj_right' hv rfl |> List.singleton_inj.mp)
    · exact .inl (h.reject he hw)

/-- A merge of automata in which exits are reached with the first terminator is one. -/
theorem Automaton.EndsAtTerminator.merge [BEq β] {t u m : Automaton β} (ht : t.EndsAtTerminator)
    (hu : u.EndsAtTerminator)
    (hm : ∀ w, m.exitsAt? w = Option.merge union (t.exitsAt? w) (u.exitsAt? w)) :
    m.EndsAtTerminator := by
  intro w b e he
  rw [hm] at he
  cases e₁ : t.exitsAt? (w ++ [b]) with
  | none =>
    rw [e₁, Option.merge_none_left] at he
    exact hu w b e he
  | some a =>
    refine ⟨(ht w b a e₁).1, ?_⟩
    cases e₂ : u.exitsAt? (w ++ [b]) with
    | none =>
      rw [e₁, e₂] at he
      exact Option.some.inj he ▸ (ht w b a e₁).2
    | some c =>
      rw [e₁, e₂] at he
      rcases (ht w b a e₁).2 with rfl | h
      · rcases (hu w b c e₂).2 with rfl | h
        · exact .inl (Option.some.inj he).symm
        · exact .inr h
      · exact .inr h

theorem Automaton.exitsAlong_eq {t : Automaton β} (ht : t.EndsAtTerminator) (r : Bytes) :
    ∀ {u : Bytes}, terminator ∉ u →
      t.exitsAlong (u ++ terminator :: r) = t.exitsAt (u ++ [terminator])
  | [], _ => by
    rw [List.nil_append, exitsAlong, exitsAt, List.nil_append, exitsAt?_cons]
    cases e : t.step terminator with
    | none => rfl
    | some s =>
      -- Nothing can follow the terminator.
      have hdead : exitsAlong s.table r = [] := by
        cases r with
        | nil => rfl
        | cons b r =>
          rw [exitsAlong]
          cases e' : s.table.step b with
          | none => rfl
          | some s' =>
            have := ht [terminator] b s'.exits (by
              rw [List.singleton_append, exitsAt?_cons, e]
              simp [State.exitsOn?_cons, e'])
            exact (this.1 (List.mem_singleton_self _)).elim
      show s.exits ++ exitsAlong s.table r = s.exits
      rw [hdead, List.append_nil]
  | b :: u, hu => by
    have hb : b ≠ terminator := fun e => hu (e ▸ List.mem_cons_self)
    rw [List.cons_append, exitsAlong, exitsAt, List.cons_append, exitsAt?_cons]
    cases e : t.step b with
    | none => rfl
    | some s =>
      have hstep : ∀ (w : Bytes) c,
          t.exitsAt? (b :: (w ++ [c])) = Automaton.exitsAt? s.table (w ++ [c]) := fun w c => by
        rw [exitsAt?_cons, e]
        cases w <;> exact (exitsAt?_table s _ _).symm
      have hs : Automaton.EndsAtTerminator s.table := fun w c l h => by
        have := ht (b :: w) c l ((hstep w c).trans h)
        exact ⟨fun h => this.1 (List.mem_cons_of_mem _ h), this.2⟩
      have hexits : s.exits = [] := by
        rcases (ht [] b s.exits (by rw [List.nil_append, exitsAt?_cons, e]; rfl)).2 with h | h
        · exact h
        · exact (hb h).elim
      show s.exits ++ exitsAlong s.table (u ++ terminator :: r) = _
      rw [hexits, List.nil_append,
        Automaton.exitsAlong_eq hs r fun h => hu (List.mem_cons_of_mem _ h), exitsAt, ← hstep,
        exitsAt?_cons, e]

/-- What a value reaches are the exits on its bytes before the first terminator. -/
theorem Automaton.run_eq {t : Automaton β} (ht : t.EndsAtTerminator) (v : Bytes) :
    t.run v = t.exitsAt (v.upToTerminator ++ [terminator]) := by
  obtain ⟨r, hr⟩ := v.upToTerminator_append
  rw [run, hr, Automaton.exitsAlong_eq ht r v.not_mem_upToTerminator]

end EventMatch
