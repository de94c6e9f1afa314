import EventMatch.Proofs.Automaton.History
import EventMatch.Proofs.Automaton.KeyRuns

/-!
# Automata of texts and keys

The words that gates are made of are texts and the marked digits of keys, each with a
terminator at its end (`IsWord`). An automaton is `Disciplined` if all its ways are beginnings of
such words and its exits are where a way ends in its first terminator. What recognizes some of
the words is (`Automaton.Recognizes.disciplined`), and so is a merge of two that are
(`Automaton.Disciplined.merge`). In such an automaton nothing is behind an exit
(`Automaton.Disciplined.isEmpty`), and a value reaches the exits of one state at most
(`Automaton.Disciplined.run_eq`).
-/

namespace EventMatch

open Numeral

/-- The bytes end in their first terminator. -/
def EndsInTerminator (u : Bytes) : Prop := ∃ v, u = v ++ [terminator] ∧ terminator ∉ v

/-- The bytes of a text or, if there are `numbers`, the marked digits of a key, with a terminator at the end. -/
def IsWord (numbers : Bool) (w : Bytes) : Prop :=
  (∃ text, w = text ++ [terminator] ∧ terminator ∉ text ∧ numberMark ∉ text) ∨
    numbers = true ∧ ∃ ds, w = numberMark :: (ds ++ [terminator]) ∧ ds.length = keyWidth ∧ IsDigits ds

section

variable {numbers : Bool} {u r : Bytes}

theorem IsWord.endsInTerminator (h : IsWord numbers u) : EndsInTerminator u := by
  rcases h with ⟨text, rfl, ht, -⟩ | ⟨-, ds, rfl, -, hds⟩
  · exact ⟨text, rfl, ht⟩
  · exact ⟨numberMark :: ds, rfl, List.not_mem_cons_of_ne_of_not_mem (by decide) hds.terminator_not_mem⟩

/-- Before its end a word has no terminator. -/
theorem IsWord.terminator_not_mem (h : IsWord numbers (u ++ r)) (hr : r ≠ []) : terminator ∉ u := by
  obtain ⟨v, hv, hnot⟩ := h.endsInTerminator
  obtain ⟨r, b, rfl⟩ := List.eq_nil_or_concat r |>.resolve_left hr
  rw [List.concat_eq_append, ← List.append_assoc] at hv
  obtain ⟨rfl, -⟩ := List.append_inj' hv rfl
  exact fun hu => hnot (List.mem_append_left r hu)

/-- What ends in a terminator is no proper beginning of a word. -/
theorem IsWord.eq_nil_of_endsInTerminator (h : IsWord numbers (u ++ r)) (hu : EndsInTerminator u) : r = [] := by
  obtain ⟨v, rfl, -⟩ := hu
  by_contra hr
  exact h.terminator_not_mem hr (List.mem_append_right v (List.mem_singleton_self _))

/-- The mark stands at the beginning only. -/
theorem IsWord.numberMark_not_mem_tail (h : IsWord numbers (u ++ r)) : numberMark ∉ u.tail := by
  have hmark : numberMark ∉ [terminator] := by decide
  have hword : numberMark ∉ (u ++ r).tail := by
    rcases h with ⟨text, hw, -, ht⟩ | ⟨-, ds, hw, -, hds⟩
    · rw [hw]
      exact fun hm => (List.mem_append.mp (List.mem_of_mem_tail hm)).elim ht hmark
    · rw [hw, List.tail_cons]
      exact fun hm => (List.mem_append.mp hm).elim hds.numberMark_not_mem hmark
  cases u with
  | nil => exact List.not_mem_nil
  | cons b u => exact fun hm => hword (List.mem_append_left r hm)

/-- Words that begin with the mark are those of keys. -/
theorem IsWord.of_numberMark (h : IsWord numbers (u ++ r)) (hu : u.head? = some numberMark) : numbers = true ∧
    ∃ ds, u ++ r = numberMark :: (ds ++ [terminator]) ∧ ds.length = keyWidth ∧ IsDigits ds := by
  refine h.resolve_left fun ⟨text, hw, _, hmark⟩ => ?_
  obtain ⟨v, rfl⟩ : ∃ v, u = numberMark :: v := List.head?_eq_some_iff.mp hu
  cases text with
  | nil => exact absurd (List.cons.inj hw).1 (by decide)
  | cons b text => exact hmark ((List.cons.inj hw).1 ▸ List.mem_cons_self)

theorem IsWord.or_left (h : IsWord numbers u) (numbers' : Bool) : IsWord (numbers || numbers') u :=
  h.imp_right fun ⟨hn, hds⟩ => ⟨hn ▸ Bool.true_or _, hds⟩

theorem IsWord.or_right (h : IsWord numbers u) (numbers' : Bool) : IsWord (numbers' || numbers) u :=
  Bool.or_comm numbers numbers' ▸ h.or_left numbers'

end

namespace Automaton

variable {β : Type} {t u m : Automaton β} {numbers numbers' : Bool}

/-- Every way is the beginning of a word, and there are exits just where one ends in its first terminator. -/
def Disciplined (numbers : Bool) (t : Automaton β) : Prop :=
  ∀ w e, t.exitsAt? w = some e → (∃ r, IsWord numbers (w ++ r)) ∧ (e ≠ [] ↔ EndsInTerminator w)

theorem Recognizes.disciplined {L : Bytes → Prop} {exit : β} (h : t.Recognizes L exit)
    (hL : ∀ w, L w → IsWord numbers w) : t.Disciplined numbers := by
  intro w e he
  obtain ⟨r, hr⟩ := h.alive he
  refine ⟨⟨r, hL _ hr⟩, fun hne => ?_, fun hw => ?_⟩
  · have hw : L w := not_not.mp fun hw => hne (h.reject he hw)
    exact (hL w hw).endsInTerminator
  · obtain rfl := (hL _ hr).eq_nil_of_endsInTerminator hw
    rw [List.append_nil] at hr
    rw [Option.some.inj (he.symm.trans (h.accept hr))]
    exact List.cons_ne_nil _ _

theorem union_ne_nil_iff [BEq β] {as bs : List β} : union as bs ≠ [] ↔ as ≠ [] ∨ bs ≠ [] := by
  have hcons : ∀ (a : β) (as bs : List β), union (a :: as) bs ≠ [] := fun a as bs => by
    obtain ⟨rest, he, -⟩ := exists_union_eq_append (a :: as) bs
    exact he ▸ List.cons_ne_nil a _
  cases as with
  | cons a as => exact iff_of_true (hcons a as bs) (.inl (List.cons_ne_nil a as))
  | nil =>
    cases bs with
    | nil => exact iff_of_false (not_not_intro rfl) (not_or.mpr ⟨not_not_intro rfl, not_not_intro rfl⟩)
    | cons b bs => exact iff_of_true (hcons b [] bs) (.inr (List.cons_ne_nil b bs))

/-- A merge has the ways of both, and its exits are where the exits of either are. -/
theorem Disciplined.merge [BEq β] (ht : t.Disciplined numbers) (hu : u.Disciplined numbers')
    (hm : ∀ w, m.exitsAt? w = Option.merge union (t.exitsAt? w) (u.exitsAt? w)) :
    m.Disciplined (numbers || numbers') := by
  intro w e he
  rw [hm] at he
  cases e₁ : t.exitsAt? w with
  | none =>
    rw [e₁, Option.merge_none_left] at he
    obtain ⟨⟨r, hr⟩, hiff⟩ := hu w e he
    exact ⟨⟨r, hr.or_right numbers⟩, hiff⟩
  | some as =>
    obtain ⟨⟨r, hr⟩, has⟩ := ht w as e₁
    refine ⟨⟨r, hr.or_left numbers'⟩, ?_⟩
    cases e₂ : u.exitsAt? w with
    | none =>
      rw [e₁, e₂] at he
      exact Option.some.inj he ▸ has
    | some bs =>
      rw [e₁, e₂] at he
      rw [← Option.some.inj he, union_ne_nil_iff, has, (hu w bs e₂).2, or_self]

theorem Disciplined.endsAtTerminator (ht : t.Disciplined numbers) : t.EndsAtTerminator := by
  intro w b e he
  obtain ⟨⟨r, hr⟩, hiff⟩ := ht (w ++ [b]) e he
  rw [List.append_assoc] at hr
  refine ⟨hr.terminator_not_mem (List.cons_ne_nil b r), or_iff_not_imp_left.mpr fun hne => ?_⟩
  obtain ⟨v, hv, -⟩ := hiff.mp hne
  exact List.singleton_inj.mp (List.append_inj' hv rfl).2

/-- Nothing is behind a way that ends in a terminator. -/
theorem Disciplined.isEmpty (ht : t.Disciplined numbers) {w : Bytes} (hw : EndsInTerminator w) {s : State β}
    (hs : t.stateAt? w = some s) {P : State β → Prop} (hwell : s.table.WellFormed P) : s.table.isEmpty = true := by
  by_contra hne
  obtain ⟨b, s', hstep⟩ := hwell.exists_step hne
  have he : t.exitsAt? (w ++ [b]) = some s'.exits := by
    rw [exitsAt?, stateAt?_concat hs, hstep, Option.map_some]
  obtain ⟨⟨r, hr⟩, -⟩ := ht (w ++ [b]) s'.exits he
  rw [List.append_assoc] at hr
  exact List.cons_ne_nil _ _ (hr.eq_nil_of_endsInTerminator hw)

/-- A value reaches the exits of the state at its bytes before the first terminator and that terminator. -/
theorem Disciplined.run_eq (ht : t.Disciplined numbers) (v : Bytes) :
    t.run v = (t.stateAt? (v.upToTerminator ++ [terminator])).elim [] State.exits := by
  rw [Automaton.run_eq ht.endsAtTerminator, exitsAt, exitsAt?]
  cases t.stateAt? (v.upToTerminator ++ [terminator]) <;> rfl

end Automaton

end EventMatch
