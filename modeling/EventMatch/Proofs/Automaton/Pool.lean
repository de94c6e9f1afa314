import EventMatch.Automaton.State
import EventMatch.Proofs.Automaton.Table
import Mathlib.Data.Set.Insert

/-!
# Pools of states

Labels stand for identity only as long as no label is used twice. A `Pool` is a
set of states in which it is not: it is closed under steps, its labels are below
the next unused one, and of two states with one label it has only one.

`Makes` says of a computation that uses up labels that it goes from a pool to a
larger one in which its result has some property; `Makes.bind` composes this, and
`makes_ofTable` and `makes_final` hold of the two ways to make a state.
-/

namespace EventMatch

variable {α β γ : Type}

namespace State

/-- The state that some bytes lead to, if the way does not end before. -/
def follow? : State β → Bytes → Option (State β)
  | s, [] => some s
  | s, b :: w => (s.table.step b).bind fun t => t.follow? w

@[simp]
theorem follow?_nil (s : State β) : s.follow? [] = some s := rfl

theorem follow?_cons (s : State β) (b : UInt8) (w : Bytes) :
    s.follow? (b :: w) = (s.table.step b).bind fun t => t.follow? w := rfl

theorem follow?_append (s : State β) :
    ∀ u w : Bytes, s.follow? (u ++ w) = (s.follow? u).bind fun t => t.follow? w
  | [], _ => rfl
  | b :: u, w => by
    rw [List.cons_append, follow?_cons, follow?_cons, Option.bind_assoc]
    exact congrArg _ (funext fun t => follow?_append t u w)

/-- The exits of the state that some bytes lead to, if there is one. -/
def exitsOn? (s : State β) (w : Bytes) : Option (List β) := (s.follow? w).map exits

@[simp]
theorem exitsOn?_nil (s : State β) : s.exitsOn? [] = some s.exits := rfl

theorem exitsOn?_cons (s : State β) (b : UInt8) (w : Bytes) :
    s.exitsOn? (b :: w) = (s.table.step b).bind fun t => t.exitsOn? w := by
  rw [exitsOn?, follow?_cons, Option.map_bind]
  rfl

end State

namespace Automaton

theorem stateAt?_cons (t : Automaton β) (b : UInt8) :
    ∀ w : Bytes, t.stateAt? (b :: w) = (t.step b).bind fun s => s.follow? w
  | [] => by cases h : t.step b <;> simp [stateAt?, h]
  | c :: w => by
    simp only [stateAt?]
    exact congrArg _ (funext fun s => stateAt?_cons s.table c w)

/-- One byte more is one step more. -/
theorem stateAt?_concat {t : Automaton β} {w : Bytes} {s : State β} (hs : t.stateAt? w = some s) (b : UInt8) :
    t.stateAt? (w ++ [b]) = s.table.step b := by
  cases w with
  | nil => cases hs
  | cons c w =>
    rw [stateAt?_cons] at hs
    obtain ⟨s₀, hstep, hfollow⟩ := Option.bind_eq_some_iff.mp hs
    rw [List.cons_append, stateAt?_cons, hstep, Option.bind_some, State.follow?_append, hfollow, Option.bind_some,
      State.follow?_cons]
    exact Option.bind_fun_some _

/-- The exits of the state that some bytes lead to, if there is one. -/
def exitsAt? (t : Automaton β) (w : Bytes) : Option (List β) := (t.stateAt? w).map State.exits

@[simp]
theorem exitsAt?_nil (t : Automaton β) : t.exitsAt? [] = none := rfl

theorem exitsAt?_cons (t : Automaton β) (b : UInt8) (w : Bytes) :
    t.exitsAt? (b :: w) = (t.step b).bind fun s => s.exitsOn? w := by
  rw [exitsAt?, stateAt?_cons, Option.map_bind]
  rfl

theorem exitsAt?_empty : ∀ w : Bytes, exitsAt? (RangeTable.empty : Automaton β) w = none
  | [] => rfl
  | b :: w => by rw [exitsAt?_cons, RangeTable.step_empty, Option.bind_none]

theorem exitsAt?_table (s : State β) (b : UInt8) (w : Bytes) :
    exitsAt? s.table (b :: w) = s.exitsOn? (b :: w) := by
  rw [exitsAt?_cons, State.exitsOn?_cons]

/-- The exits that some bytes lead to; none if they lead nowhere. -/
def exitsAt (t : Automaton β) (w : Bytes) : List β := (t.exitsAt? w).getD []

end Automaton

/-- A set of states in which labels, which are all below `next`, tell states apart. -/
structure Pool (S : Set (State β)) (next : Nat) : Prop where
  unique : ∀ s ∈ S, ∀ t ∈ S, s.label = t.label → s = t
  closed : ∀ s ∈ S, s.table.WellFormed (· ∈ S)
  bounded : ∀ s ∈ S, s.label < next

namespace Pool

variable {S : Set (State β)} {next : Nat}

theorem empty (next : Nat) : Pool (∅ : Set (State β)) next :=
  ⟨fun _ h => h.elim, fun _ h => h.elim, fun _ h => h.elim⟩

theorem mono (h : Pool S next) {later : Nat} (hle : next ≤ later) : Pool S later :=
  ⟨h.unique, h.closed, fun s hs => Nat.lt_of_lt_of_le (h.bounded s hs) hle⟩

theorem separated (h : Pool S next) : Separated (· ∈ S) := fun s t hs ht e =>
  h.unique s hs t ht (beq_iff_eq.mp e)

/-- A state whose label is the next one can join the pool. -/
theorem insert (h : Pool S next) {s : State β} (hl : s.label = next)
    (ht : s.table.WellFormed (· ∈ S)) : Pool (insert s S) (next + 1) where
  unique := by
    rintro a (rfl | ha) b (rfl | hb) e
    · rfl
    · exact absurd (h.bounded b hb) (by omega)
    · exact absurd (h.bounded a ha) (by omega)
    · exact h.unique a ha b hb e
  closed := by
    rintro a (rfl | ha)
    · exact ht.mono fun _ => Set.mem_insert_of_mem _
    · exact (h.closed a ha).mono fun _ => Set.mem_insert_of_mem _
  bounded := by
    rintro a (rfl | ha)
    · omega
    · exact Nat.lt_succ_of_lt (h.bounded a ha)

theorem step (h : Pool S next) {s t : State β} (hs : s ∈ S) {b : UInt8}
    (ht : s.table.step b = some t) : t ∈ S := (h.closed s hs).step ht

theorem follow? (h : Pool S next) {s t : State β} (hs : s ∈ S) :
    ∀ {w : Bytes}, s.follow? w = some t → t ∈ S
  | [], e => Option.some.inj e ▸ hs
  | b :: w, e => by
    obtain ⟨u, hu, ht⟩ := Option.bind_eq_some_iff.mp e
    exact h.follow? (h.step hs hu) ht

theorem stateAt? (h : Pool S next) {t : Automaton β} (ht : t.WellFormed (· ∈ S)) {s : State β} :
    ∀ {w : Bytes}, t.stateAt? w = some s → s ∈ S
  | [], e => nomatch e
  | b :: w, e => by
    rw [Automaton.stateAt?_cons] at e
    obtain ⟨u, hu, hs⟩ := Option.bind_eq_some_iff.mp e
    exact h.follow? (ht.step hu) hs

end Pool

/-! ## Computations that make states -/

/-- From the pool `S` with the next label `n`, `x` reaches a larger pool in which
its result has the property `Q`. -/
def Makes (S : Set (State β)) (n : Nat) (x : Fresh α) (Q : Set (State β) → α → Prop) : Prop :=
  ∃ S', S ⊆ S' ∧ n ≤ (x.run n).2 ∧ Pool S' (x.run n).2 ∧ Q S' (x.run n).1

namespace Makes

variable {S : Set (State β)} {n : Nat} {x : Fresh α} {f : α → Fresh γ}
  {Q : Set (State β) → α → Prop} {R : Set (State β) → γ → Prop}

theorem pure {a : α} (hS : Pool S n) (ha : Q S a) : Makes S n (Pure.pure a : Fresh α) Q :=
  ⟨S, subset_rfl, Nat.le_refl n, hS, ha⟩

theorem bind (hx : Makes S n x Q)
    (hf : ∀ {S' : Set (State β)} {n' : Nat} {a : α},
      S ⊆ S' → n ≤ n' → Pool S' n' → Q S' a → Makes S' n' (f a) R) :
    Makes S n (x >>= f) R := by
  obtain ⟨S₁, h₁, hn₁, hp₁, hq⟩ := hx
  obtain ⟨S₂, h₂, hn₂, hp₂, hr⟩ := hf h₁ hn₁ hp₁ hq
  exact ⟨S₂, h₁.trans h₂, hn₁.trans hn₂, hp₂, hr⟩

theorem weaken (hx : Makes S n x Q) {Q' : Set (State β) → α → Prop}
    (h : ∀ S' a, S ⊆ S' → Q S' a → Q' S' a) : Makes S n x Q' := by
  obtain ⟨S₁, h₁, hn₁, hp₁, hq⟩ := hx
  exact ⟨S₁, h₁, hn₁, hp₁, h S₁ _ h₁ hq⟩

end Makes

variable {S : Set (State β)} {n : Nat}

theorem makes_ofTable (hS : Pool S n) {t : RangeTable (State β)} (ht : t.WellFormed (· ∈ S)) :
    Makes S n (State.ofTable t) fun S' s => s ∈ S' ∧ s.table = t ∧ s.exits = [] :=
  ⟨_, Set.subset_insert _ _, Nat.le_succ n, hS.insert (s := .mk n t []) rfl ht,
    Set.mem_insert _ _, rfl, rfl⟩

theorem makes_final (hS : Pool S n) (exit : β) :
    Makes S n (State.final exit) fun S' s => s ∈ S' ∧ s.table = .empty ∧ s.exits = [exit] :=
  ⟨_, Set.subset_insert _ _, Nat.le_succ n, hS.insert (s := .mk n .empty [exit]) rfl
    (RangeTable.wellFormed_empty _), Set.mem_insert _ _, rfl, rfl⟩

end EventMatch
