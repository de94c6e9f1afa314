import EventMatch.Automaton.State
import Std.Data.HashMap.Basic

/-!
# Merging automata

The merge of two automata is the product of both: it steps where either does,
and where both do, to the merge of the two states. Where only one of them steps,
its state is shared and not copied. The exits of merged states are those of the
first, then those of the second that the first does not have.

A memo remembers the merge of each ordered pair of different states, so each
pair is merged once, and a memo can be carried from one merge to the next.
-/

namespace EventMatch

/-- The merged states of pairs of states, by the labels of the pairs. -/
abbrev MergeMemo (β : Type) := Std.HashMap (Nat × Nat) (State β)

/-- What a merge goes on from: the next unused label and the pairs merged so far. -/
structure MergePass (β : Type) where
  next : Nat
  memo : MergeMemo β

/-- The elements of the first list, then those of the second that are not the
same as one before them. -/
def union {α : Type} [BEq α] (as bs : List α) : List α :=
  bs.foldl (fun acc b => if acc.any (· == b) then acc else acc ++ [b]) as

variable {β : Type} [BEq β]

mutual

/-- The merge of two states. A state merged with itself stays what it is. -/
def mergeStates : State β → State β → MergePass β → State β × MergePass β
  | .mk l₁ ⟨runs₁⟩ exits₁, .mk l₂ ⟨runs₂⟩ exits₂, p =>
    if l₁ = l₂ then (.mk l₁ ⟨runs₁⟩ exits₁, p)
    else
      match p.memo[(l₁, l₂)]? with
      | some m => (m, p)
      | none =>
        let r := mergeRuns runs₁ runs₂ p
        let merged := State.mk r.2.next ⟨r.1⟩ (union exits₁ exits₂)
        (merged, ⟨r.2.next + 1, r.2.memo.insert (l₁, l₂) merged⟩)
termination_by s t => sizeOf s + sizeOf t

/-- The merge of two targets, of which one or both may be missing. -/
def mergeTargets : Option (State β) → Option (State β) → MergePass β →
    Option (State β) × MergePass β
  | some s, some t, p =>
    let r := mergeStates s t p
    (some r.1, r.2)
  | some s, none, p => (some s, p)
  | none, t, p => (t, p)
termination_by a b => sizeOf a + sizeOf b

/-- The merge of two lists of runs. Both are walked together, and each ceiling of
either ends a run, which is then joined to its neighbour if it can be. -/
def mergeRuns : List (Run (State β)) → List (Run (State β)) → MergePass β →
    List (Run (State β)) × MergePass β
  | [], _, p => ([], p)
  | _ :: _, [], p => ([], p)
  | ⟨c₁, a₁⟩ :: runs₁, ⟨c₂, a₂⟩ :: runs₂, p =>
    let first := mergeTargets a₁ a₂ p
    if c₁ < c₂ then
      let rest := mergeRuns runs₁ (⟨c₂, a₂⟩ :: runs₂) first.2
      (Run.cons ⟨c₁, first.1⟩ rest.1, rest.2)
    else if c₂ < c₁ then
      let rest := mergeRuns (⟨c₁, a₁⟩ :: runs₁) runs₂ first.2
      (Run.cons ⟨c₂, first.1⟩ rest.1, rest.2)
    else
      let rest := mergeRuns runs₁ runs₂ first.2
      (Run.cons ⟨c₁, first.1⟩ rest.1, rest.2)
termination_by runs₁ runs₂ => sizeOf runs₁ + sizeOf runs₂

end

namespace Automaton

/-- The merge of two automata, which goes on from the pairs merged before. -/
def mergeWith (t u : Automaton β) : StateM (MergePass β) (Automaton β) := fun p =>
  let r := mergeRuns t.runs u.runs p
  (⟨r.1⟩, r.2)

/-- Runs merges that begin with no pair merged. -/
def withFreshMemo {α : Type} (x : StateM (MergePass β) α) : StateM Nat α := fun next =>
  let r := x.run ⟨next, ∅⟩
  (r.1, r.2.next)

/-- The union of the automata built for some items, one after the other. They
share one memo. -/
def unionOf {γ : Type} (build : γ → Fresh (Automaton β)) (items : List γ) : Fresh (Automaton β) :=
  withFreshMemo do
    items.foldlM (fun acc i => do
      let p ← get
      let (one, next) := (build i).run p.next
      set { p with next }
      mergeWith acc one) .empty

end Automaton

end EventMatch
