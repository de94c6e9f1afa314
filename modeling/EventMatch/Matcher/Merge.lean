import EventMatch.Matcher.Junction

/-!
# Merging junctions

The merge of two junctions has the branches and the complete patterns of both.
Where both have a branch for a path, the gates are merged: their automata are,
and the tests of the second come after those of the first. What only one side
has is shared.
-/

namespace EventMatch

variable {ι : Type}

/-- The merge of two gates. -/
def Gate.mergeWith (g h : Gate ι) : StateM (MergePass (Junction ι)) (Gate ι) := do
  let automaton ← Automaton.mergeWith g.automaton h.automaton
  return .mk automaton (union g.tests h.tests) (g.hasNumbers || h.hasNumbers)

namespace Junction

/-- Adds a branch to others: the gate is merged with that of its path, if there is one. -/
def addBranch (path : String) (gate : Gate ι) :
    List (String × Gate ι) → StateM (MergePass (Junction ι)) (List (String × Gate ι))
  | [] => return [(path, gate)]
  | (p, g) :: rest =>
    if p = path then return (p, ← g.mergeWith gate) :: rest
    else return (p, g) :: (← addBranch path gate rest)

/-- The merge of two junctions. A junction merged with itself stays what it is. -/
def mergeWith [BEq ι] (a b : Junction ι) : StateM (MergePass (Junction ι)) (Junction ι) := do
  if a == b then return a
  else
    let branches ← b.branches.foldlM (fun acc (path, gate) => addBranch path gate acc) a.branches
    let label ← modifyGet fun p => (p.next, { p with next := p.next + 1 })
    return .mk label branches (union a.complete b.complete)

end Junction

end EventMatch
