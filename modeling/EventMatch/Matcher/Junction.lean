import EventMatch.Automaton.Literal
import EventMatch.Automaton.Ranges
import EventMatch.Extension.Basic
import EventMatch.Event.Field

/-!
# Junctions

Patterns are compiled into chains. A junction stands between two fields of a
chain: it knows which patterns are complete on arrival, and by path which gate
the next field has to pass. A gate tries a value on an automaton and on
predicates, and each success leads to a further junction.

Junctions and predicate tests bear labels, by which they are told apart.
-/

namespace EventMatch

mutual

/-- A point in the chains of patterns with identifiers of type `ι`. -/
inductive Junction (ι : Type) where
  | mk (label : Nat) (branches : List (String × Gate ι)) (complete : List ι)

/-- What a field's value has to pass. `hasNumbers` tells whether the automaton
holds keys of numbers. -/
inductive Gate (ι : Type) where
  | mk (automaton : RangeTable (State (Junction ι))) (tests : List (PredicateTest ι))
    (hasNumbers : Bool)

/-- A predicate and the junction it leads to. -/
inductive PredicateTest (ι : Type) where
  | mk (label : Nat) (accepts : Predicate) (next : Junction ι)

end

variable {ι : Type}

namespace PredicateTest

/-- The label that tells the test from others. -/
def label : PredicateTest ι → Nat
  | mk label _ _ => label

/-- Whether the test accepts a value. -/
def accepts : PredicateTest ι → Predicate
  | mk _ accepts _ => accepts

/-- Where accepted values lead. -/
def next : PredicateTest ι → Junction ι
  | mk _ _ next => next

/-- Tests are the same if their labels are. -/
instance : BEq (PredicateTest ι) := ⟨fun s t => s.label == t.label⟩

/-- A new test. -/
def ofPredicate (accepts : Predicate) (next : Junction ι) : Fresh (PredicateTest ι) :=
  return mk (← newLabel) accepts next

end PredicateTest

namespace Junction

/-- The label that tells the junction from others. -/
def label : Junction ι → Nat
  | mk label _ _ => label

/-- The gates by path, each path once. -/
def branches : Junction ι → List (String × Gate ι)
  | mk _ branches _ => branches

/-- The identifiers of the patterns that are complete here. -/
def complete : Junction ι → List ι
  | mk _ _ complete => complete

/-- Junctions are the same if their labels are. -/
instance : BEq (Junction ι) := ⟨fun s t => s.label == t.label⟩

end Junction

namespace Gate

/-- The automaton that values are tried on. -/
def automaton : Gate ι → Automaton (Junction ι)
  | mk automaton _ _ => automaton

/-- The predicates that values are tried on, in order. -/
def tests : Gate ι → List (PredicateTest ι)
  | mk _ tests _ => tests

/-- Whether the automaton holds keys of numbers. -/
def hasNumbers : Gate ι → Bool
  | mk _ _ hasNumbers => hasNumbers

/-- The gate that nothing passes. -/
def empty : Gate ι := mk .empty [] false

/-- A gate with an automaton and no predicates. -/
def ofAutomaton (automaton : Automaton (Junction ι)) (hasNumbers : Bool) : Gate ι :=
  mk automaton [] hasNumbers

/-- A gate with a single test. -/
def ofTest (test : PredicateTest ι) : Gate ι := mk .empty [test] false

/-- The bytes by which a value is looked up: a number by its key if the automaton
has keys and the number has one, else by its plain text; anything else as it is. -/
def lookup (hasNumbers : Bool) (v : Bytes) : Bytes :=
  if Numeral.isNumeral v then
    if hasNumbers then
      match Numeral.canonical v with
      | .ok digits => numberMark :: digits
      | .error _ => Numeral.plainText v
    else Numeral.plainText v
  else v

/-- The junctions that a value leads to: those of the automaton, then those of
the tests that accept it. -/
def pass (g : Gate ι) (v : Bytes) : List (Junction ι) :=
  g.automaton.run (lookup g.hasNumbers v) ++ (g.tests.filter fun t => t.accepts v).map (·.next)

end Gate

namespace Junction

/-- A new junction without branches and without complete patterns. -/
def blank : Fresh (Junction ι) := return mk (← newLabel) [] []

/-- A new junction at which one pattern is complete. -/
def completing (id : ι) : Fresh (Junction ι) := return mk (← newLabel) [] [id]

/-- A new junction with one branch. -/
def branching (path : String) (gate : Gate ι) : Fresh (Junction ι) :=
  return mk (← newLabel) [(path, gate)] []

/-- The gate for a path. -/
def gate? (j : Junction ι) (path : String) : Option (Gate ι) := j.branches.lookup path

/-- The junctions that a field leads to. -/
def pass (j : Junction ι) (path : String) (v : Bytes) : List (Junction ι) :=
  match j.gate? path with
  | some g => g.pass v
  | none => []

/-- The paths of the branches in order. -/
def paths (j : Junction ι) : List String := (j.branches.map Prod.fst).mergeSort Bytes.leString

/-- The junction's paths and complete patterns in one line. -/
def describe (j : Junction String) : String :=
  "FieldMatcher \x7b paths: " ++ Text.quotedList j.paths ++ ", matches: " ++
    Text.quotedList j.complete ++ " \x7d"

end Junction

end EventMatch
