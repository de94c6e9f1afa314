import EventMatch.Matcher.Merge
import EventMatch.Pattern.Basic

/-!
# Compiling patterns

A pattern becomes a chain of junctions that is built from its last field to its
first. A field's values share a gate: literals, numbers and exact clauses go
into its automaton, approximate clauses and extensions become tests.
-/

namespace EventMatch

/-- What compiling uses up: labels, and the answers of the spec parser. -/
structure Supply where
  /-- The next unused label. -/
  label : Nat := 0
  /-- How many specs the parser has been given. -/
  asked : Nat := 0
deriving DecidableEq, Repr

/-- Compilation steps. What was used up stays used up if a step fails. -/
abbrev Compile := ExceptT MatchError (StateM Supply)

namespace Compile

variable {α : Type}

/-- A step that only uses labels. -/
def fresh (x : Fresh α) : Compile α := do
  let s ← get
  let (a, label) := x.run s.label
  set { s with label }
  return a

/-- A step that may fail and uses nothing. -/
def ofExcept (x : Except MatchError α) : Compile α := ExceptT.mk (pure x)

end Compile

namespace SpecParser

/-- The predicate of a spec. An error of the parser that is not about specs is
reported as one. -/
def predicate (parser : Option SpecParser) (spec : String) : Compile Predicate := do
  match parser with
  | none => throw (.spec .noParser)
  | some p =>
    let s ← get
    set { s with asked := s.asked + 1 }
    match p.parse s.asked (Bytes.ofString spec) with
    | .ok accepts => return accepts
    | .error e => throw (if e.kind = .extension then e else .parsingSpec spec e)

end SpecParser

variable {ι : Type}

/-- A gate under construction and the states merged for it so far. -/
structure GateDraft (ι : Type) where
  gate : Gate ι
  memo : MergeMemo (Junction ι)

namespace GateDraft

/-- Adds an automaton. -/
def addAutomaton (d : GateDraft ι) (automaton : Automaton (Junction ι)) (hasNumbers : Bool) :
    Fresh (GateDraft ι) := fun next =>
  let (merged, p) := (Automaton.mergeWith d.gate.automaton automaton).run ⟨next, d.memo⟩
  (⟨.mk merged d.gate.tests (d.gate.hasNumbers || hasNumbers), p.memo⟩, p.next)

/-- Adds a test. -/
def addTest (d : GateDraft ι) (accepts : Predicate) (next : Junction ι) :
    Fresh (GateDraft ι) :=
  return ⟨.mk d.gate.automaton (d.gate.tests ++ [← PredicateTest.ofPredicate accepts next])
    d.gate.hasNumbers, d.memo⟩

/-- Adds one of a field's values. -/
def addValue (parser : Option SpecParser) (next : Junction ι) (d : GateDraft ι) :
    ValueSpec → Compile (GateDraft ι)
  | .literal text => .fresh do d.addAutomaton (← Automaton.literal text next) false
  | .number digits => .fresh do d.addAutomaton (← Automaton.number digits next) true
  | .numeric clause =>
    if clause.isApproximate then .fresh (d.addTest clause.predicate next)
    else do
      let intervals ← Compile.ofExcept clause.intervals
      .fresh do d.addAutomaton (← Automaton.ranges intervals next) true
  | .extension spec => do
    let accepts ← SpecParser.predicate parser spec
    .fresh (d.addTest accepts next)

end GateDraft

/-- The gate of a field's values, which all lead to one junction. -/
def Gate.ofValues (parser : Option SpecParser) (values : List ValueSpec) (next : Junction ι) :
    Compile (Gate ι) := do
  let draft ← values.foldlM (GateDraft.addValue parser next) ⟨.empty, ∅⟩
  return draft.gate

/-- The chain of a pattern. The last field is compiled first. -/
def Junction.ofPattern (parser : Option SpecParser) (id : ι) (fields : List PatternField) :
    Compile (Junction ι) := do
  fields.foldrM (fun f next => do
    let gate ← Gate.ofValues parser f.values next
    .fresh (branching f.path gate)) (← .fresh (completing id))

end EventMatch
