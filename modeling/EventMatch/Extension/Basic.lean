import EventMatch.Json.Parser
import EventMatch.Numeral.Reading
import EventMatch.Numeric.Clause

/-!
# Predicates and the parsers of their specs

An extension clause is a spec that the library does not read itself: a spec
parser turns its bytes into a predicate on a field's value.
-/

namespace EventMatch

/-- A test of a field's value as it is written, strings with their quotes. -/
abbrev Predicate := Bytes → Bool

/-- Turns the specs of extension clauses into predicates. A parser may answer
differently after it has been asked before: `asked` is how many specs it was
given earlier. -/
structure SpecParser where
  parse : (asked : Nat) → (spec : Bytes) → Except MatchError Predicate

namespace SpecParser

/-- A parser that answers by the spec alone. -/
def ofFunction (f : Bytes → Except MatchError Predicate) : SpecParser := ⟨fun _ spec => f spec⟩

/-- The parser that, after a number of specs, answers every further one with an error. -/
def limited (p : SpecParser) (budget : Nat) (refusal : MatchError) : SpecParser :=
  ⟨fun asked spec => if asked < budget then p.parse asked spec else .error refusal⟩

end SpecParser

/-- The predicate of a numeric clause: the value is written as a JSON number, and
what is read from it is finite and satisfies the clause. -/
def NumericClause.predicate (c : NumericClause) : Predicate := fun v =>
  match Json.asWrittenBytes? v with
  | some (.num n) => n.reading.isFinite && c.holds n.reading
  | _ => false

/-- The predicate that holds for JSON strings of which `p` holds. -/
def Predicate.ofString (p : String → Bool) : Predicate := fun v =>
  match Json.asWrittenBytes? v with
  | some (.str s) => p s
  | _ => false

end EventMatch
