import EventMatch.Event.Flatten
import EventMatch.Matcher.Compile
import EventMatch.Matcher.Search
import EventMatch.Pattern.Parser

/-!
# Matchers

A matcher holds any number of patterns, compiled into one graph of junctions,
and answers which of them match an event. Patterns are only ever added. An
identifier may have several patterns and matches if one of them does.
-/

namespace EventMatch

/-- A set of compiled patterns with identifiers of type `ι`. -/
structure Matcher (ι : Type) where
  root : Junction ι
  /-- Turns events into fields. -/
  flattener : Flattener
  /-- Reads the specs of extension clauses, if they are allowed. -/
  parser : Option SpecParser
  /-- The number of patterns added. -/
  size : Nat
  supply : Supply

namespace Matcher

variable {ι : Type}

/-- The matcher without patterns. -/
def empty (flattener : Flattener := Json.flatten) (parser : Option SpecParser := none)
    (asked : Nat := 0) : Matcher ι :=
  let (root, label) := Junction.blank.run 0
  { root, flattener, parser, size := 0, supply := { label, asked } }

/-- The matcher without patterns that has another one's flattener and spec
parser. The parser has been asked as often. -/
def emptyLike (m : Matcher ι) : Matcher ι := empty m.flattener m.parser m.supply.asked

/-- Whether there are no patterns. -/
def isEmpty (m : Matcher ι) : Bool := m.size == 0

/-- Compiles a pattern and merges its chain into the graph. -/
def extend [BEq ι] (m : Matcher ι) (id : ι) (text : String) : Compile (Junction ι) := do
  let fields ← Compile.ofExcept (Pattern.parse text)
  let chain ← Junction.ofPattern m.parser id fields
  .fresh (Automaton.withFreshMemo (m.root.mergeWith chain))

/-- Adds a pattern. If that fails the matcher keeps its patterns, and only its
spec parser may have been asked. -/
def add [BEq ι] (m : Matcher ι) (id : ι) (text : String) : Except MatchError Unit × Matcher ι :=
  match (m.extend id text).run.run m.supply with
  | (.ok root, supply) => (.ok (), { m with root, size := m.size + 1, supply })
  | (.error e, supply) =>
    (.error e, { m with supply := { m.supply with asked := supply.asked } })

/-- Adds a pattern or fails. -/
def add? [BEq ι] (m : Matcher ι) (id : ι) (text : String) : Except MatchError (Matcher ι) :=
  match m.add id text with
  | (.ok (), m) => .ok m
  | (.error e, _) => .error e

/-- Adds patterns in order up to the first that cannot be added. -/
def addAll [BEq ι] (m : Matcher ι) : List (ι × String) → Except MatchError Unit × Matcher ι
  | [] => (.ok (), m)
  | (id, text) :: rest =>
    match m.add id text with
    | (.ok (), m) => m.addAll rest
    | (.error e, m) => (.error e, m)

/-- The identifiers that match a list of fields, each once, in the order in which
the search meets them. The fields may come in any order. -/
def matchFields [BEq ι] (m : Matcher ι) (fields : List Field) : List ι :=
  firstSeen (m.root.search none (Field.sortByPath fields))

/-- The identifiers that match an event. -/
def matchEvent [BEq ι] (m : Matcher ι) (event : Bytes) : Except MatchError (List ι) :=
  (m.flattener event).map m.matchFields

/-- The matcher in one line. -/
def describe (m : Matcher ι) : String :=
  "Quamina \x7b pattern_count: " ++ toString m.size ++ ", has_predicate_parser: " ++
    toString m.parser.isSome ++ " \x7d"

end Matcher

end EventMatch
