import EventMatch.Numeric.Clause

/-!
# Patterns

A pattern is a list of fields that an event must have, each with the values it
may have.
-/

namespace EventMatch

/-- One way in which a field's value may be right. -/
inductive ValueSpec where
  /-- The exact value as events write it: a string with its quotes, `true`,
  `false`, `null`, or the plain text of a number without a key. -/
  | literal (text : Bytes)
  /-- A number, by the digits of its key. -/
  | number (digits : Bytes)
  /-- A number that satisfies a clause. -/
  | numeric (clause : NumericClause)
  /-- A value accepted by the predicate of a spec. -/
  | extension (spec : String)
deriving DecidableEq, Repr

/-- A field that an event must have, with the values it may have. -/
structure PatternField where
  path : String
  values : List ValueSpec
deriving DecidableEq, Repr

end EventMatch
