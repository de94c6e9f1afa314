import EventMatch.Numeric.Interval
import EventMatch.Relation

/-!
# Numeric clauses

A numeric clause such as `["<", 10, ">=", 2]` is a conjunction of relations to
numbers. It can be evaluated on a binary64 value (`NumericClause.holds`), and if
no relation in it is approximate, it is also a set of keys
(`NumericClause.intervals`).
-/

namespace EventMatch

/-- A relation to a number, which is kept both as it is written and as the
nearest binary64 value. -/
structure NumericConstraint where
  relation : Relation
  argument : Binary64
  numeral : Numeral
deriving DecidableEq, Repr

namespace NumericConstraint

/-- Numbers closer than this are nearly equal. -/
def nearDelta : Binary64 := .ofRat (1 / 100000000)

/-- Whether a value stands in the relation to the argument. -/
def holds (c : NumericConstraint) (x : Binary64) : Bool :=
  match c.relation with
  | .less => x.lt c.argument
  | .greater => c.argument.lt x
  | .atMost => x.le c.argument
  | .atLeast => c.argument.le x
  | .equal => x.eq c.argument
  | .unequal => !x.eq c.argument
  | .near => (x.sub c.argument).abs.lt nearDelta

/-- The keys that stand in the relation to the argument's key. -/
def intervals (c : NumericConstraint) : Except MatchError (List KeyInterval) := do
  let k ← Numeral.key c.numeral.spelling
  match c.relation with
  | .less => .ok (KeyInterval.below k)
  | .greater => .ok (KeyInterval.above k)
  | .atMost => .ok [⟨0, k⟩]
  | .atLeast => .ok [⟨k, Numeral.maxKey⟩]
  | .equal => .ok [⟨k, k⟩]
  | .unequal => .ok (KeyInterval.below k ++ KeyInterval.above k)
  | .near => .error (.pattern .approximate)

/-- The constraint that a relation and an argument form. The argument must be a
number, and one that some finite binary64 value is nearest to. -/
def ofPair (pair : Json × Json) : Except MatchError NumericConstraint := do
  let relation ← Relation.ofJson pair.1
  match pair.2 with
  | .num numeral =>
    let argument := Binary64.ofNumeral numeral
    if argument.isFinite then .ok { relation, argument, numeral }
    else .error (.number numeral.text)
  | found => .error (.pattern (.notNumeric found))

end NumericConstraint

/-- A conjunction of relations to numbers. -/
structure NumericClause where
  constraints : List NumericConstraint
deriving DecidableEq, Repr

namespace NumericClause

/-- The clause that a list of relations and arguments in turn forms. -/
def ofJson (items : List Json) : Except MatchError NumericClause :=
  if items.isEmpty then .error (.pattern .noNumericConstraint)
  else if items.length % 2 ≠ 0 then .error (.pattern (.oddNumericArguments items.length))
  else (pairs items).mapM NumericConstraint.ofPair |>.map NumericClause.mk

/-- Whether all relations hold for a value. -/
def holds (c : NumericClause) (x : Binary64) : Bool := c.constraints.all (·.holds x)

/-- Whether some relation is approximate, so that the clause is no set of keys. -/
def isApproximate (c : NumericClause) : Bool := c.constraints.any (·.relation == .near)

/-- The keys for which all relations hold, as sorted disjoint intervals. The
first constraint without a set of keys is the error. -/
def intervals (c : NumericClause) : Except MatchError (List KeyInterval) :=
  c.constraints.foldlM (fun acc k => k.intervals.map (KeyInterval.intersect acc)) [KeyInterval.all]

end NumericClause

end EventMatch
