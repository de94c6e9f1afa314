import EventMatch.Relation

/-!
# String clauses

A string clause such as `[">=", "m", "<", "p"]` is a conjunction of relations
to strings in the order of their bytes.
-/

namespace EventMatch

/-- A relation to a string. -/
structure StringConstraint where
  relation : Relation
  argument : String
deriving DecidableEq, Repr

namespace StringConstraint

/-- Whether a string stands in the relation to the argument. No string is near
another one. -/
def holds (c : StringConstraint) (s : String) : Bool :=
  match c.relation with
  | .less => !Bytes.leString c.argument s
  | .greater => !Bytes.leString s c.argument
  | .atMost => Bytes.leString s c.argument
  | .atLeast => Bytes.leString c.argument s
  | .equal => s == c.argument
  | .unequal => s != c.argument
  | .near => false

/-- The constraint that a relation and an argument form. -/
def ofPair (pair : Json × Json) : Except MatchError StringConstraint := do
  let relation ← Relation.ofJson pair.1
  match pair.2 with
  | .str argument => .ok { relation, argument }
  | found => .error (.spec (.notString found))

end StringConstraint

/-- A conjunction of relations to strings. -/
structure StringClause where
  constraints : List StringConstraint
deriving DecidableEq, Repr

namespace StringClause

/-- The clause that a list of relations and arguments in turn forms. -/
def ofJson (items : List Json) : Except MatchError StringClause :=
  if items.isEmpty then .error (.spec .noStringConstraint)
  else if items.length % 2 ≠ 0 then .error (.spec (.oddStringArguments items.length))
  else (pairs items).mapM StringConstraint.ofPair |>.map StringClause.mk

/-- Whether all relations hold for a string. -/
def holds (c : StringClause) (s : String) : Bool := c.constraints.all (·.holds s)

end StringClause

end EventMatch
