import EventMatch.Error

/-!
# Relations

The comparisons that numeric and string clauses are made of. A clause lists
relations and arguments in turn; `pairs?` splits the list.
-/

namespace EventMatch

/-- A comparison of a value with an argument. -/
inductive Relation where
  | less
  | greater
  | atMost
  | atLeast
  | equal
  | unequal
  /-- Equal up to a small difference. -/
  | near
deriving DecidableEq, Repr

namespace Relation

/-- The relation that an operator names. -/
def ofOperator? (op : String) : Option Relation :=
  match op with
  | "<" => some less
  | ">" => some greater
  | "<=" => some atMost
  | ">=" => some atLeast
  | "==" | "=" => some equal
  | "!=" | "<>" => some unequal
  | "~=" => some near
  | _ => none

/-- The relation that an element of a clause names; it must be a string. -/
def ofJson : Json → Except MatchError Relation
  | .str op =>
    match ofOperator? op with
    | some r => .ok r
    | none => .error (.pattern (.unknownRelation op))
  | found => .error (.pattern (.badRelation found))

end Relation

/-- The elements of a list two by two; a last one without a partner is dropped. -/
def pairs {α : Type} : List α → List (α × α)
  | a :: b :: rest => (a, b) :: pairs rest
  | _ => []

end EventMatch
