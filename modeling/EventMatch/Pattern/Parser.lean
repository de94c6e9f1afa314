import EventMatch.Json.Parser
import EventMatch.Path
import EventMatch.Pattern.Basic

/-!
# Reading patterns

A pattern is a JSON object. Nested objects lead to fields, and every other
member is the array of a field's values. The first fault in the order of the
walk is reported; members are walked in the order of their keys.
-/

namespace EventMatch.Pattern

/-- The clause of an operator object's only member. -/
def operator (path name : String) (arg : Json) : Except MatchError ValueSpec :=
  if name = "numeric" then
    match arg with
    | .arr items => (NumericClause.ofJson items).map ValueSpec.numeric
    | found => .error (.pattern (.numericNotArray found))
  else if name = "extension" then .ok (.extension arg.text)
  else .error (.pattern (.unknownOperator name path))

/-- A number as a value: by its key if it has one, else by its plain text. -/
def number (n : Numeral) : Except MatchError ValueSpec :=
  match Numeral.canonical n.spelling with
  | .ok digits => .ok (.number digits)
  | .error (.range _) => .ok (.literal (Numeral.plainText n.spelling))
  | .error e => .error e

/-- One of a field's values. -/
def value (path : String) : Json → Except MatchError ValueSpec
  | .num n => number n
  | .obj [(name, arg)] => operator path name arg
  | .obj _ => .error (.pattern (.operatorKeys path))
  | .arr _ => .error (.pattern (.nestedArray path))
  | scalar => .ok (.literal (Bytes.ofString scalar.text))

/-- A field with its values. -/
def field (path : String) (items : List Json) : Except MatchError PatternField :=
  if items.isEmpty then .error (.pattern (.noValues path))
  else (items.mapM (value path)).map (PatternField.mk path)

mutual

/-- The fields that a member's value leads to. -/
def fieldsAt (path : String) : Json → Except MatchError (List PatternField)
  | .obj members => fieldsOf path members
  | .arr items => (field path items).map fun f => [f]
  | found => .error (.pattern (.notArray path found))

/-- The fields that an object's members lead to. -/
def fieldsOf (path : String) : List (String × Json) → Except MatchError (List PatternField)
  | [] => .ok []
  | (key, j) :: ms => do
    let fields ← fieldsAt (Path.extend path key) j
    let others ← fieldsOf path ms
    .ok (fields ++ others)

end

/-- Fields in the order of their paths; those of one path keep their order. -/
def sortByPath (fields : List PatternField) : List PatternField :=
  fields.mergeSort fun f g => Bytes.leString f.path g.path

/-- The pattern that a JSON value stands for. -/
def ofJson : Json → Except MatchError (List PatternField)
  | .obj members => do
    let fields ← fieldsOf "" members
    if fields.isEmpty then .error (.pattern .noFields) else .ok (sortByPath fields)
  | _ => .error (.pattern .notObject)

/-- The pattern that a text spells, in the order of the fields' paths. -/
def parse (text : String) : Except MatchError (List PatternField) :=
  match Json.parse? text with
  | none => .error (.pattern .malformed)
  | some j => ofJson j

end EventMatch.Pattern
