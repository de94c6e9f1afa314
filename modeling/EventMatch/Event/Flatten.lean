import EventMatch.Event.Field
import EventMatch.Json.Parser
import EventMatch.Path

/-!
# Flattening JSON events

The fields of a JSON event are its scalars. Arrays do not show in paths; they
are numbered from 1 in the order of the walk, and a scalar's trail names the
elements it lies in.
-/

namespace EventMatch.Json

mutual

/-- The scalars of a value as fields, and the number of arrays met so far. -/
def leaves (path : String) (trail : List ArrayPos) (arrays : Nat) : Json → List Field × Nat
  | obj members => memberLeaves path trail arrays members
  | arr items => itemLeaves path trail (arrays + 1) 0 (arrays + 1) items
  | num n => ([⟨path, Numeral.plainText n.spelling, trail⟩], arrays)
  | scalar => ([⟨path, Bytes.ofString scalar.text, trail⟩], arrays)

/-- The scalars of an object's members. -/
def memberLeaves (path : String) (trail : List ArrayPos) (arrays : Nat) :
    List (String × Json) → List Field × Nat
  | [] => ([], arrays)
  | (key, j) :: ms =>
    let (fields, arrays) := j.leaves (Path.extend path key) trail arrays
    let (others, arrays) := memberLeaves path trail arrays ms
    (fields ++ others, arrays)

/-- The scalars of an array's items from the one at `pos` on. -/
def itemLeaves (path : String) (trail : List ArrayPos) (array pos arrays : Nat) :
    List Json → List Field × Nat
  | [] => ([], arrays)
  | j :: js =>
    let (fields, arrays) := j.leaves path (trail ++ [⟨array, pos⟩]) arrays
    let (others, arrays) := itemLeaves path trail array (pos + 1) arrays js
    (fields ++ others, arrays)

end

/-- The fields of an event in the order of their paths. -/
def fields (event : Json) : List Field := Field.sortByPath (event.leaves "" [] 0).1

/-- The flattener of JSON events, which must be objects. -/
def flatten : Flattener := fun event =>
  match parseBytes? event with
  | none => .error (.event .malformed)
  | some (obj members) => .ok (obj members).fields
  | some _ => .error (.event .notObject)

end EventMatch.Json
