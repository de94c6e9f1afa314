import EventMatch.Error

/-!
# Fields of events

An event is matched as a list of fields. A field that lies in arrays remembers
in which elements, so that one match does not take its fields from different
elements of one array.
-/

namespace EventMatch

/-- An element of an array: the array's number in its event and the position. -/
structure ArrayPos where
  array : Int
  pos : Int
deriving DecidableEq, Repr

/-- A field: its path, its value as it is written, and the array elements it
lies in, outermost first. -/
structure Field where
  path : String
  value : Bytes
  trail : List ArrayPos := []
deriving DecidableEq, Repr

namespace Field

/-- Whether no array has both fields in different elements. -/
def compatible (f g : Field) : Bool :=
  f.trail.all fun p => g.trail.all fun q => !(p.array == q.array && p.pos != q.pos)

/-- Fields in the order of their paths; those of one path keep their order. -/
def sortByPath (fields : List Field) : List Field :=
  fields.mergeSort fun f g => Bytes.leString f.path g.path

end Field

/-- Turns the bytes of an event into its fields. -/
abbrev Flattener := Bytes → Except MatchError (List Field)

end EventMatch
