import EventMatch.Extension.Basic
import EventMatch.Extension.StringClause
import EventMatch.Text.Lowercase

/-!
# The standard specs

A standard spec is a JSON object with exactly one of the fields `numeric` (a
numeric clause), `string` (a string clause), `length` (the exact number of bytes
of a string) and `equals-insensitive` (strings to compare without regard to
case). An array of the four in this order stands for the object, and a null for
an absent field.
-/

namespace EventMatch

/-- The fields of a standard spec as far as they are present. -/
structure StandardSpec where
  numeric : Option (List Json) := none
  string : Option (List Json) := none
  length : Option Nat := none
  equalsInsensitive : Option (List String) := none

namespace StandardSpec

/-- A length must stay below this. -/
def lengthBound : Nat := 0x10000000000000000

/-- The value of a field that holds a list. -/
def list? : Json → Option (List Json)
  | .arr items => Json.resolveItems? items
  | _ => none

/-- The value of a field that holds a list of strings. -/
def strings? : Json → Option (List String)
  | .arr items => items.mapM fun
    | .str s => some s
    | _ => none
  | _ => none

/-- The value of a field that holds a length: an integer written without sign,
fraction and exponent. -/
def natural? : Json → Option Nat
  | .num ⟨false, whole, none, none⟩ =>
    if whole.value < lengthBound then some whole.value else none
  | _ => none

/-- A field that may be null, read by `read`. -/
def field? {α : Type} (read : Json → Option α) : Json → Option (Option α)
  | .null => some none
  | j => (read j).map some

/-- Reads one member. Its key must be known. -/
def withMember? (s : StandardSpec) (key : String) (j : Json) : Option StandardSpec :=
  match key with
  | "numeric" => (field? list? j).map fun x => { s with numeric := x }
  | "string" => (field? list? j).map fun x => { s with string := x }
  | "length" => (field? natural? j).map fun x => { s with length := x }
  | "equals-insensitive" => (field? strings? j).map fun x => { s with equalsInsensitive := x }
  | _ => none

/-- Reads the members of an object, which must have different keys. -/
def ofMembers? (members : List (String × Json)) : Option StandardSpec :=
  if (members.map Prod.fst).Nodup then
    members.foldlM (fun s (key, j) => s.withMember? key j) {}
  else none

/-- Reads a spec from the JSON text as it was written. -/
def ofJson? : Json → Option StandardSpec
  | .obj members => ofMembers? members
  | .arr [a, b, c, d] => do
    some { numeric := ← field? list? a
           string := ← field? list? b
           length := ← field? natural? c
           equalsInsensitive := ← field? strings? d }
  | _ => none

/-- The predicate of a spec, which must have exactly one field. -/
def predicate : StandardSpec → Except MatchError Predicate
  | ⟨some items, none, none, none⟩ =>
    match NumericClause.ofJson items with
    | .ok clause => .ok clause.predicate
    | .error e => .error (.numericSpec e)
  | ⟨none, some items, none, none⟩ =>
    (StringClause.ofJson items).map fun clause => Predicate.ofString clause.holds
  | ⟨none, none, some length, none⟩ => .ok (Predicate.ofString fun s => s.utf8ByteSize == length)
  | ⟨none, none, none, some texts⟩ =>
    let allowed := texts.map Text.lowercase
    .ok (Predicate.ofString fun s => allowed.contains (Text.lowercase s))
  | _ => .error (.spec .notOneField)

/-- The predicate of a spec's bytes. -/
def parse (spec : Bytes) : Except MatchError Predicate :=
  match (Json.asWrittenBytes? spec).bind ofJson? with
  | some s => s.predicate
  | none => .error (.spec (.malformed (Utf8.lossy spec)))

end StandardSpec

/-- The parser of the standard specs. -/
def SpecParser.standard : SpecParser := .ofFunction StandardSpec.parse

end EventMatch
