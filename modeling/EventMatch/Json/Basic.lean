import EventMatch.Numeral.Basic

/-!
# JSON values

A JSON value keeps its numbers as numerals, so no digit is lost. The members of
an object are a list: a text as it was written may hold a key twice and in any
order. `Json.resolve?` gives the value that such a text stands for: every object
lists each key once, in the order of its bytes, with the last value written, and
an object that begins with the member `numberKey` is a number.
-/

namespace EventMatch

/-- A JSON value. -/
inductive Json where
  | null
  | bool (b : Bool)
  | num (n : Numeral)
  | str (s : String)
  | arr (items : List Json)
  | obj (members : List (String × Json))
deriving Inhabited, Repr

namespace Json

/-- A zero that begins the whole part of a JSON number stands there alone. -/
def hasLeadingZero (n : Numeral) : Bool := n.whole.first.val == 0 && !n.whole.others.isEmpty

/-- The numeral of a JSON number. Its exponent gets a small mark and a sign; the
rest stays as it is written, the minus of a zero and the last zeros of a fraction included. -/
def numeral? (v : Bytes) : Option Numeral := do
  let n ← Numeral.parse? v
  if hasLeadingZero n then none else some n.withSignedExponent

/-- The key under which an object may carry a number as a string. -/
def numberKey : String := "$serde_json::private::Number"

/-- The number that an object beginning with `numberKey` carries. It must have no
other member. -/
def carriedNumber? : List (String × Json) → Option Json
  | [(_, str s)] => (numeral? (Bytes.ofString s)).map num
  | _ => none

/-- Puts a member in its place among sorted ones; it replaces one with the same key. -/
def insertMember (key : String) (value : Json) : List (String × Json) → List (String × Json)
  | [] => [(key, value)]
  | (k, v) :: rest =>
    if key = k then (key, value) :: rest
    else if Bytes.leString key k then (key, value) :: (k, v) :: rest
    else (k, v) :: insertMember key value rest

/-- The members in order of their keys, the last one of each key. -/
def sortMembers (members : List (String × Json)) : List (String × Json) :=
  members.foldl (fun ms m => insertMember m.1 m.2 ms) []

mutual

/-- The value that a JSON text stands for, given the text as it was written. An
object that carries no number although it begins like one stands for nothing. -/
def resolve? : Json → Option Json
  | arr items => (resolveItems? items).map arr
  | obj members =>
    if members.head?.map Prod.fst = some numberKey then carriedNumber? members
    else (resolveMembers? members).map fun ms => obj (sortMembers ms)
  | scalar => some scalar

/-- Resolves each item. -/
def resolveItems? : List Json → Option (List Json)
  | [] => some []
  | j :: js => do
    let j ← j.resolve?
    let js ← resolveItems? js
    some (j :: js)

/-- Resolves each member's value. -/
def resolveMembers? : List (String × Json) → Option (List (String × Json))
  | [] => some []
  | (k, j) :: ms => do
    let j ← j.resolve?
    let ms ← resolveMembers? ms
    some ((k, j) :: ms)

end

end Json

end EventMatch
