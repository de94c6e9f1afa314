import EventMatch.Matcher.Basic

/-!
# Live patterns

The patterns that are wanted at present: for each identifier a set of texts.
Mutations change the set one by one, and `LiveSet.compile` makes a matcher of it
from scratch.
-/

namespace EventMatch

/-- A change to the live patterns. -/
inductive Mutation (ι : Type) where
  /-- Adds a text to an identifier. -/
  | add (id : ι) (text : String)
  /-- Removes all texts of an identifier. -/
  | delete (id : ι)
deriving DecidableEq, Repr

namespace Mutation

variable {ι : Type}

/-- The identifier that is changed. -/
def id : Mutation ι → ι
  | add id _ => id
  | delete id => id

/-- Whether texts are removed. -/
def isDeletion : Mutation ι → Bool
  | add .. => false
  | delete _ => true

end Mutation

/-- For each identifier, which occurs once, its texts in the order of their bytes. -/
structure LiveSet (ι : Type) where
  entries : List (ι × List String) := []
deriving DecidableEq, Repr

namespace LiveSet

variable {ι : Type}

/-- Adds a text to a sorted list that has each text once. -/
def insertText (text : String) : List String → List String
  | [] => [text]
  | t :: rest =>
    if text = t then t :: rest
    else if Bytes.leString text t then text :: t :: rest
    else t :: insertText text rest

/-- Adds a text to an identifier's entry, or a new entry at the end. -/
def insertEntry [BEq ι] (id : ι) (text : String) : List (ι × List String) → List (ι × List String)
  | [] => [(id, [text])]
  | (k, texts) :: rest =>
    if k == id then (k, insertText text texts) :: rest
    else (k, texts) :: insertEntry id text rest

/-- Makes one change. -/
def apply [BEq ι] (l : LiveSet ι) : Mutation ι → LiveSet ι
  | .add id text => ⟨insertEntry id text l.entries⟩
  | .delete id => ⟨l.entries.filter fun e => !(e.1 == id)⟩

/-- Makes changes in order. -/
def fold [BEq ι] (l : LiveSet ι) (batch : List (Mutation ι)) : LiveSet ι := batch.foldl apply l

/-- The pairs of an identifier and one of its texts. -/
def pairs (l : LiveSet ι) : List (ι × String) :=
  l.entries.flatMap fun e => e.2.map fun text => (e.1, text)

/-- The number of pairs. -/
def size (l : LiveSet ι) : Nat := l.pairs.length

/-- Compiles all texts into a new matcher that is configured like the template. -/
def compile [BEq ι] (l : LiveSet ι) (template : Matcher ι) : Except MatchError Unit × Matcher ι :=
  template.emptyLike.addAll l.pairs

/-- Whether a pattern text has an extension clause. -/
def textAsks (text : String) : Bool :=
  match Pattern.parse text with
  | .ok fields => fields.any fun f => f.values.any fun
    | .extension _ => true
    | _ => false
  | .error _ => false

/-- Whether compiling asks the spec parser. -/
def asks (l : LiveSet ι) : Bool := l.pairs.any fun p => textAsks p.2

end LiveSet

end EventMatch
