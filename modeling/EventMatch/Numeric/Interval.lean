import EventMatch.Numeral.Key

/-!
# Intervals of keys

A set of keys is kept as a sorted list of disjoint intervals.
-/

namespace EventMatch

/-- The keys from `lo` to `hi`, both included. -/
structure KeyInterval where
  lo : Nat
  hi : Nat
deriving DecidableEq, Repr

namespace KeyInterval

/-- Whether a key lies in the interval. -/
def contains (i : KeyInterval) (key : Nat) : Bool := i.lo ≤ key && key ≤ i.hi

/-- The interval of all keys. -/
def all : KeyInterval := ⟨0, Numeral.maxKey⟩

/-- The keys below one. -/
def below (key : Nat) : List KeyInterval := if 0 < key then [⟨0, key - 1⟩] else []

/-- The keys above one. -/
def above (key : Nat) : List KeyInterval :=
  if key < Numeral.maxKey then [⟨key + 1, Numeral.maxKey⟩] else []

/-- The keys in both of two sorted lists of disjoint intervals. Of the two
first intervals the one that ends first meets nothing further. -/
def intersect : List KeyInterval → List KeyInterval → List KeyInterval
  | [], _ => []
  | _ :: _, [] => []
  | a :: as, b :: bs =>
    let rest := if a.hi < b.hi then intersect as (b :: bs) else intersect (a :: as) bs
    if max a.lo b.lo ≤ min a.hi b.hi then ⟨max a.lo b.lo, min a.hi b.hi⟩ :: rest else rest
termination_by as bs => as.length + bs.length

end KeyInterval

end EventMatch
