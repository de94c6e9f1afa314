import EventMatch.Matcher.Junction

/-!
# Searching for matches

A pattern matches a list of fields if its chain can be followed through some of
them in order of path. The search goes depth first: it tries the fields in
order, and from each junction reached it reports the complete patterns and goes
on with the later fields. Each field taken must be compatible with the one taken
just before it.
-/

namespace EventMatch

variable {ι : Type}

namespace Junction

/-- What a search from the junction reports, in order and with repetitions, given
the field taken last and the fields still to come. -/
def search (j : Junction ι) (previous : Option Field) : List Field → List ι
  | [] => []
  | f :: rest =>
    (if previous.all (·.compatible f) then
      (j.pass f.path f.value).flatMap fun next => next.complete ++ next.search (some f) rest
    else []) ++ j.search previous rest

end Junction

/-- The elements of a list without those that occurred before. -/
def firstSeen {α : Type} [BEq α] (as : List α) : List α := union [] as

end EventMatch
