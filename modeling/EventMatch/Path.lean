/-!
# Paths of fields

A field's path is the keys that lead to it, joined by line feeds. Patterns and
events build paths by the same rule, `Path.extend`.
-/

namespace EventMatch.Path

/-- Stands between the keys of a path. -/
def separator : String := "\n"

/-- The path of a member. An empty path counts as no path yet, so the key alone
is the path then. -/
def extend (path key : String) : String :=
  if path.isEmpty then key else path ++ separator ++ key

/-- A key without a path before it is the whole path. -/
@[simp]
theorem extend_empty (key : String) : extend "" key = key := rfl

end EventMatch.Path
