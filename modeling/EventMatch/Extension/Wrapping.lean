import EventMatch.Json.Parser
import EventMatch.Json.Printer

/-!
# Wrapping clauses as extensions

`usingExtension` turns `{"likes":[{"length":5}]}` into
`{"likes":[{"extension":{"length":5}}]}` for the operators that are named. Only a
value list that is a single object with a single key is wrapped.
-/

namespace EventMatch

namespace Json

mutual

/-- Wraps the clauses in an object, at any depth of nested objects. -/
def wrapExtensions (operators : List String) : Json → Json
  | arr [obj [(op, arg)]] =>
    if operators.contains op then arr [obj [("extension", obj [(op, arg)])]]
    else arr [obj [(op, arg)]]
  | obj members => obj (wrapExtensionsIn operators members)
  | other => other

/-- Wraps the clauses in each member's value. -/
def wrapExtensionsIn (operators : List String) : List (String × Json) → List (String × Json)
  | [] => []
  | (k, j) :: ms => (k, j.wrapExtensions operators) :: wrapExtensionsIn operators ms

end

end Json

/-- The pattern with the named operators as extensions. A text that is not JSON
stays as it is. -/
def usingExtension (pattern : String) (operators : List String) : String :=
  match Json.parse? pattern with
  | some j => (j.wrapExtensions operators).text
  | none => pattern

end EventMatch
