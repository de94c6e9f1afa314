import EventMatch.Json.Printer
import EventMatch.Text.Quoted

/-!
# What can go wrong

Each error is a cause, and `MatchError.message` words it. `MatchError.kind` is
the coarse class by which callers act. `MatchError.isSyntactic` tells the
errors whose wording is left open: they say that a text is not JSON or, for a
standard spec, not of the right shape.
-/

namespace EventMatch

/-- Why an event was refused. -/
inductive EventFault where
  /-- The event is not JSON. -/
  | malformed
  /-- The event is JSON, but no object. -/
  | notObject
  /-- A flattener's own reason. -/
  | other (reason : String)

/-- Why a pattern was refused. -/
inductive PatternFault where
  /-- The pattern is not JSON. -/
  | malformed
  | notObject
  | noFields
  /-- A field lists no values. -/
  | noValues (path : String)
  /-- A field's values are not in an array. -/
  | notArray (path : String) (found : Json)
  /-- An array stands among a field's values. -/
  | nestedArray (path : String)
  /-- An operator object has no key or several. -/
  | operatorKeys (path : String)
  | unknownOperator (name path : String)
  /-- The argument of `numeric` is not an array. -/
  | numericNotArray (found : Json)
  | noNumericConstraint
  | oddNumericArguments (count : Nat)
  /-- A relation is not a string. -/
  | badRelation (found : Json)
  | unknownRelation (op : String)
  | notNumeric (found : Json)
  /-- An approximate relation was asked for its keys. -/
  | approximate
  /-- A spec parser's own reason. -/
  | other (reason : String)

/-- Why a numeral has no key. -/
inductive RangeFault where
  | tooManyDigits (numeral : String) (count : Nat)
  | outside (numeral : String)
  /-- A spec parser's own reason. -/
  | other (reason : String)

/-- Why a spec was refused. -/
inductive SpecFault where
  /-- No spec parser was configured. -/
  | noParser
  /-- A standard spec is not JSON or not of the right shape. -/
  | malformed (spec : String)
  /-- A standard spec has no field or several. -/
  | notOneField
  | noStringConstraint
  | oddStringArguments (count : Nat)
  | notString (found : Json)
  /-- A spec parser's own reason. -/
  | other (reason : String)

/-- What can go wrong in adding patterns and matching events. -/
inductive MatchError where
  | event (fault : EventFault)
  | pattern (fault : PatternFault)
  | number (text : String)
  | range (fault : RangeFault)
  | spec (fault : SpecFault)
  /-- The numeric list of a standard spec was refused. -/
  | numericSpec (cause : MatchError)
  /-- A spec parser failed with an error that is not about specs. -/
  | parsingSpec (text : String) (cause : MatchError)
  | cancelled
  | rebuild (cause : MatchError)
  | closed

/-- The classes of errors. -/
inductive ErrorKind where
  | invalidJson
  | invalidPattern
  | invalidNumber
  | outOfRange
  | extension
  | cancelled
  | rebuild
  | closed
deriving DecidableEq, Repr

namespace EventFault

/-- The fault in words. -/
def reason : EventFault → String
  | malformed => "not a JSON text"
  | notObject => "event must be a JSON object"
  | other reason => reason

end EventFault

namespace PatternFault

/-- The fault in words. -/
def reason : PatternFault → String
  | malformed => "not a JSON text"
  | notObject => "pattern must be a JSON object"
  | noFields => "pattern has no fields"
  | noValues path => "empty array for field " ++ Text.quoted path
  | notArray path found =>
    "value for field " ++ Text.quoted path ++ " must be an array, got " ++ found.text
  | nestedArray path => "nested array in values for field " ++ Text.quoted path
  | operatorKeys path =>
    "operator object for field " ++ Text.quoted path ++ " must have exactly one key"
  | unknownOperator name path =>
    "unsupported operator " ++ Text.quoted name ++ " for field " ++ Text.quoted path
  | numericNotArray found => "value for 'numeric' must be an array, got " ++ found.text
  | noNumericConstraint => "need at least one numeric constraint"
  | oddNumericArguments count => "odd number of numeric args: " ++ toString count
  | badRelation found => "bad relation " ++ found.text
  | unknownRelation op => "unknown relation " ++ op
  | notNumeric found => found.text ++ " isn't numeric enough"
  | approximate => "~= has no exact key interval"
  | other reason => reason

end PatternFault

namespace RangeFault

/-- The fault in words. -/
def reason : RangeFault → String
  | tooManyDigits numeral count =>
    numeral ++ " has " ++ toString count ++ " significant digits, exceeds max of 18"
  | outside numeral => numeral ++ " is outside of range (-1000000000, 1000000000)"
  | other reason => reason

end RangeFault

namespace SpecFault

/-- The fault in words. -/
def reason : SpecFault → String
  | noParser => "no predicate parser configured"
  | malformed spec => "failed to parse " ++ spec
  | notOneField => "standard predicates require exactly one field"
  | noStringConstraint => "need at least one string constraint"
  | oddStringArguments count => "odd number of args: " ++ toString count
  | notString found => found.text ++ " isn't a string"
  | other reason => reason

end SpecFault

namespace MatchError

/-- The class of an error. -/
def kind : MatchError → ErrorKind
  | event _ => .invalidJson
  | pattern _ => .invalidPattern
  | number _ => .invalidNumber
  | range _ => .outOfRange
  | spec _ | numericSpec _ | parsingSpec _ _ => .extension
  | cancelled => .cancelled
  | rebuild _ => .rebuild
  | closed => .closed

/-- The full text of an error, which begins with its class. -/
def message : MatchError → String
  | event fault => "invalid JSON: " ++ fault.reason
  | pattern fault => "invalid pattern: " ++ fault.reason
  | number text => "invalid number: " ++ text
  | range fault => "numeric value out of range: " ++ fault.reason
  | spec fault => "extension: " ++ fault.reason
  | numericSpec cause => "extension: numeric: " ++ cause.message
  | parsingSpec text cause => "extension: parsing " ++ text ++ ": " ++ cause.message
  | cancelled => "operation cancelled"
  | rebuild cause => "rebuild failed: " ++ cause.message
  | closed => "incremental matcher is closed"

/-- Whether the error says that a text is not JSON or not of the right shape. -/
def isSyntactic : MatchError → Bool
  | event .malformed | pattern .malformed | spec (.malformed _) => true
  | numericSpec cause | parsingSpec _ cause | rebuild cause => cause.isSyntactic
  | _ => false

/-- Whether the operation was cancelled, after which it may be tried again. -/
def isCancelled : MatchError → Bool
  | cancelled => true
  | _ => false

end MatchError

end EventMatch
