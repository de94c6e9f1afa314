import EventMatch.Live.Service
import EventMatch.Extension.Standard
import EventMatch.Extension.Wrapping
import EventMatch.Proofs.Automaton.NormalForm
import EventMatch.Proofs.Automaton.LockStep
import EventMatch.Proofs.Automaton.Pool
import EventMatch.Proofs.Automaton.Merge
import EventMatch.Proofs.Automaton.Recognition
import EventMatch.Proofs.Numeral.Digits
import EventMatch.Proofs.Automaton.Ranges
import EventMatch.Proofs.Numeral.Spelling
import EventMatch.Proofs.Pattern.Values
import EventMatch.Proofs.Numeric.Clause
import EventMatch.Proofs.Matcher.Gate
import EventMatch.Proofs.Matcher.Interpreter
import EventMatch.Proofs.Matcher.Chain
import EventMatch.Proofs.Matcher.Root
import EventMatch.Proofs.Matcher.Equivalence
import EventMatch.Proofs.Live.Coordinator
import EventMatch.Proofs.Live.LiveSet
import EventMatch.Proofs.Matcher.Alone
import EventMatch.Proofs.Live.Snapshot
import EventMatch.Proofs.Event.Flatten
import EventMatch.Proofs.Json.Keys
import EventMatch.Proofs.Json.Address
import EventMatch.Proofs.Event.Walk
import EventMatch.Proofs.Event.Choice
import EventMatch.Proofs.Pattern.Leaves
import EventMatch.Proofs.Matcher.Search
import EventMatch.Proofs.Matcher.JsonEvents
import EventMatch.Proofs.Matcher.Trails
import EventMatch.Proofs.Live.Exchange
import EventMatch.Proofs.Live.Acceptance
import EventMatch.Proofs.Live.Validation
import EventMatch.Proofs.Live.Closing
import EventMatch.Proofs.Automaton.History
import EventMatch.Proofs.Numeral.Key
import EventMatch.Proofs.Numeral.Order
import EventMatch.Proofs.Numeric.Intervals
import EventMatch.Proofs.Matcher.OneField
import EventMatch.Proofs.Matcher.RawBytes
import EventMatch.Proofs.Json.Reading
import EventMatch.Proofs.Json.Writing
import EventMatch.Proofs.Matcher.Scalars
import EventMatch.Proofs.Matcher.NumericClauses
import EventMatch.Proofs.Automaton.KeyRuns
import EventMatch.Proofs.Numeric.Words
import EventMatch.Proofs.Matcher.FieldValues
import EventMatch.Proofs.Matcher.Union
import EventMatch.Proofs.Pattern.Grammar
import EventMatch.Proofs.Matcher.FieldOrder
import EventMatch.Proofs.Matcher.Faults
import EventMatch.Proofs.Matcher.Additions
import EventMatch.Proofs.Matcher.Comparisons
import EventMatch.Proofs.Json.Rereading
import EventMatch.Proofs.Extension.Wrapping
import EventMatch.Proofs.Live.Retry
import EventMatch.Proofs.Live.Reports
import EventMatch.Proofs.Automaton.Literals
import EventMatch.Proofs.Automaton.Pairs
import EventMatch.Proofs.Numeral.Bounds
import EventMatch.Proofs.Text.Utf8
import EventMatch.Proofs.Numeral.Grammar
import EventMatch.Proofs.Pattern.Paths
import EventMatch.Proofs.Numeral.PlainText
import EventMatch.Proofs.Automaton.Terminals
import EventMatch.Proofs.Matcher.Terminals
