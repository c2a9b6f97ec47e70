import CloneScan.Text

/-!
# Rules, locations and violations

What is reported: a rule with its level, the places of a finding and its description.  Lines count
from one and a location includes both of its lines.
-/

namespace CloneScan

/-- The level under which a rule reports. -/
inductive RuleLevel where
  | error
  | warning
  | info
  | off
  deriving DecidableEq, Repr

namespace RuleLevel

/-- Every level. -/
def all : List RuleLevel :=
  [.error, .warning, .info, .off]

/-- The name of a level. -/
def name : RuleLevel → Text
  | .error => Text.ofString "error"
  | .warning => Text.ofString "warning"
  | .info => Text.ofString "info"
  | .off => Text.ofString "off"

/-- The level of a name. -/
def ofName? (t : Text) : Option RuleLevel :=
  all.find? (fun l => l.name == t)

end RuleLevel

/-- The identifier of the one rule. -/
def duplicateRule : Text :=
  Text.ofString "DUPLICATE_CODE"

/-- Whether the rule runs, and its level. -/
structure RuleConfig where
  enabled : Bool
  level : RuleLevel
  deriving DecidableEq, Repr

/-- Lines of a file, both ends included. -/
structure Location where
  file : Text
  startLine : Int
  endLine : Int
  deriving DecidableEq, Repr

namespace Location

/-- The order of reports: by file, then first line, then last line. -/
def order (a b : Location) : Ordering :=
  (Text.order a.file b.file).then
    ((compare a.startLine b.startLine).then (compare a.endLine b.endLine))

/-- Whether the first location comes no later than the second. -/
def le (a b : Location) : Bool :=
  order a b != .gt

/-- The number of lines. -/
def lineCount (l : Location) : Int :=
  l.endLine - l.startLine + 1

/-- Whether two locations share a line of one file. -/
def overlaps (a b : Location) : Bool :=
  a.file == b.file && a.startLine ≤ b.endLine && b.startLine ≤ a.endLine

end Location

/-- Whether a location shares a line with one of the suppressed ranges. -/
def isSpanSuppressed (span : Location) (ranges : List Location) : Bool :=
  ranges.any span.overlaps

/-- A finding.  `lineCount` is the smallest number of lines among its places, and there is none
when there are no places; `primary` is the first place in the order of reports. -/
structure Violation where
  primary : Option Location
  related : List Location
  lineCount : Option Int
  tokenCount : Nat
  occurrenceCount : Nat
  message : Text
  level : RuleLevel
  deriving DecidableEq, Repr

namespace Violation

/-- The place by which violations are ordered. -/
def place (v : Violation) : Location :=
  v.primary.getD ⟨[], 0, 0⟩

/-- The order of a report: by primary place, then by the number of occurrences. -/
def order (a b : Violation) : Ordering :=
  (Location.order a.place b.place).then (compare a.occurrenceCount b.occurrenceCount)

/-- Whether the first violation comes no later than the second. -/
def le (a b : Violation) : Bool :=
  order a b != .gt

end Violation

/-- Violations in the order of a report; equal ones keep their order. -/
def sortViolations (violations : List Violation) : List Violation :=
  violations.mergeSort Violation.le

end CloneScan
