import CloneScan.Report.Filter

/-!
# From clusters to violations

A cluster loses its suppressed occurrences, has to meet the thresholds of its language, has to pass
the block filters, and is then described as a violation.
-/

namespace CloneScan

/-- The least sizes of a reported block. -/
structure Thresholds where
  lines : Nat
  tokens : Nat
  occurrences : Nat
  deriving DecidableEq, Repr

/-- Suppressed ranges by file, files in the order of their first range. -/
abbrev SuppressedRanges := List (Text × List Location)

namespace SuppressedRanges

/-- Adds a range to the ranges of its file. -/
def insert (groups : SuppressedRanges) (range : Location) : SuppressedRanges :=
  match groups with
  | [] => [(range.file, [range])]
  | (file, ranges) :: rest =>
    if file == range.file then (file, ranges ++ [range]) :: rest
    else (file, ranges) :: insert rest range

/-- Groups ranges by file. -/
def ofList (ranges : List Location) : SuppressedRanges :=
  ranges.foldl insert []

/-- The ranges of a file. -/
def of (groups : SuppressedRanges) (file : Text) : List Location :=
  ((groups.find? (fun g => g.1 == file)).map (·.2)).getD []

/-- Whether a location shares a line with a suppressed range of its file. -/
def covers (groups : SuppressedRanges) (l : Location) : Bool :=
  isSpanSuppressed l (groups.of l.file)

end SuppressedRanges

namespace Cluster

/-- The places of a cluster. -/
def places (c : Cluster) : List Location :=
  c.occurrences.map (·.location)

/-- The cluster without its suppressed occurrences. -/
def withoutSuppressed (c : Cluster) (suppressed : SuppressedRanges) : Cluster :=
  { c with occurrences := c.occurrences.filter fun o => !suppressed.covers o.location }

/-- The smallest number of lines among the occurrences; none when there are no occurrences. -/
def lineCount (c : Cluster) : Option Int :=
  (c.places.map Location.lineCount).min?

/-- Whether a cluster has enough occurrences, tokens and lines; two occurrences are always
needed. -/
def meets (c : Cluster) (t : Thresholds) : Bool :=
  max 2 t.occurrences ≤ c.occurrences.length && t.tokens ≤ c.tokenCount &&
    match c.lineCount with
    | none => true
    | some n => (t.lines : Int) ≤ n

end Cluster

/-- The text of a number of lines; without any place it is unbounded. -/
def lineCountText : Option Int → Text
  | none => Text.ofString "Infinity"
  | some n => Text.ofInt n

/-- A place as it is listed in a message. -/
def placeText (l : Location) : Text :=
  l.file ++ Text.ofString ":" ++ Text.ofInt l.startLine ++ Text.ofString "-" ++ Text.ofInt l.endLine

/-- Describes a cluster; its first place in the order of reports is the primary one. -/
def buildViolation (c : Cluster) (level : RuleLevel) : Violation :=
  let ordered := c.places.mergeSort Location.le
  let related := ordered.drop 1
  { primary := ordered.head?
    related
    lineCount := c.lineCount
    tokenCount := c.tokenCount
    occurrenceCount := ordered.length
    message :=
      Text.ofString "Duplicate code (" ++ lineCountText c.lineCount ++ Text.ofString " lines, " ++
        Text.ofNat ordered.length ++ Text.ofString " occurrences). Also found in: " ++
        Text.join (Text.ofString ", ") (related.map placeText)
    level }

/-- What turns the clusters of one language into violations. -/
structure ReportOptions where
  thresholds : Thresholds
  level : RuleLevel
  suppressed : SuppressedRanges
  context : FilterContext

/-- The violations of the clusters, and the filters with what they remember afterwards. -/
def reportClusters (options : ReportOptions) (filters : FilterRegistry) :
    List Cluster → List Violation × FilterRegistry
  | [] => ([], filters)
  | raw :: rest =>
    let c := raw.withoutSuppressed options.suppressed
    if c.meets options.thresholds then
      let (dropped, filters) := filters.shouldFilter c.places options.context
      let (violations, filters) := reportClusters options filters rest
      (if dropped then violations else buildViolation c options.level :: violations, filters)
    else reportClusters options filters rest

end CloneScan
