import CloneScan.Config
import CloneScan.Report.Constant

/-!
# Duplicate detection

The duplicated blocks and constants of analyzed files.  Blocks are matched within one language, with
the smallest number of tokens of that language as the window; constants are reported beside them.
-/

namespace CloneScan

/-- A file with its tokens and window hashes. -/
structure AnalyzedFile where
  path : Text
  language : Language
  source : Text
  tokens : List Token
  hashes : List Nat

namespace Detect

/-- The file of a path; of several the last counts. -/
def fileAt? (files : List AnalyzedFile) (path : Text) : Option AnalyzedFile :=
  files.reverse.find? fun f => f.path == path

/-- What the filters see of the files of a language. -/
def context (files : List AnalyzedFile) (language : Language) : FilterContext where
  language := some language
  source := fun path => (fileAt? files path).map (·.source)
  tokens := fun path => (fileAt? files path).map (·.tokens)

/-- A file as it takes part in matching. -/
def indexed (normalize : Bool) (f : AnalyzedFile) : IndexedFile where
  path := f.path
  tokens := f.tokens.toArray
  keys := (tokenKeys f.tokens normalize).toArray
  hashes := f.hashes

/-- The clusters of the files of one language. -/
def clusters (config : Config) (suppressed : SuppressedRanges) (language : Language)
    (group : List AnalyzedFile) : List Cluster :=
  findClusters (group.map (indexed config.duplicates.normalize)) (config.thresholds language).tokens
    fun l => !suppressed.covers l

/-- The violations of the groups of files in turn; the filters remember what they computed. -/
def blockViolations (files : List AnalyzedFile) (config : Config) (suppressed : SuppressedRanges) :
    FilterRegistry → List (List AnalyzedFile) → List Violation × FilterRegistry
  | filters, [] => ([], filters)
  | filters, [] :: rest => blockViolations files config suppressed filters rest
  | filters, (first :: group) :: rest =>
    let language := first.language
    let options : ReportOptions :=
      { thresholds := config.thresholds language
        level := config.rule.level
        suppressed
        context := context files language }
    let (violations, filters) :=
      reportClusters options filters (clusters config suppressed language (first :: group))
    let (more, filters) := blockViolations files config suppressed filters rest
    (violations ++ more, filters)

/-- The violations of constants. -/
def constantViolations (files : List AnalyzedFile) (config : Config)
    (suppressed : SuppressedRanges) : List Violation :=
  if config.duplicates.constants then
    reportConstants (files.map fun f => ⟨f.path, some f.language, f.source, f.tokens⟩)
      config.duplicates.constantOccurrences config.rule.level suppressed
  else []

/-- The built-in filters as a configuration switches them. -/
def filtersOf (config : Config) : FilterRegistry :=
  FilterRegistry.builtIn fun f =>
    config.duplicates.filters.any fun e => e.1 == f && !e.2

end Detect

/-- The violations of some files in the order of a report, and the filters afterwards. -/
def detectWith (files : List AnalyzedFile) (config : Config) (suppressed : List Location)
    (filters : FilterRegistry) : List Violation × FilterRegistry :=
  if config.rule.enabled then
    let suppressed := SuppressedRanges.ofList suppressed
    let groups := Clone.group (fun (a b : AnalyzedFile) => a.language == b.language) files
    let (violations, filters) := Detect.blockViolations files config suppressed filters groups
    (sortViolations (violations ++ Detect.constantViolations files config suppressed), filters)
  else ([], filters)

/-- The violations of some files with the filters of the configuration. -/
def detectDuplicates (files : List AnalyzedFile) (config : Config) (suppressed : List Location) :
    List Violation :=
  (detectWith files config suppressed (Detect.filtersOf config)).1

end CloneScan
