import CloneScan.Json
import CloneScan.Report.Reporter

/-!
# Settings

What a configuration document can set.  Every setting is optional; the resolved configuration fills
the gaps with defaults.
-/

namespace CloneScan

/-- Where the records of a cache are kept. -/
inductive CacheBackend where
  | disk
  | redis
  | memory
  deriving DecidableEq, Repr

namespace CacheBackend

/-- Every backend. -/
def all : List CacheBackend :=
  [.disk, .redis, .memory]

/-- The name of a backend. -/
def name : CacheBackend → Text
  | .disk => Text.ofString "disk"
  | .redis => Text.ofString "redis"
  | .memory => Text.ofString "memory"

/-- The backend of a name. -/
def ofName? (t : Text) : Option CacheBackend :=
  all.find? (fun b => b.name == t)

end CacheBackend

/-- The thresholds that a language sets for itself. -/
structure ThresholdSettings where
  lines : Option Number := none
  tokens : Option Number := none
  occurrences : Option Number := none

/-- The settings of duplicate detection. -/
structure DuplicateSettings where
  enabled : Option Bool := none
  thresholds : ThresholdSettings := {}
  languages : Option (List (Language × ThresholdSettings)) := none
  normalize : Option Bool := none
  level : Option RuleLevel := none
  filters : Option (List (FilterName × Option Bool)) := none
  constants : Option Bool := none
  constantOccurrences : Option Number := none

/-- The settings on files. -/
structure FileSettings where
  ignore : Option (List Text) := none

/-- The settings of the cache. -/
structure CacheSettings where
  enabled : Option Bool := none
  backend : Option CacheBackend := none
  directory : Option Text := none
  maxAgeDays : Option Number := none
  keyStart : Option Text := none

/-- The settings of a scan. -/
structure ScanSettings where
  workers : Option Number := none
  strict : Option Bool := none
  inlineSuppressions : Option Bool := none

/-- A configuration document. -/
structure Settings where
  version : Number := .finite 1
  duplicates : Option DuplicateSettings := none
  files : Option FileSettings := none
  cache : Option CacheSettings := none
  scan : Option ScanSettings := none

/-! ## Settings as JSON -/

/-- An object of those fields that are set. -/
def Json.ofSetFields (fields : List (String × Option Json)) : Json :=
  .ofFields (fields.filterMap fun f => f.2.map fun v => (f.1, v))

/-- The fields of threshold settings. -/
def ThresholdSettings.fields (t : ThresholdSettings) : List (String × Option Json) :=
  [("min_duplicate_lines", t.lines.map Json.number),
    ("min_duplicate_tokens", t.tokens.map Json.number),
    ("min_occurrences", t.occurrences.map Json.number)]

/-- Threshold settings as JSON. -/
def ThresholdSettings.toJson (t : ThresholdSettings) : Json :=
  .ofSetFields t.fields

/-- The threshold settings of languages as JSON. -/
def languagesJson (languages : List (Language × ThresholdSettings)) : Json :=
  .object (languages.map fun e => (e.1.tag, e.2.toJson))

/-- Duplicate settings as JSON. -/
def DuplicateSettings.toJson (d : DuplicateSettings) : Json :=
  .ofSetFields
    ([("enabled", d.enabled.map Json.bool)] ++ d.thresholds.fields ++
      [("languages", d.languages.map languagesJson),
        ("normalize", d.normalize.map Json.bool),
        ("level", d.level.map fun l => Json.string l.name),
        ("filters", d.filters.map fun filters =>
          Json.object (filters.filterMap fun f => f.2.map fun b => (f.1.name, Json.bool b))),
        ("detect_duplicate_constants", d.constants.map Json.bool),
        ("min_constant_occurrences", d.constantOccurrences.map Json.number)])

/-- File settings as JSON. -/
def FileSettings.toJson (f : FileSettings) : Json :=
  .ofSetFields [("ignore", f.ignore.map fun globs => Json.array (globs.map Json.string))]

/-- Cache settings as JSON. -/
def CacheSettings.toJson (c : CacheSettings) : Json :=
  .ofSetFields
    [("enabled", c.enabled.map Json.bool),
      ("backend", c.backend.map fun b => Json.string b.name),
      ("dir", c.directory.map Json.string),
      ("max_age_days", c.maxAgeDays.map Json.number),
      ("key_prefix", c.keyStart.map Json.string)]

/-- Scan settings as JSON. -/
def ScanSettings.toJson (s : ScanSettings) : Json :=
  .ofSetFields
    [("workers", s.workers.map Json.number),
      ("strict", s.strict.map Json.bool),
      ("inline_suppressions", s.inlineSuppressions.map Json.bool)]

/-- A configuration document as JSON. -/
def Settings.toJson (s : Settings) : Json :=
  .ofSetFields
    [("version", some (Json.number s.version)),
      ("duplicates", s.duplicates.map DuplicateSettings.toJson),
      ("files", s.files.map FileSettings.toJson),
      ("cache", s.cache.map CacheSettings.toJson),
      ("scan", s.scan.map ScanSettings.toJson)]

end CloneScan
