import CloneScan.Config.Settings
import CloneScan.Error
import CloneScan.Yaml

/-!
# Configuration documents

Reads settings from a YAML text, whatever reads the text.  A field that is absent or null is not
set; a field of the wrong shape, an unknown language and an unknown filter are refused.  Fields are
read in a fixed order, so the first fault in that order is the one that is named.
-/

namespace CloneScan

namespace Settings

/-- A reading that may be refused. -/
abbrev Reading (α : Type) := Except ConfigFault α

/-- The value of a field; a null value counts as absent. -/
def given? (fields : Yaml.Fields) (key : Text) : Option Yaml.Value :=
  match Json.getField fields key with
  | some .null => none
  | other => other

/-- Reads a field whose value has to have a shape. -/
def readField {α : Type} (shape : FieldShape) (read : Yaml.Value → Option α) (fields : Yaml.Fields)
    (place key : Text) : Reading (Option α) :=
  match given? fields key with
  | none => .ok none
  | some v =>
    match read v with
    | some x => .ok (some x)
    | none => .error (.wrongShape (place ++ Text.ofString "." ++ key) shape)

/-- The number of a value that is one. -/
def properNumber? (v : Yaml.Value) : Option Number :=
  match v with
  | .number .nan => none
  | .number x => some x
  | _ => none

/-- The texts of a list of texts. -/
def texts? (v : Yaml.Value) : Option (List Text) :=
  v.array?.bind fun items => items.mapM Yaml.Value.string?

/-- Reads a number. -/
def readNumber (fields : Yaml.Fields) (place : Text) (key : String) : Reading (Option Number) :=
  readField .number properNumber? fields place (Text.ofString key)

/-- Reads a truth value. -/
def readTruth (fields : Yaml.Fields) (place : Text) (key : String) : Reading (Option Bool) :=
  readField .truth Yaml.Value.bool? fields place (Text.ofString key)

/-- Reads a text. -/
def readText (fields : Yaml.Fields) (place : Text) (key : String) : Reading (Option Text) :=
  readField .text Yaml.Value.string? fields place (Text.ofString key)

/-- Reads the thresholds of a section. -/
def readThresholds (fields : Yaml.Fields) (place : Text) : Reading ThresholdSettings := do
  let lines ← readNumber fields place "min_duplicate_lines"
  let tokens ← readNumber fields place "min_duplicate_tokens"
  let occurrences ← readNumber fields place "min_occurrences"
  return { lines, tokens, occurrences }

/-- The fields of a value that has to count as a mapping. -/
def readRecord (fault : ConfigFault) (v : Yaml.Value) : Reading Yaml.Fields :=
  match v.record? with
  | some fields => .ok fields
  | none => .error fault

/-- Reads the thresholds of one language. -/
def readLanguage (place : Text) (entry : Text × Yaml.Value) :
    Reading (Language × ThresholdSettings) :=
  match Language.ofTag? entry.1 with
  | none => .error (.unknownLanguage place entry.1)
  | some language => do
    let place := place ++ Text.ofString "." ++ entry.1
    let fields ← readRecord (.wrongShape place .mapping) entry.2
    return (language, ← readThresholds fields place)

/-- Reads the thresholds of languages. -/
def readLanguages (fields : Yaml.Fields) (place : Text) :
    Reading (Option (List (Language × ThresholdSettings))) := do
  match ← readField .mapping Yaml.Value.record? fields place (Text.ofString "languages") with
  | none => return none
  | some entries => some <$> entries.mapM (readLanguage (place ++ Text.ofString ".languages"))

/-- Reads one filter switch. -/
def readFilter (entries : Yaml.Fields) (place name : Text) :
    Reading (FilterName × Option Bool) :=
  match FilterName.ofName? name with
  | none => .error (.unknownFilter place name)
  | some filter => (readField .truth Yaml.Value.bool? entries place name).map fun b => (filter, b)

/-- Reads the filter switches. -/
def readFilters (fields : Yaml.Fields) (place : Text) :
    Reading (Option (List (FilterName × Option Bool))) := do
  match ← readField .mapping Yaml.Value.record? fields place (Text.ofString "filters") with
  | none => return none
  | some entries =>
    some <$> entries.mapM fun e => readFilter entries (place ++ Text.ofString ".filters") e.1

/-- Reads the level of the rule. -/
def readLevel (fields : Yaml.Fields) (place : Text) : Reading (Option RuleLevel) :=
  readField .level (fun v => v.string?.bind RuleLevel.ofName?) fields place (Text.ofString "level")

/-- Reads the backend of the cache. -/
def readBackend (fields : Yaml.Fields) (place : Text) : Reading (Option CacheBackend) :=
  readField .backend (fun v => v.string?.bind CacheBackend.ofName?) fields place
    (Text.ofString "backend")

/-- Reads the duplicate settings. -/
def readDuplicates (fields : Yaml.Fields) (place : Text) : Reading DuplicateSettings := do
  let enabled ← readTruth fields place "enabled"
  let thresholds ← readThresholds fields place
  let languages ← readLanguages fields place
  let normalize ← readTruth fields place "normalize"
  let level ← readLevel fields place
  let filters ← readFilters fields place
  let constants ← readTruth fields place "detect_duplicate_constants"
  let constantOccurrences ← readNumber fields place "min_constant_occurrences"
  return { enabled, thresholds, languages, normalize, level, filters, constants,
           constantOccurrences }

/-- Reads the file settings. -/
def readFiles (fields : Yaml.Fields) (place : Text) : Reading FileSettings := do
  let ignore ← readField .globList texts? fields place (Text.ofString "ignore")
  return { ignore }

/-- Reads the cache settings. -/
def readCache (fields : Yaml.Fields) (place : Text) : Reading CacheSettings := do
  let enabled ← readTruth fields place "enabled"
  let backend ← readBackend fields place
  let directory ← readText fields place "dir"
  let maxAgeDays ← readNumber fields place "max_age_days"
  let keyStart ← readText fields place "key_prefix"
  return { enabled, backend, directory, maxAgeDays, keyStart }

/-- Reads the scan settings. -/
def readScan (fields : Yaml.Fields) (place : Text) : Reading ScanSettings := do
  let workers ← readNumber fields place "workers"
  let strict ← readTruth fields place "strict"
  let inlineSuppressions ← readTruth fields place "inline_suppressions"
  return { workers, strict, inlineSuppressions }

/-- Reads a section, which has to be a mapping when it is given. -/
def readSection {α : Type} (document : Yaml.Fields) (origin : Text) (key : String)
    (read : Yaml.Fields → Text → Reading α) : Reading (Option α) :=
  let key := Text.ofString key
  match given? document key with
  | none => .ok none
  | some v => do
    let fields ← readRecord (.sectionNoMapping origin key) v
    some <$> read fields (origin ++ Text.ofString ": " ++ key)

/-- Reads the settings of a mapping. -/
def ofFields (document : Yaml.Fields) (origin : Text) : Reading Settings := do
  let version ← readNumber document origin "version"
  let duplicates ← readSection document origin "duplicates" readDuplicates
  let files ← readSection document origin "files" readFiles
  let cache ← readSection document origin "cache" readCache
  let scan ← readSection document origin "scan" readScan
  return { version := version.getD (.finite 1), duplicates, files, cache, scan }

/-- Reads the settings of a loaded document; an empty one sets nothing. -/
def ofDocument (document : Yaml.Document) (origin : Text) : Reading Settings :=
  match document with
  | .empty | .value .null => .ok {}
  | .value v => do ofFields (← readRecord (.noMapping origin) v) origin

/-- Reads settings from a text with a reader of YAML. -/
def parseWith (read : Text → Option Yaml.Document) (source origin : Text) : Reading Settings :=
  match read source with
  | none => .error (.unparsable origin)
  | some document => ofDocument document origin

end Settings

end CloneScan
