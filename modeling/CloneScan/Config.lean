import CloneScan.Config.Document
import CloneScan.Glob
import CloneScan.Path
import CloneScan.Number.Reader

/-!
# Resolved configuration

Settings with every gap filled and every value checked: thresholds are positive, occurrences are at
least two, ages are not negative and workers are a count.  The environment overrides the cache
directory and the number of workers.
-/

namespace CloneScan

/-- The variables of the environment that a configuration looks at. -/
structure Environment where
  cacheDirectory : Option Text := none
  workers : Option Text := none
  redisUrl : Option Text := none

/-- The number of workers that the environment asks for; a text that spells no integer asks for
nothing. -/
def Environment.workerCount? (e : Environment) : Option Int :=
  match e.workers with
  | none => none
  | some t => if t.allBlank then none else (Number.ofText t).toInt?

/-- The thresholds that a language sets for itself, checked. -/
structure LanguageThresholds where
  lines : Option Nat
  tokens : Option Nat
  occurrences : Option Nat
  deriving DecidableEq, Repr

/-- The resolved options of duplicate detection. -/
structure DuplicateOptions where
  enabled : Bool
  thresholds : Thresholds
  languages : List (Language × LanguageThresholds)
  normalize : Bool
  level : RuleLevel
  filters : List (FilterName × Bool)
  constants : Bool
  constantOccurrences : Nat

/-- The resolved options of the cache. -/
structure CacheOptions where
  enabled : Bool
  backend : CacheBackend
  directory : Text
  maxAgeDays : Number
  keyStart : Text

/-- The resolved options of a scan. -/
structure ScanOptions where
  workers : Nat
  strict : Bool
  inlineSuppressions : Bool

/-- A resolved configuration. -/
structure Config where
  settings : Settings
  root : Text
  duplicates : DuplicateOptions
  ignore : List Text
  cache : CacheOptions
  scan : ScanOptions

namespace Config

/-! ## Checks -/

/-- A positive integer. -/
def checkPositive (field : Text) (x : Number) : Except ConfigFault Nat :=
  match x.toNat? with
  | some n => if 0 < n then .ok n else .error (.notPositive field x)
  | none => .error (.notPositive field x)

/-- A number of occurrences: an integer of at least two. -/
def checkOccurrences (field : Text) (x : Number) : Except ConfigFault Nat :=
  match x.toNat? with
  | some n => if 2 ≤ n then .ok n else .error (.tooFewOccurrences field x)
  | none => .error (.tooFewOccurrences field x)

/-- Checks a value that may be missing. -/
def checkGiven (check : Text → Number → Except ConfigFault Nat) (field : Text) :
    Option Number → Except ConfigFault (Option Nat)
  | none => .ok none
  | some x => some <$> check field x

/-- Checks the thresholds under a place. -/
def checkThresholds (place : Text) (t : ThresholdSettings) :
    Except ConfigFault LanguageThresholds := do
  let lines ← checkGiven checkPositive (place ++ Text.ofString "min_duplicate_lines") t.lines
  let tokens ← checkGiven checkPositive (place ++ Text.ofString "min_duplicate_tokens") t.tokens
  let occurrences ←
    checkGiven checkOccurrences (place ++ Text.ofString "min_occurrences") t.occurrences
  return { lines, tokens, occurrences }

/-- Checks the thresholds of a language. -/
def checkLanguage (e : Language × ThresholdSettings) :
    Except ConfigFault (Language × LanguageThresholds) := do
  let place := Text.ofString "duplicates.languages." ++ e.1.tag ++ Text.ofString "."
  return (e.1, ← checkThresholds place e.2)

/-! ## Resolution -/

/-- The thresholds of a configuration that sets none. -/
def defaultThresholds : Thresholds := ⟨3, 30, 2⟩

/-- Some thresholds where a language sets its own. -/
def override (base : Thresholds) (t : LanguageThresholds) : Thresholds :=
  ⟨t.lines.getD base.lines, t.tokens.getD base.tokens, t.occurrences.getD base.occurrences⟩

/-- Whether a filter is switched on by the settings; every filter is unless it is switched off. -/
def filterSwitch (d : DuplicateSettings) (f : FilterName) : Bool :=
  (((d.filters.getD []).find? fun e => e.1 == f).bind (·.2)).getD true

/-- Resolves the duplicate settings. -/
def resolveDuplicates (d : DuplicateSettings) : Except ConfigFault DuplicateOptions := do
  let own ← checkThresholds (Text.ofString "duplicates.") d.thresholds
  let constantOccurrences ←
    checkOccurrences (Text.ofString "duplicates.min_constant_occurrences")
      (d.constantOccurrences.getD (.finite 2))
  let languages ← (d.languages.getD []).mapM checkLanguage
  return {
    enabled := d.enabled.getD true
    thresholds := override defaultThresholds own
    languages
    normalize := d.normalize.getD false
    level := d.level.getD .warning
    filters := FilterName.all.map fun f => (f, filterSwitch d f)
    constants := d.constants.getD true
    constantOccurrences }

/-- The cache directory of a configuration that sets none. -/
def defaultDirectory : Text := Text.ofString ".twinscan-cache"

/-- What the keys of a shared cache start with when nothing is set. -/
def defaultKeyStart : Text := Text.ofString "twinscan:"

/-- Resolves the cache settings. -/
def resolveCache (environment : Environment) (root : Text) (c : CacheSettings) :
    Except ConfigFault CacheOptions :=
  let directory := (environment.cacheDirectory.or c.directory).getD defaultDirectory
  let maxAgeDays := c.maxAgeDays.getD (.finite 30)
  if maxAgeDays.lt (.finite 0) then .error (.negativeAge maxAgeDays)
  else
    .ok {
      enabled := c.enabled.getD true
      backend := c.backend.getD .disk
      directory := Path.resolve root directory
      maxAgeDays
      keyStart := c.keyStart.getD defaultKeyStart }

/-- Resolves the scan settings. -/
def resolveScan (environment : Environment) (s : ScanSettings) : Except ConfigFault ScanOptions :=
  let workers :=
    ((environment.workerCount?.map Number.ofInt).or s.workers).getD (.finite 0)
  match workers.toNat? with
  | none => .error (.badWorkers workers)
  | some workers =>
    .ok {
      workers
      strict := s.strict.getD false
      inlineSuppressions := s.inlineSuppressions.getD true }

/-- Resolves settings under an absolute root. -/
def resolve (environment : Environment) (root : Text) (settings : Settings) :
    Except ConfigFault Config := do
  if settings.version != .finite 1 then throw (.unsupportedVersion settings.version)
  let duplicates ← resolveDuplicates (settings.duplicates.getD {})
  let root := Path.resolve root []
  let cache ← resolveCache environment root (settings.cache.getD {})
  let scan ← resolveScan environment (settings.scan.getD {})
  return { settings, root, duplicates, ignore := ((settings.files.getD {}).ignore.getD []), cache,
           scan }

/-- The configuration of a text with a reader of YAML. -/
def loadWith (read : Text → Option Yaml.Document) (environment : Environment)
    (root source origin : Text) : Except ConfigFault Config := do
  resolve environment root (← Settings.parseWith read source origin)

/-- The configuration of a text. -/
def load (environment : Environment) (root source origin : Text) : Except ConfigFault Config :=
  loadWith Yaml.load? environment root source origin

/-! ## Questions to a configuration -/

/-- The thresholds of a language. -/
def thresholds (c : Config) (language : Language) : Thresholds :=
  match c.duplicates.languages.find? fun e => e.1 == language with
  | none => c.duplicates.thresholds
  | some e => override c.duplicates.thresholds e.2

/-- The level of the rule and whether it runs. -/
def rule (c : Config) : RuleConfig where
  enabled := c.duplicates.enabled && c.duplicates.level != .off
  level := c.duplicates.level

/-- The path that globs are matched with: seen from the root, with `/` between its segments. -/
def globPath (c : Config) (path : Text) : Text :=
  let seen := if Path.isAbsolute path then Path.relative c.root path else path
  seen.map fun u => if u == 0x5C then 0x2F else u

/-- Whether a file is left out, with a test of paths against globs. -/
def isIgnoredWith (c : Config) (isMatch : Text → Text → Bool) (path : Text) : Bool :=
  c.ignore.any fun pattern => isMatch pattern (c.globPath path)

/-- Whether a file is left out. -/
def isIgnored (c : Config) (path : Text) : Bool :=
  c.isIgnoredWith Glob.isMatch path

/-- Where the cache of a configuration is kept; one that is switched off lives in memory. -/
def backend (c : Config) (environment : Environment) : Except ConfigFault CacheBackend :=
  if !c.cache.enabled then .ok .memory
  else if c.cache.backend == .redis && (environment.redisUrl.getD []).isEmpty then
    .error .noRedisUrl
  else .ok c.cache.backend

/-! ## A configuration as JSON -/

/-- Thresholds as JSON. -/
def thresholdsJson (t : Thresholds) : Json :=
  .ofFields
    [("min_duplicate_lines", .count t.lines), ("min_duplicate_tokens", .count t.tokens),
      ("min_occurrences", .count t.occurrences)]

/-- The resolved duplicate options as JSON. -/
def duplicatesJson (c : Config) : Json :=
  let d := c.duplicates
  .ofFields
    [("enabled", .bool d.enabled), ("min_duplicate_lines", .count d.thresholds.lines),
      ("min_duplicate_tokens", .count d.thresholds.tokens),
      ("min_occurrences", .count d.thresholds.occurrences),
      ("languages",
        languagesJson (((c.settings.duplicates.getD {}).languages).getD [])),
      ("normalize", .bool d.normalize), ("level", .string d.level.name),
      ("filters", .object (d.filters.map fun f => (f.1.name, .bool f.2))),
      ("detect_duplicate_constants", .bool d.constants),
      ("min_constant_occurrences", .count d.constantOccurrences)]

/-- The resolved cache options as JSON. -/
def cacheJson (c : CacheOptions) : Json :=
  .ofFields
    [("enabled", .bool c.enabled), ("backend", .string c.backend.name),
      ("dir", .string c.directory), ("max_age_days", .number c.maxAgeDays),
      ("key_prefix", .string c.keyStart)]

/-- The resolved scan options as JSON. -/
def scanJson (s : ScanOptions) : Json :=
  .ofFields
    [("workers", .count s.workers), ("strict", .bool s.strict),
      ("inline_suppressions", .bool s.inlineSuppressions)]

/-- The rule configuration as JSON. -/
def ruleJson (r : RuleConfig) : Json :=
  .ofFields [("enabled", .bool r.enabled), ("level", .string r.level.name)]

end Config

end CloneScan
