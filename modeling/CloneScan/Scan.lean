import CloneScan.Cache.Store
import CloneScan.Detect
import CloneScan.Digest
import CloneScan.Suppression
import CloneScan.Text.Utf8

/-!
# Scans

A scan reads files, takes their tokens from the cache or from the tokenizer, and reports the
duplicates among them.  A file that cannot be read, has no tokenizer or does not parse becomes a
warning and takes no part.  The way of one file through the cache is a program of single calls of
the store, so calls of several files can be interleaved in any order.
-/

namespace CloneScan

/-- A tokenizer: the tokens of a text in a language, under a path. -/
abbrev Tokenizer := Text → Language → Text → Except Failure (List Token)

/-- A file to be scanned, with the tag of its language. -/
structure ScanInput where
  path : Text
  language : Text
  deriving DecidableEq, Repr

/-- A file that was left out, and why. -/
structure ScanWarning where
  file : Text
  code : ErrorCode
  message : Text

/-- How a file's record was obtained. -/
inductive CacheOutcome where
  | hit
  | miss
  | corrupt
  deriving DecidableEq, Repr

/-- What became of a file. -/
inductive FileOutcome where
  | analyzed (file : AnalyzedFile) (key : Text) (cache : CacheOutcome) (suppressed : List Location)
  | skipped (warning : ScanWarning)
  | aborted

/-! ## The way of one file -/

/-- A call of the store by a file. -/
inductive FileCall where
  | get (key : Text)
  | put (key : Text) (value : CacheRecord)
  | recordSeen (path key : Text)

/-- What the store answers to a call. -/
def FileCall.Reply : FileCall → Type
  | .get _ => Lookup
  | .put .. => Unit
  | .recordSeen .. => Unit

/-- The rest of the way of a file: calls of the store, notes, and an outcome. -/
inductive FileTask where
  | done (outcome : FileOutcome)
  | say (note : Note) (next : FileTask)
  | call (c : FileCall) (next : Except StoreFault c.Reply → FileTask)

namespace FileTask

/-- A warning note with fields. -/
def warning (message : Text) (fields : List (String × Text)) : Note where
  level := .warn
  message := message
  fields := fields.map fun f => (f.1, .string f.2)

/-- Leaves a file out because of an error. -/
def skip (path : Text) (failure : Failure) : FileTask :=
  .say
    (warning (Text.ofString "[Scan] Skipping " ++ path)
      [("code", failure.code.name), ("error", failure.message)])
    (.done (.skipped ⟨path, failure.code, failure.message⟩))

/-- Everything about a file that its way through the cache depends on. -/
structure Subject where
  path : Text
  language : Language
  source : Text
  key : Text
  params : RecordParams
  createdAt : Nat
  suppressed : List Location

/-- The window hashes of tokens. -/
def hashesOf (params : RecordParams) (tokens : List Token) : List Nat :=
  (windowHashes (tokenKeys tokens params.normalize) params.window).map (·.toNat)

/-- Notes that the file was seen, and ends. -/
def finish (s : Subject) (tokens : List Token) (hashes : List Nat) (cache : CacheOutcome) :
    FileTask :=
  let outcome : FileTask :=
    .done (.analyzed ⟨s.path, s.language, s.source, tokens, hashes⟩ s.key cache s.suppressed)
  .call (.recordSeen s.path s.key) fun
    | .ok _ => outcome
    | .error fault =>
      .say
        (warning (Text.ofString "[Scan] Could not update cache index")
          [("file", s.path), ("error", fault.message)])
        outcome

/-- Computes the tokens and puts their record into the store. -/
def compute (tokenizer : Tokenizer) (s : Subject) (cache : CacheOutcome) : FileTask :=
  match tokenizer s.source s.language s.path with
  | .error failure => skip s.path failure
  | .ok tokens =>
    let hashes := hashesOf s.params tokens
    let rest := finish s tokens hashes cache
    .call (.put s.key ⟨s.params, tokens, hashes, s.createdAt⟩) fun
      | .ok _ => rest
      | .error fault =>
        .say
          (warning (Text.ofString "[Scan] Cache write failed")
            [("file", s.path), ("error", fault.message)])
          rest

/-- Goes on without a usable record. -/
def recompute (tokenizer : Tokenizer) (s : Subject) (reason : CorruptReason) : FileTask :=
  .say
    (warning (Text.ofString "[Scan] Cache record unusable, recomputing")
      [("file", s.path), ("reason", reason.text)])
    (compute tokenizer s .corrupt)

/-- Goes on with what the store found: a record of another grammar is not usable, and one with
another window has usable tokens but no usable hashes. -/
def resume (tokenizer : Tokenizer) (s : Subject) : Except StoreFault Lookup → FileTask
  | .error fault =>
    .say
      (warning (Text.ofString "[Scan] Cache lookup failed, recomputing")
        [("key", s.key), ("error", fault.message)])
      (compute tokenizer s .miss)
  | .ok .miss => compute tokenizer s .miss
  | .ok (.corrupt reason) => recompute tokenizer s reason
  | .ok (.hit found) =>
    if found.params.sameDialect s.params then
      finish s found.tokens
        (if found.params.same s.params then found.hashes else hashesOf s.params found.tokens) .hit
    else recompute tokenizer s (.otherGrammar found.params.language found.params.dialect)

/-- The ranges that comments in a file suppress. -/
def inlineSuppressed (config : Config) (path source : Text) : List Location :=
  if config.scan.inlineSuppressions && source.includes Suppression.marker then
    Suppression.ranges path source duplicateRule
  else []

/-- What the way of a readable file depends on. -/
def subject (config : Config) (now : Nat) (path : Text) (language : Language)
    (bytes : List UInt8) : Subject :=
  let dialect := (language.dialect (some path)).name
  let source := Text.ofUtf8 bytes
  { path
    language
    source
    key := cacheKey (contentHash bytes) dialect
    params := ⟨language, dialect, (config.thresholds language).tokens, config.duplicates.normalize⟩
    createdAt := now
    suppressed := inlineSuppressed config path source }

/-- The way of a file whose bytes were read or could not be read. -/
def start (config : Config) (tokenizer : Tokenizer) (now : Nat) (input : ScanInput)
    (content : Except FileFault (List UInt8)) : FileTask :=
  match Language.ofTag? input.language with
  | none => skip input.path (.unsupportedLanguage input.language (some input.path))
  | some language =>
    match content with
    | .error fault => skip input.path (.fileRead input.path fault.code)
    | .ok bytes =>
      let s := subject config now input.path language bytes
      .call (.get s.key) fun found => resume tokenizer s found

end FileTask

namespace FileCall

/-- Makes a call of a store. -/
def perform {σ : Type} (store : CacheStore σ) : (c : FileCall) → StoreM σ c.Reply
  | .get key => store.get key
  | .put key value => store.put key value.toJson
  | .recordSeen path key => store.recordSeen path key

/-- Whether a call notes that a file was seen. -/
def isSeen : FileCall → Bool
  | .recordSeen .. => true
  | _ => false

end FileCall

/-! ## The files in turn -/

/-- How far a scan has come: its surroundings, and how many files it noted as seen. -/
structure ScanState (σ : Type) where
  around : Surroundings σ
  seen : Nat

namespace ScanState

variable {σ : Type}

/-- Says something to the log. -/
def say (s : ScanState σ) (note : Note) : ScanState σ :=
  { s with around := { s.around with notes := s.around.notes ++ [note] } }

/-- Makes a call of a store. -/
def call (s : ScanState σ) (store : CacheStore σ) (c : FileCall) :
    Except StoreFault c.Reply × ScanState σ :=
  let (reply, around) := ((c.perform store).run).run s.around
  (reply, { around, seen := if c.isSeen then s.seen + 1 else s.seen })

/-- Runs the rest of the way of a file without interruption. -/
def runTask (s : ScanState σ) (store : CacheStore σ) : FileTask → FileOutcome × ScanState σ
  | .done outcome => (outcome, s)
  | .say note next => runTask (s.say note) store next
  | .call c next =>
    let (reply, s) := s.call store c
    runTask s store (next reply)

end ScanState

/-- What a scan is run with.  It is cut short before the first file that starts after `abortAfter`
files were noted as seen, and `isMatch` tests a path against a glob. -/
structure ScanJob where
  config : Config
  tokenizer : Tokenizer
  suppressed : List Location
  filters : Option FilterRegistry
  abortAfter : Option Nat
  isMatch : Text → Text → Bool := Glob.isMatch

namespace ScanJob

/-- Whether a file is left out of a scan. -/
def isIgnored (job : ScanJob) (path : Text) : Bool :=
  job.config.isIgnoredWith job.isMatch path

/-- Whether a scan is cut short once so many files were noted as seen. -/
def isAborted (job : ScanJob) (seen : Nat) : Bool :=
  match job.abortAfter with
  | none => false
  | some n => n ≤ seen

/-- The whole milliseconds of a time. -/
def millis (now : Number) : Nat :=
  now.toNat?.getD 0

/-- Where the file of an input stands. -/
def pathOf (job : ScanJob) (input : ScanInput) : List Text :=
  Path.normalSegments (Path.resolve job.config.root input.path)

/-- Runs the files one after the other. -/
def runFiles {σ : Type} (job : ScanJob) (store : CacheStore σ) :
    ScanState σ → List ScanInput → List FileOutcome × ScanState σ
  | s, [] => ([], s)
  | s, input :: rest =>
    let (outcome, s) :=
      if job.isAborted s.seen then (.aborted, s)
      else
        s.runTask store
          (FileTask.start job.config job.tokenizer (millis s.around.now) input
            (s.around.files.read (job.pathOf input)))
    let (more, s) := runFiles job store s rest
    (outcome :: more, s)

end ScanJob

/-! ## The whole scan -/

/-- The numbers of a scan. -/
structure ScanStats where
  filesTotal : Nat
  filesScanned : Nat
  filesIgnored : Nat
  filesSkipped : Nat
  cacheHits : Nat
  cacheMisses : Nat
  cacheCorrupt : Nat
  cachePruned : Nat
  tokens : Nat
  deriving DecidableEq, Repr

/-- What a scan reports. -/
structure ScanResult where
  violations : List Violation
  warnings : List ScanWarning
  stats : ScanStats
  failed : Bool

namespace FileOutcome

/-- The analyzed file of an outcome. -/
def file? : FileOutcome → Option AnalyzedFile
  | .analyzed file .. => some file
  | _ => none

/-- The record key of an outcome. -/
def key? : FileOutcome → Option Text
  | .analyzed _ key .. => some key
  | _ => none

/-- The suppressed ranges of an outcome. -/
def suppressed : FileOutcome → List Location
  | .analyzed _ _ _ suppressed => suppressed
  | _ => []

/-- The warning of an outcome. -/
def warning? : FileOutcome → Option ScanWarning
  | .skipped warning => some warning
  | _ => none

/-- Whether an outcome is that of a file that was not started. -/
def isAborted : FileOutcome → Bool
  | .aborted => true
  | _ => false

/-- Whether a file's record was obtained in a way. -/
def hasCache (cache : CacheOutcome) : FileOutcome → Bool
  | .analyzed _ _ c _ => c == cache
  | _ => false

end FileOutcome

/-- The inputs without repeated paths: the last input of a path at the place of the first. -/
def uniqueInputs (inputs : List ScanInput) : List ScanInput :=
  inputs.foldl
    (fun kept input =>
      if kept.any fun k => k.path == input.path then
        kept.map fun k => if k.path == input.path then input else k
      else kept ++ [input])
    []

/-- Runs a maintenance step of a store; a failure is only noted. -/
def maintain {σ α : Type} (step : String) (run : StoreM σ α) (fallback : α)
    (around : Surroundings σ) : α × Surroundings σ :=
  match run.run.run around with
  | (.ok a, around) => (a, around)
  | (.error fault, around) =>
    let note :=
      FileTask.warning
        (Text.ofString "[Scan] Cache " ++ Text.ofString step ++ Text.ofString " failed")
        [("error", fault.message)]
    (fallback, { around with notes := around.notes ++ [note] })

/-- The note at the end of a scan. -/
def completeNote (r : ScanResult) : Note where
  level := .info
  message := Text.ofString "[Scan] Complete"
  fields :=
    [("status", .word (if r.failed then "fail" else "pass")),
      ("violations", .count r.violations.length), ("warnings", .count r.warnings.length),
      ("filesScanned", .count r.stats.filesScanned), ("cacheHits", .count r.stats.cacheHits),
      ("cacheMisses", .count r.stats.cacheMisses), ("durationMs", .count 0)]

namespace ScanJob

/-- The report on the outcomes of all files. -/
def report (job : ScanJob) (unique included : List ScanInput) (outcomes : List FileOutcome)
    (pruned : Nat) : ScanResult :=
  let files := outcomes.filterMap FileOutcome.file?
  let suppressed := job.suppressed ++ outcomes.flatMap FileOutcome.suppressed
  let warnings := outcomes.filterMap FileOutcome.warning?
  let filters := job.filters.getD (Detect.filtersOf job.config)
  let violations := (detectWith files job.config suppressed filters).1
  { violations
    warnings
    stats :=
      { filesTotal := unique.length
        filesScanned := files.length
        filesIgnored := unique.length - included.length
        filesSkipped := warnings.length
        cacheHits := outcomes.countP (FileOutcome.hasCache .hit)
        cacheMisses := outcomes.countP (FileOutcome.hasCache .miss)
        cacheCorrupt := outcomes.countP (FileOutcome.hasCache .corrupt)
        cachePruned := pruned
        tokens := files.foldl (fun n f => n + f.tokens.length) 0 }
    failed := !violations.isEmpty || (job.config.scan.strict && !warnings.isEmpty) }

/-- The inputs that a scan reads: each path once, and none that is ignored. -/
def included (job : ScanJob) (inputs : List ScanInput) : List ScanInput :=
  (uniqueInputs inputs).filter fun input => !job.isIgnored input.path

/-- Ends a scan once every file has an outcome. -/
def conclude {σ : Type} (job : ScanJob) (store : CacheStore σ) (inputs : List ScanInput)
    (outcomes : List FileOutcome) (around : Surroundings σ) :
    Except Failure ScanResult × Surroundings σ :=
  let included := job.included inputs
  let aborted := outcomes.countP FileOutcome.isAborted
  if 0 < aborted then
    let (_, around) := maintain "flush" store.flush () around
    (.error (.scanAborted (included.length - aborted) included.length), around)
  else
    let (pruned, around) :=
      if job.config.cache.enabled then
        maintain "prune"
          (store.prune ⟨outcomes.filterMap FileOutcome.key?, job.config.cache.maxAgeDays⟩) 0
          around
      else (0, around)
    let (_, around) := maintain "flush" store.flush () around
    let result := job.report (uniqueInputs inputs) included outcomes pruned
    (.ok result, { around with notes := around.notes ++ [completeNote result] })

/-- Scans inputs with a store. -/
def run {σ : Type} (job : ScanJob) (store : CacheStore σ) (inputs : List ScanInput)
    (around : Surroundings σ) : Except Failure ScanResult × Surroundings σ :=
  let (outcomes, s) := job.runFiles store ⟨around, 0⟩ (job.included inputs)
  job.conclude store inputs outcomes s.around

end ScanJob

/-- Removes every record of a store. -/
def clearCache {σ : Type} (store : CacheStore σ) (config : Config) : StoreM σ Unit := do
  store.clear
  StoreM.say
    { level := .info
      message := Text.ofString "[Cache] Cleared"
      fields := [("backend", .string config.cache.backend.name)] }

end CloneScan
