import CloneScan.Json
import CloneScan.Language

/-!
# Errors

Why an operation fails, as causes, and the wording of each cause in one place.  Errors about one
file are turned into warnings by a scan; all others end it.
-/

namespace CloneScan

/-- The code of an error. -/
inductive ErrorCode where
  | unsupportedLanguage
  | tokenizeError
  | cacheCorruption
  | configError
  | readError
  | scanAborted
  deriving DecidableEq, Repr

namespace ErrorCode

/-- Every code. -/
def all : List ErrorCode :=
  [.unsupportedLanguage, .tokenizeError, .cacheCorruption, .configError, .readError, .scanAborted]

/-- The name of a code. -/
def name : ErrorCode → Text
  | .unsupportedLanguage => Text.ofString "UNSUPPORTED_LANGUAGE"
  | .tokenizeError => Text.ofString "TOKENIZE_ERROR"
  | .cacheCorruption => Text.ofString "CACHE_CORRUPTION"
  | .configError => Text.ofString "CONFIG_ERROR"
  | .readError => Text.ofString "IO_ERROR"
  | .scanAborted => Text.ofString "SCAN_ABORTED"

/-- The code of a name. -/
def ofName? (t : Text) : Option ErrorCode :=
  all.find? (fun c => c.name == t)

/-- Whether an error of this code concerns one file only. -/
def isAboutFile : ErrorCode → Bool
  | .unsupportedLanguage | .tokenizeError | .readError => true
  | _ => false

end ErrorCode

/-- Why a source text has no tokens. -/
inductive TokenizeProblem where
  | binaryContent
  | syntaxError (language : Language)
  | missingPiece (piece : Text)
  | parserFailed (language : Language) (message : Text)
  | stated (message : Text)
  deriving DecidableEq, Repr

/-- The wording of a tokenizing problem. -/
def TokenizeProblem.message : TokenizeProblem → Text
  | .binaryContent => Text.ofString "Binary content cannot be tokenized"
  | .syntaxError language =>
    Text.ofString "Syntax error in " ++ language.tag ++ Text.ofString " source"
  | .missingPiece piece => Text.ofString "Syntax error: missing " ++ piece
  | .parserFailed language message =>
    language.tag ++ Text.ofString " parser failed: " ++ message
  | .stated message => message

/-- What a configuration field has to hold. -/
inductive FieldShape where
  | number
  | truth
  | text
  | globList
  | level
  | backend
  | mapping
  deriving DecidableEq, Repr

/-- The wording of a field shape. -/
def FieldShape.message : FieldShape → Text
  | .number => Text.ofString "a number"
  | .truth => Text.ofString "true or false"
  | .text => Text.ofString "a string"
  | .globList => Text.ofString "a list of glob strings"
  | .level => Text.ofString "one of error, warning, info, off"
  | .backend => Text.ofString "one of disk, redis, memory"
  | .mapping => Text.ofString "a mapping"

/-- Why a configuration is refused. -/
inductive ConfigFault where
  | unparsable (origin : Text)
  | noMapping (origin : Text)
  | sectionNoMapping (origin key : Text)
  | wrongShape (field : Text) (shape : FieldShape)
  | unknownFilter (place name : Text)
  | unknownLanguage (place name : Text)
  | unsupportedVersion (found : Number)
  | notPositive (field : Text) (found : Number)
  | tooFewOccurrences (field : Text) (found : Number)
  | negativeAge (found : Number)
  | badWorkers (found : Number)
  | noRedisUrl
  | stated (message : Text) (details : Option Json)

/-- The wording of a configuration fault. -/
def ConfigFault.message : ConfigFault → Text
  | .unparsable origin => Text.ofString "Failed to parse " ++ origin
  | .noMapping origin => origin ++ Text.ofString " must contain a mapping at the top level"
  | .sectionNoMapping origin key =>
    origin ++ Text.ofString ": \"" ++ key ++ Text.ofString "\" must be a mapping"
  | .wrongShape field shape => field ++ Text.ofString " must be " ++ shape.message
  | .unknownFilter place name =>
    place ++ Text.ofString ": unknown filter \"" ++ name ++ Text.ofString "\""
  | .unknownLanguage place name =>
    place ++ Text.ofString ": unknown language \"" ++ name ++ Text.ofString "\""
  | .unsupportedVersion found => Text.ofString "Unsupported config version " ++ found.text
  | .notPositive field found =>
    field ++ Text.ofString " must be a positive integer, got " ++ found.text
  | .tooFewOccurrences field found =>
    field ++ Text.ofString " must be an integer of at least 2, got " ++ found.text
  | .negativeAge found =>
    Text.ofString "cache.max_age_days must not be negative, got " ++ found.text
  | .badWorkers found =>
    Text.ofString "scan.workers must be a non-negative integer, got " ++ found.text
  | .noRedisUrl => Text.ofString "cache.backend is \"redis\" but REDIS_URL is not set"
  | .stated message _ => message

/-- An error of the library. -/
inductive Failure where
  | unsupportedLanguage (language : Text) (file : Option Text)
  | tokenize (problem : TokenizeProblem) (line : Option Nat)
  | cacheCorruption (key reason : Text)
  | config (fault : ConfigFault)
  | fileRead (file cause : Text)
  | scanAborted (completed total : Nat)
  | general (message : Text) (code : ErrorCode) (details : Option Json)

namespace Failure

/-- The code of an error. -/
def code : Failure → ErrorCode
  | .unsupportedLanguage .. => .unsupportedLanguage
  | .tokenize .. => .tokenizeError
  | .cacheCorruption .. => .cacheCorruption
  | .config .. => .configError
  | .fileRead .. => .readError
  | .scanAborted .. => .scanAborted
  | .general _ code _ => code

/-- The wording of an error. -/
def message : Failure → Text
  | .unsupportedLanguage language _ =>
    Text.ofString "No tokenizer registered for language \"" ++ language ++ Text.ofString "\""
  | .tokenize problem none => problem.message
  | .tokenize problem (some line) =>
    problem.message ++ Text.ofString " (line " ++ Text.ofNat line ++ Text.ofString ")"
  | .cacheCorruption key reason =>
    Text.ofString "Cache record " ++ key ++ Text.ofString " is unusable: " ++ reason
  | .config fault => fault.message
  | .fileRead file cause => Text.ofString "Could not read " ++ file ++ Text.ofString ": " ++ cause
  | .scanAborted completed total =>
    Text.ofString "Scan aborted after " ++ Text.ofNat completed ++ Text.ofString " of " ++
      Text.ofNat total ++ Text.ofString " files"
  | .general message _ _ => message

/-- The details that an error carries. -/
def details : Failure → Option Json
  | .unsupportedLanguage language file =>
    some (.ofFields
      (("language", .string language) ::
        (file.toList.map fun f => ("file", .string f))))
  | .tokenize _ line => some (.ofFields (line.toList.map fun n => ("line", .count n)))
  | .cacheCorruption key reason =>
    some (.ofFields [("contentHash", .string key), ("reason", .string reason)])
  | .config (.stated _ details) => details
  | .config _ => none
  | .fileRead file _ => some (.ofFields [("file", .string file)])
  | .scanAborted completed total =>
    some (.ofFields [("completed", .count completed), ("total", .count total)])
  | .general _ _ details => details

/-- An error as JSON. -/
def toJson (f : Failure) : Json :=
  .ofFields
    ([("error", .string f.message), ("code", .string f.code.name)] ++
      (f.details.toList.map fun d => ("details", d)))

/-- Whether a scan turns the error into a warning about one file. -/
def isAboutFile (f : Failure) : Bool :=
  f.code.isAboutFile

end Failure

end CloneScan
