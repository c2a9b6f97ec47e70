import CloneScan.Clock
import CloneScan.Json.Printer

/-!
# Log lines

A log line has a time, a level, a message and perhaps some fields.  In production it is one JSON
object; elsewhere it is a readable line.  Lines below a threshold are not printed.
-/

namespace CloneScan

/-- The levels of log lines, from the least to the most important. -/
inductive LogLevel where
  | debug
  | info
  | warn
  | error
  deriving DecidableEq, Repr

namespace LogLevel

/-- Every level. -/
def all : List LogLevel :=
  [.debug, .info, .warn, .error]

/-- The name of a level. -/
def name : LogLevel → Text
  | .debug => Text.ofString "debug"
  | .info => Text.ofString "info"
  | .warn => Text.ofString "warn"
  | .error => Text.ofString "error"

/-- The level of a name. -/
def ofName? (t : Text) : Option LogLevel :=
  all.find? (fun l => l.name == t)

/-- The importance of a level. -/
def rank : LogLevel → Nat
  | .debug => 10
  | .info => 20
  | .warn => 30
  | .error => 40

end LogLevel

/-- Where the program runs, which decides the form of its log lines. -/
inductive LogStage where
  | production
  | test
  | development
  deriving DecidableEq, Repr

/-- The stage that a name stands for. -/
def LogStage.ofName (name : Option Text) : LogStage :=
  if name == some (Text.ofString "production") then .production
  else if name == some (Text.ofString "test") then .test
  else .development

/-- The stage and the asked level of a logger. -/
structure LogSettings where
  stage : LogStage
  level : Option Text

/-- The least level that is printed: the asked one if it is a level, else one by stage. -/
def LogSettings.threshold (s : LogSettings) : LogLevel :=
  match s.level.bind fun t => LogLevel.ofName? t.lower with
  | some level => level
  | none =>
    match s.stage with
    | .test => .error
    | .production => .info
    | .development => .debug

/-- A line that was printed, with its level. -/
structure LogLine where
  level : LogLevel
  text : Text
  deriving DecidableEq, Repr

/-- The text of a log line. -/
def formatLog (stage : LogStage) (now : Int) (level : LogLevel) (message : Text)
    (fields : Option Json.Fields) : Text :=
  let time := Clock.stamp now
  match stage with
  | .production =>
    let base : Json.Fields :=
      [(Text.ofString "timestamp", .string time), (Text.ofString "level", .string level.name),
        (Text.ofString "message", .string message)]
    (Json.object (Json.fieldsOf (base ++ fields.getD []))).render
  | _ =>
    Text.ofString "[" ++ time ++ Text.ofString "] " ++ level.name.upper ++ Text.ofString " " ++
      message ++
      (match fields with
        | none => []
        | some fields => Text.ofString " " ++ (Json.object fields).render)

/-- What one call of the logger prints. -/
def log (s : LogSettings) (now : Int) (level : LogLevel) (message : Text)
    (fields : Option Json.Fields) : List LogLine :=
  if s.threshold.rank ≤ level.rank then [⟨level, formatLog s.stage now level message fields⟩]
  else []

end CloneScan
