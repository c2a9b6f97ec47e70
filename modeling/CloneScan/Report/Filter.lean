import CloneScan.Clone.Cluster
import CloneScan.Number
import CloneScan.Report.ImportLines

/-!
# Block filters

Filters drop duplicated blocks that are not worth a report: groups of imports, and lists of keyword
arguments inside one call.  They look at the first occurrence of a cluster.  A filter remembers,
per path, what it derived from a file the first time it saw it, and a registry holds the filters
together with the names that are switched on.
-/

namespace CloneScan

/-- The name under which a filter is switched. -/
inductive FilterName where
  | importGroup
  | keywordArgument
  deriving DecidableEq, Repr

namespace FilterName

/-- Every name, sorted. -/
def all : List FilterName :=
  [.importGroup, .keywordArgument]

/-- The spelled name. -/
def name : FilterName → Text
  | .importGroup => Text.ofString "import_group_filter"
  | .keywordArgument => Text.ofString "keyword_argument_filter"

/-- The filter name of a text. -/
def ofName? (t : Text) : Option FilterName :=
  all.find? (fun f => f.name == t)

end FilterName

/-- A span of lines, both included. -/
structure LineSpan where
  startLine : Int
  endLine : Int
  deriving DecidableEq, Repr

/-- What a filter may look at. -/
structure FilterContext where
  language : Option Language
  source : Text → Option Text
  tokens : Text → Option (List Token)

/-! ## Import groups -/

/-- Whether every line of the span that is not blank is marked. -/
def onlyMarked (span : LineSpan) (marks : List Bool) : Int → List Text → Bool
  | _, [] => true
  | number, line :: rest =>
    (number < span.startLine || span.endLine < number || line.allBlank ||
        marks.getD (number - 1).toNat false) &&
      onlyMarked span marks (number + 1) rest

/-! ## Keyword arguments -/

/-- A line end that a single line may still hold. -/
def isLineEnd (u : UInt16) : Bool :=
  u == 0x0A || u == 0x0D || u == 0x2028 || u == 0x2029

/-- Whether a line looks like `name = value`, perhaps with a comma: a word, an equals sign that no
second one follows, and then something besides line ends. -/
def isKeywordArgument (line : Text) : Bool :=
  let start := line.trimLeft
  let after : Text := Text.trimLeft (start.dropWhile Text.isWord)
  start.continuesWord &&
    match after with
    | 0x3D :: 0x3D :: _ => false
    | 0x3D :: value =>
      let core := Text.trim value
      if core.isEmpty then value.any (fun u => !isLineEnd u) else !core.any isLineEnd
    | _ => false

/-- The state of the search for calls: open parentheses, innermost first, each with its line and
whether it opens a call; the calls found; and whether the last token can be called. -/
structure CallSearch where
  opened : List (Nat × Bool)
  calls : List LineSpan
  callable : Bool

/-- Takes one token into the search. -/
def CallSearch.step (s : CallSearch) (t : Token) : CallSearch :=
  let callable := t.kind == .identifier || t.text == [0x29] || t.text == [0x5D]
  if t.kind != .symbol then { s with callable }
  else if t.text == [0x28] then { s with opened := (t.startLine, s.callable) :: s.opened, callable }
  else if t.text == [0x29] then
    match s.opened with
    | [] => { s with callable }
    | (line, isCall) :: rest =>
      if isCall && line < t.endLine then
        { opened := rest, calls := s.calls ++ [⟨line, t.endLine⟩], callable }
      else { s with opened := rest, callable }
  else { s with callable }

/-- The spans of the calls that go over several lines, in the order of their closing parenthesis.
A parenthesis opens a call when it follows an identifier or a closing bracket. -/
def multiLineCalls (tokens : List Token) : List LineSpan :=
  (tokens.foldl CallSearch.step ⟨[], [], false⟩).calls

/-- The items from `start` up to `stop`, where a negative index counts from the end. -/
def sliceSigned {α : Type} (items : List α) (start stop : Int) : List α :=
  let size : Int := items.length
  let place (i : Int) : Nat := (if i < 0 then max 0 (size + i) else min i size).toNat
  (items.drop (place start)).take (place stop - place start)

/-! ## Filters and their memory -/

/-- A filter with what it remembers per path. -/
inductive BlockFilter where
  | importGroup (memory : List (Text × List Bool))
  | keywordArgument (share : Number) (memory : List (Text × List LineSpan))

/-- The value remembered for a path, or the computed one and the memory that holds it. -/
def remembered {α : Type} (memory : List (Text × α)) (path : Text) (compute : Unit → α) :
    α × List (Text × α) :=
  match memory.find? (fun e => e.1 == path) with
  | some e => (e.2, memory)
  | none =>
    let value := compute ()
    (value, memory ++ [(path, value)])

namespace BlockFilter

/-- The name of a filter. -/
def name : BlockFilter → FilterName
  | .importGroup _ => .importGroup
  | .keywordArgument .. => .keywordArgument

/-- Whether the filter drops a block whose first occurrence is `primary`, and the filter with what
it remembers afterwards. -/
def judge (f : BlockFilter) (primary : Location) (ctx : FilterContext) : Bool × BlockFilter :=
  match ctx.source primary.file with
  | none => (false, f)
  | some source =>
    match f with
    | .importGroup memory =>
      let (marks, memory) :=
        remembered memory primary.file fun _ => importLines source ctx.language
      (onlyMarked ⟨primary.startLine, primary.endLine⟩ marks 1 source.lines, .importGroup memory)
    | .keywordArgument share memory =>
      let lines := sliceSigned source.lines (primary.startLine - 1) primary.endLine
      let hits := (lines.filter isKeywordArgument).length
      if lines.isEmpty || Number.lt (Number.round (mkRat hits lines.length)) share then (false, f)
      else
        let (calls, memory) :=
          remembered memory primary.file fun _ => multiLineCalls ((ctx.tokens primary.file).getD [])
        (calls.any fun c => c.startLine ≤ primary.startLine && primary.endLine ≤ c.endLine,
          .keywordArgument share memory)

end BlockFilter

/-! ## Registry -/

/-- Filters in the order of registration and the names that are switched on. -/
structure FilterRegistry where
  filters : List BlockFilter
  enabled : List FilterName

namespace FilterRegistry

/-- No filter, and nothing switched on. -/
def empty : FilterRegistry := ⟨[], []⟩

/-- Switches a name on. -/
def enable (r : FilterRegistry) (n : FilterName) : FilterRegistry :=
  if r.enabled.contains n then r else { r with enabled := r.enabled ++ [n] }

/-- Switches a name off. -/
def disable (r : FilterRegistry) (n : FilterName) : FilterRegistry :=
  { r with enabled := r.enabled.filter (· != n) }

/-- Adds a filter and switches its name on. -/
def register (r : FilterRegistry) (f : BlockFilter) : FilterRegistry :=
  enable { r with filters := r.filters ++ [f] } f.name

/-- The names that are switched on, sorted. -/
def enabledNames (r : FilterRegistry) : List FilterName :=
  FilterName.all.filter r.enabled.contains

/-- Asks the enabled filters in turn until one drops the block. -/
def judgeAll (enabled : List FilterName) (primary : Location) (ctx : FilterContext) :
    List BlockFilter → Bool × List BlockFilter
  | [] => (false, [])
  | f :: rest =>
    if enabled.contains f.name then
      match f.judge primary ctx with
      | (true, f) => (true, f :: rest)
      | (false, f) =>
        let (answer, rest) := judgeAll enabled primary ctx rest
        (answer, f :: rest)
    else
      let (answer, rest) := judgeAll enabled primary ctx rest
      (answer, f :: rest)

/-- Whether some enabled filter drops a block at these places; the first place decides. -/
def shouldFilter (r : FilterRegistry) (places : List Location) (ctx : FilterContext) :
    Bool × FilterRegistry :=
  match places with
  | [] => (false, r)
  | primary :: _ =>
    let (answer, filters) := judgeAll r.enabled primary ctx r.filters
    (answer, { r with filters })

/-- The share of keyword lines that makes a block a list of keyword arguments: four fifths. -/
def defaultShare : Number :=
  Number.ofDecimal 8 1 (-1)

/-- The built-in filters, without the names that are switched off. -/
def builtIn (switchedOff : FilterName → Bool) : FilterRegistry :=
  let r := (empty.register (.keywordArgument defaultShare [])).register (.importGroup [])
  (FilterName.all.filter switchedOff).foldl disable r

end FilterRegistry

end CloneScan
