import CloneScan.Violation

/-!
# Suppression directives

Comments of the form `twinscan-ignore-<scope> <rules>` switch reports off for a file, a line, the
next line or a block of lines.  A directive names the rules that it is for, or all of them.
-/

namespace CloneScan

/-- What a directive covers. -/
inductive SuppressionScope where
  | file
  | line
  | nextLine
  | start
  | stop
  deriving DecidableEq, Repr

namespace SuppressionScope

/-- The scopes in the order in which they are tried. -/
def all : List SuppressionScope :=
  [.file, .line, .nextLine, .start, .stop]

/-- The word of a scope. -/
def word : SuppressionScope → Text
  | .file => Text.ofString "file"
  | .line => Text.ofString "line"
  | .nextLine => Text.ofString "next-line"
  | .start => Text.ofString "start"
  | .stop => Text.ofString "end"

end SuppressionScope

/-- A directive with its line; `rules` is empty when it is for all rules and for the end of a
block. -/
structure SuppressionDirective where
  scope : SuppressionScope
  allRules : Bool
  rules : List Text
  line : Nat
  deriving DecidableEq, Repr

namespace Suppression

/-- The text in front of every scope. -/
def marker : Text :=
  Text.ofString "twinscan-ignore-"

/-- What follows `word` at the front of the text, capital and small letters being alike. -/
def afterLoosely? (word : Text) (t : Text) : Option Text :=
  if word.length ≤ t.length && Text.lower (t.take word.length) == Text.lower word then
    some (t.drop word.length)
  else none

/-- A blank inside a line. -/
def isGap (u : UInt16) : Bool :=
  u == 0x20 || u == 0x09

/-- A unit of a rule list: a word character, a comma or a gap. -/
def isRuleUnit (u : UInt16) : Bool :=
  Text.isWord u || u == 0x2C || isGap u

/-- Whether the text goes on with a word character. -/
def goesOn (t : Text) : Bool :=
  match t with
  | [] => false
  | u :: _ => Text.isWord u

/-- A directive at the front of the text: its scope, its rule list and the rest of the text. -/
def matchHere? (t : Text) : Option (SuppressionScope × Text × Text) := do
  let afterMarker ← afterLoosely? marker t
  let (scope, rest) ← SuppressionScope.all.findSome? fun s => do
    let rest ← afterLoosely? s.word afterMarker
    if goesOn rest then none else some (s, rest)
  let listed := rest.dropWhile isGap
  some (scope, listed.takeWhile isRuleUnit, listed.dropWhile isRuleUnit)

/-- The directives of a line, found from left to right without overlap. -/
def matches? : Nat → Text → List (SuppressionScope × Text)
  | 0, _ => []
  | _, [] => []
  | fuel + 1, u :: rest =>
    match matchHere? (u :: rest) with
    | some (scope, listed, after) => (scope, listed) :: matches? fuel after
    | none => matches? fuel rest

/-- The words of a rule list. -/
def ruleWords (listed : Text) : List Text :=
  (listed.splitBy fun u => u == 0x2C || Text.isBlank u).filter fun w => !w.isEmpty

/-- Whether a word stands for all rules. -/
def isAll (w : Text) : Bool :=
  w.upper == Text.ofString "ALL"

/-- The directive of a match.  A list without any known rule is none. -/
def directive? (line : Nat) (scope : SuppressionScope) (listed : Text) :
    Option SuppressionDirective :=
  if scope = .stop then some ⟨.stop, false, [], line⟩
  else
    let words := ruleWords listed.trim
    if words.isEmpty && listed.trim.isEmpty || words.any isAll then some ⟨scope, true, [], line⟩
    else
      match words.filter (· == duplicateRule) with
      | [] => none
      | rules => some ⟨scope, false, rules, line⟩

/-- The directives of one line. -/
def lineDirectives (number : Nat) (line : Text) : List SuppressionDirective :=
  if line.includes marker then
    (matches? line.length line).filterMap fun m => directive? number m.1 m.2
  else []

/-- The directives of a source text, in order. -/
def directives (source : Text) : List SuppressionDirective :=
  (source.lines.mapIdx fun i line => lineDirectives (i + 1) line).flatten

/-- Whether a directive is for a rule. -/
def appliesTo (d : SuppressionDirective) (rule : Text) : Bool :=
  d.allRules || d.rules.contains rule

/-- The suppressed line ranges of the directives.  A block without an end runs to the last line, a
start inside a block is part of it, and an end outside a block is ignored. -/
def resolve (file rule : Text) (lastLine : Nat) :
    Option Nat → List Location → List SuppressionDirective → List Location
  | none, found, [] => found
  | some line, found, [] => found ++ [⟨file, line, lastLine⟩]
  | opened, found, d :: rest =>
    if d.scope = .stop then
      match opened with
      | some line => resolve file rule lastLine none (found ++ [⟨file, line, d.line⟩]) rest
      | none => resolve file rule lastLine none found rest
    else if !appliesTo d rule then resolve file rule lastLine opened found rest
    else
      match d.scope with
      | .file => [⟨file, 1, lastLine⟩]
      | .line => resolve file rule lastLine opened (found ++ [⟨file, d.line, d.line⟩]) rest
      | .nextLine =>
        resolve file rule lastLine opened
          (found ++ [⟨file, (d.line : Int) + 1, (d.line : Int) + 1⟩]) rest
      | .start | .stop => resolve file rule lastLine (some (opened.getD d.line)) found rest

/-- The suppressed line ranges of a source text for a rule. -/
def ranges (file source rule : Text) : List Location :=
  resolve file rule source.lines.length none [] (directives source)

/-- A line number beyond every file. -/
def farLine : Nat := 9007199254740991

/-- Whether a rule is suppressed on a line. -/
def isSuppressed (rule : Text) (line : Int) (ds : List SuppressionDirective) : Bool :=
  (resolve [] rule farLine none [] ds).any fun r => r.startLine ≤ line && line ≤ r.endLine

end Suppression

end CloneScan
