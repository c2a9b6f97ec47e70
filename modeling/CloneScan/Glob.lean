import CloneScan.Glob.Brace
import CloneScan.Glob.Piece

/-!
# Glob patterns for paths

A pattern is expanded at its braces, split at slashes, and matched segment by segment; `**` stands
for any number of segments.  A leading `!` negates the pattern, a leading `#` makes it a comment
that matches nothing, and hidden files are files like all others.
-/

namespace CloneScan

namespace Glob

/-- The pattern of one path segment. -/
inductive Segment where
  /-- Any number of segments. -/
  | globstar
  | exactly (text : Text)
  | pieces (pieces : List Piece)
  /-- A run of stars before a plain ending. -/
  | ending (tail : Text)

/-- A unit that has a meaning in patterns, so that a tail with it is not plain. -/
def isMagicUnit (u : UInt16) : Bool :=
  u == 0x2B || u == 0x40 || u == 0x21 || u == 0x3F || u == 0x2A || u == 0x5B || u == 0x28

/-- The segment pattern of a text. -/
def Segment.ofText (t : Text) : Segment :=
  if t == [0x2A, 0x2A] then .globstar
  else
    match literal? (segmentPieces t) with
    | some text => .exactly text
    | none =>
      let tail := dropStars t
      if tail.length < t.length && !tail.isEmpty && !tail.any isMagicUnit then .ending tail
      else .pieces (segmentPieces t)

/-- Whether a segment pattern other than `**` matches a segment. -/
def Segment.accepts (s : Segment) (t : Text) : Bool :=
  match s with
  | .globstar => false
  | .exactly text => text == t
  | .ending tail => t.endsWith tail
  | .pieces ps =>
    !isDots t &&
      matchPieces ((Piece.size (.group .once [ps]) + 1) * (t.length + 2)) ps List.isEmpty t

/-- The segments of a path: what stands between runs of slashes. -/
def splitSlashes : Text → List Text
  | [] => [[]]
  | u :: rest =>
    if u == 0x2F then
      match rest with
      | 0x2F :: _ => splitSlashes rest
      | _ => [] :: splitSlashes rest
    else
      match splitSlashes rest with
      | [] => [[u]]
      | s :: more => (u :: s) :: more

/-- Takes a segment into the simplified pattern, last first: a repeated `**` is one, and `..` takes
the segment before it away unless that is `.`, `..` or `**`. -/
def simplifyStep (stack : List Text) (s : Text) : List Text :=
  match stack with
  | [] => [s]
  | last :: before =>
    if s == [0x2A, 0x2A] && last == [0x2A, 0x2A] then stack
    else if s == [0x2E, 0x2E] && !last.isEmpty && last != [0x2E, 0x2E] && last != [0x2E] &&
        last != [0x2A, 0x2A] then before
    else s :: stack

/-- A simplified segment pattern; an empty one is a single empty segment. -/
def simplify (segments : List Text) : List Text :=
  match (segments.foldl simplifyStep []).reverse with
  | [] => [[]]
  | segments => segments

/-- What `**` can leave of the segments of a path when at least one more segment has to follow: it
never takes `.` or `..`. -/
def reachable : List Text → List (List Text)
  | [] => []
  | t :: ts => (t :: ts) :: if isDots t then [] else reachable ts

/-- Whether segment patterns match the segments of a path.  An empty last segment of the path may
be left over. -/
def matchSegments : List Segment → List Text → Bool
  | [], [] => true
  | [], [t] => t.isEmpty
  | [], _ => false
  | [.globstar], ts => !ts.isEmpty && ts.all fun t => !isDots t
  | .globstar :: p :: more, ts => (reachable ts).any fun left => matchSegments (p :: more) left
  | _ :: _, [] => false
  | p :: more, t :: ts => p.accepts t && matchSegments more ts

/-- The number of exclamation marks at the front and what follows them. -/
def splitNegation : Text → Nat × Text
  | 0x21 :: rest =>
    let (n, t) := splitNegation rest
    (n + 1, t)
  | t => (0, t)

/-- Whether a pattern matches a path. -/
def isMatch (pattern path : Text) : Bool :=
  match pattern with
  | [] => path.isEmpty
  | 0x23 :: _ => false
  | _ =>
    let (negations, body) := splitNegation pattern
    let negated := negations % 2 = 1
    let sets := (braceExpand body).map fun p => (simplify (splitSlashes p)).map Segment.ofText
    let segments := splitSlashes path
    (sets.any fun s => matchSegments s segments) != negated

end Glob

end CloneScan
