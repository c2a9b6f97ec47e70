import CloneScan.Text

/-!
# Paths

Paths with `/` between their segments: joining, resolving against a directory, and the way from one
absolute path to another.
-/

namespace CloneScan

namespace Path

/-- The separator. -/
def slash : UInt16 := 0x2F

/-- Whether a path starts at the root. -/
def isAbsolute (p : Text) : Bool :=
  p.head? == some slash

/-- The segments of a path that are not empty. -/
def segments (p : Text) : List Text :=
  (p.splitBy (· == slash)).filter fun s => !s.isEmpty

/-- The segment for the directory itself. -/
def here : Text := [0x2E]

/-- The segment for the directory above. -/
def above : Text := [0x2E, 0x2E]

/-- Takes a segment into an absolute list of segments, last first; nothing lies above the root. -/
def enter (stack : List Text) (s : Text) : List Text :=
  if s == here then stack
  else if s == above then stack.drop 1
  else s :: stack

/-- The segments of an absolute path without `.` and `..`. -/
def normalSegments (p : Text) : List Text :=
  ((segments p).foldl enter []).reverse

/-- The absolute path of some segments. -/
def ofSegments (segments : List Text) : Text :=
  slash :: Text.join [slash] segments

/-- A path seen from an absolute directory, as a normal absolute path. -/
def resolve (directory p : Text) : Text :=
  if isAbsolute p then ofSegments (normalSegments p)
  else ofSegments (normalSegments (directory ++ slash :: p))

/-- Two lists without their common front. -/
def dropCommon : List Text → List Text → List Text × List Text
  | a :: as, b :: bs => if a == b then dropCommon as bs else (a :: as, b :: bs)
  | as, bs => (as, bs)

/-- The way from an absolute directory to an absolute path; empty when they are the same. -/
def relative (directory p : Text) : Text :=
  let (up, down) := dropCommon (normalSegments directory) (normalSegments p)
  Text.join [slash] (up.map (fun _ => above) ++ down)

end Path

end CloneScan
