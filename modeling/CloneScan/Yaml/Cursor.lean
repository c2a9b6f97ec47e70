import CloneScan.Yaml.Scalar

/-!
# A cursor over a YAML stream

The place of a reader in a stream, with the line it is on, and the node that it is reading: its
properties and what has been read of it.  A step of the reader fails where the stream is malformed.
-/

namespace CloneScan

namespace Yaml

/-- The place of a reader and the node that it reads. -/
structure Cursor where
  input : Array UInt16
  place : Nat
  line : Nat
  lineStart : Nat
  lineIndent : Nat
  firstTab : Option Nat
  tag : Tag
  anchor : Option Text
  kind : Option Kind
  result : Value
  anchors : List (Text × Value)
  handles : List (Text × Text)

/-- A step of the reader. -/
abbrev Step := StateT Cursor Option

/-- The step that fails. -/
def malformed {α : Type} : Step α := fun _ => none

/-- The unit at a distance from the place; zero beyond the end. -/
def Cursor.unitAt (c : Cursor) (distance : Nat) : UInt16 :=
  c.input.getD (c.place + distance) 0

/-- The unit at the place. -/
def peek : Step UInt16 := do
  return (← get).unitAt 0

/-- Moves one unit on and returns the unit there. -/
def advance : Step UInt16 := do
  modify fun c => { c with place := c.place + 1 }
  peek

/-- The units between two places. -/
def Cursor.slice (c : Cursor) (start stop : Nat) : Text :=
  (c.input.extract start stop).toList

/-- A line end. -/
def isBreak (u : UInt16) : Bool :=
  u == 0x0A || u == 0x0D

/-- A blank inside a line. -/
def isGap (u : UInt16) : Bool :=
  u == 0x20 || u == 0x09

/-- A blank or a line end. -/
def isSeparator (u : UInt16) : Bool :=
  isBreak u || isGap u

/-- A unit that has a meaning in flow collections. -/
def isFlowUnit (u : UInt16) : Bool :=
  u == 0x2C || u == 0x5B || u == 0x5D || u == 0x7B || u == 0x7D

/-- Moves on while the unit satisfies `p`, at most `fuel` times, and returns the unit there. -/
def skipWhile (p : UInt16 → Bool) : Nat → Step UInt16
  | 0 => peek
  | fuel + 1 => do
    let u ← peek
    if u != 0 && p u then
      modify fun c => { c with place := c.place + 1 }
      skipWhile p fuel
    else return u

/-- The number of units of the stream, which bounds every loop over it. -/
def bound : Step Nat := do
  return (← get).input.size + 1

/-- Takes a line end. -/
def readBreak : Step Unit := do
  let c ← get
  let u := c.unitAt 0
  if u == 0x0A || u == 0x0D then
    let width := if u == 0x0D && c.unitAt 1 == 0x0A then 2 else 1
    set { c with
      place := c.place + width, line := c.line + 1, lineStart := c.place + width, firstTab := none }
  else malformed

/-- Skips blanks inside a line and notes the first tab of the line. -/
def skipGaps : Nat → Step UInt16
  | 0 => peek
  | fuel + 1 => do
    let u ← peek
    if isGap u then
      modify fun c =>
        { c with
          firstTab := if u == 0x09 && c.firstTab.isNone then some c.place else c.firstTab
          place := c.place + 1 }
      skipGaps fuel
    else return u

/-- Skips the spaces at the front of a line and counts them as its indentation. -/
def readIndent : Nat → Step Unit
  | 0 => return
  | fuel + 1 => do
    if (← peek) == 0x20 then
      modify fun c => { c with place := c.place + 1, lineIndent := c.lineIndent + 1 }
      readIndent fuel

/-- Skips blanks, line ends and, if allowed, comments; returns the number of line ends. -/
def skipSeparationLoop (comments : Bool) : Nat → Nat → Step Nat
  | 0, breaks => return breaks
  | fuel + 1, breaks => do
    let n ← bound
    let u ← skipGaps n
    let u ← if comments && u == 0x23 then skipWhile (fun v => !isBreak v) n else pure u
    if isBreak u then
      readBreak
      modify fun c => { c with lineIndent := 0 }
      readIndent n
      skipSeparationLoop comments fuel (breaks + 1)
    else return breaks

/-- Skips what may stand between two parts of a stream; returns the number of line ends. -/
def skipSeparation (comments : Bool) : Step Nat := do
  skipSeparationLoop comments (← bound) 0

/-- Whether a document mark stands at the place. -/
def Cursor.atDocumentMark (c : Cursor) : Bool :=
  let u := c.unitAt 0
  (u == 0x2D || u == 0x2E) && c.unitAt 1 == u && c.unitAt 2 == u &&
    (c.unitAt 3 == 0 || isSeparator (c.unitAt 3))

/-- A control character or a half of a character, which a scalar may not hold. -/
def hasUnprintable : Text → Bool
  | [] => false
  | u :: rest =>
    if Text.isHighSurrogate u then
      match rest with
      | v :: more => if Text.isLowSurrogate v then hasUnprintable more else true
      | [] => true
    else
      Text.isLowSurrogate u || u ≤ 0x08 || u == 0x0B || u == 0x0C || (0x0E ≤ u && u ≤ 0x1F) ||
        (0x7F ≤ u && u ≤ 0x84) || (0x86 ≤ u && u ≤ 0x9F) || u == 0xFFFE || u == 0xFFFF ||
        hasUnprintable rest

/-- A piece of a plain or block scalar. -/
def capture (start stop : Nat) : Step Text := do
  let piece := (← get).slice start stop
  if hasUnprintable piece then malformed else return piece

/-- A piece of a quoted scalar. -/
def captureQuoted (start stop : Nat) : Step Text := do
  let piece := (← get).slice start stop
  if piece.any fun u => u < 0x20 && u != 0x09 then malformed else return piece

/-- What line ends inside a scalar fold to. -/
def folded (breaks : Nat) : Text :=
  if breaks = 1 then [0x20] else List.replicate (breaks - 1) 0x0A

end Yaml

end CloneScan
