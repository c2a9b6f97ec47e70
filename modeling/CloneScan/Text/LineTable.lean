import CloneScan.Token

/-!
# Line tables

Where the lines of a text start, for texts whose lines end with a line feed, a carriage return, both
together, or one of the two separators of lines and paragraphs.
-/

namespace CloneScan

/-- The offsets at which the lines start. -/
structure LineTable where
  starts : Array Nat

namespace LineTable

/-- Whether a unit ends a line by itself. -/
def isBreak (u : UInt16) : Bool :=
  u == 0x0A || u == 0x0D || u == 0x2028 || u == 0x2029

/-- The starts of the lines after the first, for the rest of a text at an offset. -/
def startsFrom : Nat → Text → List Nat
  | _, [] => []
  | offset, 0x0D :: 0x0A :: rest => (offset + 2) :: startsFrom (offset + 2) rest
  | offset, u :: rest =>
    if isBreak u then (offset + 1) :: startsFrom (offset + 1) rest
    else startsFrom (offset + 1) rest

/-- The starts of the rows after the first, where only a line feed ends a row. -/
def rowsFrom : Nat → Text → List Nat
  | _, [] => []
  | offset, u :: rest =>
    if u == 0x0A then (offset + 1) :: rowsFrom (offset + 1) rest else rowsFrom (offset + 1) rest

/-- The table of the rows of a text. -/
def ofRows (t : Text) : LineTable :=
  ⟨(0 :: rowsFrom 0 t).toArray⟩

/-- The line table of a text. -/
def ofText (t : Text) : LineTable :=
  ⟨(0 :: startsFrom 0 t).toArray⟩

/-- The last line among the first `count` ones that starts no later than an offset. -/
def lineBelow (starts : Array Nat) (offset : Nat) : Nat → Nat
  | 0 => 0
  | count + 1 =>
    match starts[count]? with
    | some s => if s ≤ offset then count else lineBelow starts offset count
    | none => lineBelow starts offset count

/-- The line and column of an offset. -/
def position (table : LineTable) (offset : Nat) : Position :=
  let line := lineBelow table.starts offset table.starts.size
  ⟨line, offset - (table.starts[line]?).getD 0⟩

end LineTable

end CloneScan
