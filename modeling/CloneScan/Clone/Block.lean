import CloneScan.Text

/-!
# Duplicated blocks

Files are compared by their keys.  Windows of one length with equal keys form a class; window
hashes only nominate candidates, and the keys themselves decide.  A class is grown to both sides
while all of its members agree, members of one file that come to overlap are thinned, and what is
left is a block: the same keys at two or more places.  A block that lies inside another one with at
least as many members is dropped.
-/

namespace CloneScan

/-- The compare keys of one file and a hash for each window of them. -/
structure KeyedFile where
  keys : Array Text
  hashes : List Nat

/-- A window by its file and its first key. -/
structure Window where
  file : Nat
  start : Nat
  deriving DecidableEq, Repr

/-- A member of a block: the keys from `start` to `stop` of a file, both included. -/
structure Member where
  file : Nat
  start : Nat
  stop : Nat
  deriving DecidableEq, Repr

/-- The same keys at several places, in the order of files and starts. -/
structure Block where
  members : List Member
  length : Nat
  deriving DecidableEq, Repr

namespace Clone

/-- The key at a place, if there is one. -/
def keyAt (files : Array KeyedFile) (file index : Nat) : Option Text :=
  match files[file]? with
  | some f => f.keys[index]?
  | none => none

/-- The number of keys of a file. -/
def keyCount (files : Array KeyedFile) (file : Nat) : Nat :=
  match files[file]? with
  | some f => f.keys.size
  | none => 0

/-! ## Classes of equal windows -/

/-- Splits a list into groups: each item joins the first group whose first item it agrees with. -/
def group {α : Type} (agree : α → α → Bool) (items : List α) : List (List α) :=
  items.foldl place []
where
  /-- Puts an item into the first group that it agrees with, or into a new last one. -/
  place (groups : List (List α)) (item : α) : List (List α) :=
    match groups with
    | [] => [[item]]
    | [] :: rest => [] :: place rest item
    | (first :: more) :: rest =>
      if agree first item then (first :: more ++ [item]) :: rest
      else (first :: more) :: place rest item

/-- Whether two windows hold the same keys. -/
def sameKeys (files : Array KeyedFile) (length : Nat) (a b : Window) : Bool :=
  (List.range length).all fun k =>
    keyAt files a.file (a.start + k) == keyAt files b.file (b.start + k)

/-- Every window with its hash, in the order of files and starts. -/
def windows (files : Array KeyedFile) : List (Window × Nat) :=
  (files.toList.mapIdx fun file f => f.hashes.mapIdx fun start hash => (⟨file, start⟩, hash)).flatten

/-- The classes of two or more equal windows, in the order in which they are found. -/
def classes (files : Array KeyedFile) (length : Nat) : List (List Window) :=
  let buckets := group (fun a b => a.2 == b.2) (windows files)
  let split := buckets.flatMap fun bucket => group (sameKeys files length) (bucket.map (·.1))
  split.filter fun members => 2 ≤ members.length

/-! ## Growth -/

/-- Whether the key `back` places before every member agrees with that of the first. -/
def agreeBefore (files : Array KeyedFile) (first : Window) (members : List Window)
    (back : Nat) : Bool :=
  members.all fun m =>
    back ≤ m.start && back ≤ first.start &&
      keyAt files m.file (m.start - back) == keyAt files first.file (first.start - back)

/-- Whether every member has a key at the distance `ahead` and it agrees with that of the first. -/
def agreeAfter (files : Array KeyedFile) (first : Window) (members : List Window)
    (ahead : Nat) : Bool :=
  members.all fun m =>
    m.start + ahead < keyCount files m.file &&
      keyAt files m.file (m.start + ahead) == keyAt files first.file (first.start + ahead)

/-- How often `holds` is true in a row from `from` on, tried at most `fuel` times. -/
def countWhile (holds : Nat → Bool) : Nat → Nat → Nat
  | 0, _ => 0
  | fuel + 1, i => if holds i then countWhile holds fuel (i + 1) + 1 else 0

/-- The longest common extension to the left. -/
def leftGrowth (files : Array KeyedFile) (first : Window) (members : List Window) : Nat :=
  countWhile (agreeBefore files first members) first.start 1

/-- The longest common extension to the right of windows of the given length. -/
def rightGrowth (files : Array KeyedFile) (length : Nat) (first : Window)
    (members : List Window) : Nat :=
  countWhile (agreeAfter files first members) (keyCount files first.file) length

/-- The order of members: by file, then by start. -/
def Member.le (a b : Member) : Bool :=
  a.file < b.file || (a.file == b.file && a.start ≤ b.start)

/-- Leaves out each member that overlaps the last kept one of its file. -/
def thin : Option Member → List Member → List Member
  | _, [] => []
  | none, m :: rest => m :: thin (some m) rest
  | some last, m :: rest =>
    if last.file == m.file && m.start ≤ last.stop then thin (some last) rest
    else m :: thin (some m) rest

/-- A class grown to both sides and thinned, with the extension to both sides. -/
structure Growth where
  left : Nat
  right : Nat
  block : Block

/-- Grows a class of windows. -/
def grow (files : Array KeyedFile) (length : Nat) (first : Window) (members : List Window) :
    Growth :=
  let left := leftGrowth files first members
  let right := rightGrowth files length first members
  let total := length + left + right
  let ranges := members.map fun m => (⟨m.file, m.start - left, m.start - left + total - 1⟩ : Member)
  ⟨left, right, ⟨thin none (ranges.mergeSort Member.le), total⟩⟩

/-- The class of a window among the classes. -/
def classOf (table : List (List Window)) (w : Window) : Option Nat :=
  table.findIdx? fun members => members.contains w

/-- The classes that would grow to the same block: those as large as `members` that hold a window
of the first member inside its grown range. -/
def covered (table : List (List Window)) (members : List Window) (first : Window)
    (g : Growth) : List Nat :=
  (List.range (g.left + g.right + 1)).filterMap fun i =>
    match classOf table ⟨first.file, first.start - g.left + i⟩ with
    | none => none
    | some other =>
      if (table.getD other []).length == members.length then some other else none

/-- The order in which classes are grown: by their first window. -/
def classLe (a b : Nat × List Window) : Bool :=
  match a.2, b.2 with
  | [], _ => true
  | _ :: _, [] => false
  | x :: _, y :: _ => x.file < y.file || (x.file == y.file && x.start ≤ y.start)

/-- The state of growing one class after another: the classes that need no growing any more and
the blocks so far. -/
structure Sweep where
  done : List Nat
  blocks : List Block

/-- Grows one class, unless an earlier growth has covered it, and keeps a new block of two or more
members. -/
def sweepStep (files : Array KeyedFile) (length : Nat) (table : List (List Window)) (s : Sweep)
    (entry : Nat × List Window) : Sweep :=
  match entry.2 with
  | [] => s
  | first :: more =>
    if s.done.contains entry.1 then s
    else
      let members := first :: more
      let g := grow files length first members
      let done := covered table members first g ++ s.done
      let isNew := !s.blocks.any fun b => b.members == g.block.members
      if 2 ≤ g.block.members.length && isNew then ⟨done, s.blocks ++ [g.block]⟩
      else ⟨done, s.blocks⟩

/-- The grown blocks of all classes, each set of places once, in the order of growing. -/
def grownBlocks (files : Array KeyedFile) (length : Nat) : List Block :=
  let table := classes files length
  let order := (table.mapIdx fun i members => (i, members)).mergeSort classLe
  (order.foldl (sweepStep files length table) ⟨[], []⟩).blocks

/-! ## Containment -/

/-- Whether a member lies inside another one. -/
def Member.inside (inner outer : Member) : Bool :=
  inner.file == outer.file && outer.start ≤ inner.start && inner.stop ≤ outer.stop

/-- Whether `outer` has at least as many members and every member of `inner` lies in one of its. -/
def Block.inside (inner outer : Block) : Bool :=
  inner.members.length ≤ outer.members.length &&
    inner.members.all fun m => outer.members.any fun o => Member.inside m o

/-- The order of the containment pass: longer blocks first, then those with more members. -/
def Block.le (a b : Block) : Bool :=
  b.length < a.length || (a.length == b.length && b.members.length ≤ a.members.length)

/-- Keeps each block that lies inside none of the blocks kept before it. -/
def keepMaximal (kept : List Block) : List Block → List Block
  | [] => kept
  | b :: rest =>
    if kept.any (Block.inside b) then keepMaximal kept rest else keepMaximal (kept ++ [b]) rest

/-- The blocks that lie inside no other one. -/
def dropContained (blocks : List Block) : List Block :=
  keepMaximal [] (blocks.mergeSort Block.le)

/-! ## The whole search -/

/-- The maximal duplicated blocks.  Members that `keep` rejects are removed before containment is
judged, and a block that is left with fewer than two members is dropped. -/
def findBlocks (files : Array KeyedFile) (length : Nat) (keep : Member → Bool) : List Block :=
  if length = 0 then []
  else
    let kept := (grownBlocks files length).filterMap fun b =>
      let members := b.members.filter keep
      if 2 ≤ members.length then some { b with members } else none
    dropContained kept

end Clone

end CloneScan
