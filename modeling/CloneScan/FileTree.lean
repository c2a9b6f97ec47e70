import CloneScan.Cache.PathIndex

/-!
# File trees

Files and directories by absolute path, and the faults that reading and writing them can meet.  A
path is the list of its segments, and the empty path is the root, which is always a directory.
-/

namespace CloneScan

/-- Why an operation on files fails. -/
inductive FileFault where
  | missing
  | notDirectory
  | isDirectory
  | alreadyExists
  deriving DecidableEq, Repr

/-- The code of a file fault. -/
def FileFault.code : FileFault → Text
  | .missing => Text.ofString "ENOENT"
  | .notDirectory => Text.ofString "ENOTDIR"
  | .isDirectory => Text.ofString "EISDIR"
  | .alreadyExists => Text.ofString "EEXIST"

/-- What stands under a path.  A file has a time of modification; one that nothing is known of is
later than every time that is compared with it. -/
inductive FileEntry where
  | directory
  | file (bytes : List UInt8) (modified : Option Number)
  deriving DecidableEq, Repr

/-- The entries under all paths but the root. -/
structure FileTree where
  entries : List (List Text × FileEntry)
  deriving DecidableEq, Repr

namespace FileTree

/-- The tree with nothing but its root. -/
def empty : FileTree := ⟨[]⟩

/-- The entry of a path, wherever its directories are. -/
def entry? (t : FileTree) (path : List Text) : Option FileEntry :=
  if path.isEmpty then some .directory else (t.entries.find? fun e => e.1 == path).map (·.2)

/-- Sets the entry of a path. -/
def setEntry (t : FileTree) (path : List Text) (entry : FileEntry) : FileTree :=
  if t.entries.any fun e => e.1 == path then
    ⟨t.entries.map fun e => if e.1 == path then (path, entry) else e⟩
  else ⟨t.entries ++ [(path, entry)]⟩

/-- Goes down from `here` along the segments; every step but the last has to be a directory. -/
def descend (t : FileTree) (here : List Text) : List Text → Except FileFault FileEntry
  | [] =>
    match t.entry? here with
    | none => .error .missing
    | some e => .ok e
  | s :: rest =>
    match t.entry? here with
    | none => .error .missing
    | some (.file ..) => .error .notDirectory
    | some .directory => descend t (here ++ [s]) rest

/-- The entry of a path. -/
def find (t : FileTree) (path : List Text) : Except FileFault FileEntry :=
  descend t [] path

/-- The bytes of a file. -/
def read (t : FileTree) (path : List Text) : Except FileFault (List UInt8) :=
  match t.find path with
  | .error f => .error f
  | .ok .directory => .error .isDirectory
  | .ok (.file bytes _) => .ok bytes

/-- Writes a file into a directory that exists, at a time. -/
def write (t : FileTree) (path : List Text) (bytes : List UInt8) (now : Number) :
    Except FileFault FileTree :=
  match t.find path with
  | .ok .directory => .error .isDirectory
  | .ok (.file ..) => .ok (t.setEntry path (.file bytes (some now)))
  | .error .missing =>
    match t.find path.dropLast with
    | .ok .directory => .ok (t.setEntry path (.file bytes (some now)))
    | .ok (.file ..) => .error .notDirectory
    | .error f => .error f
  | .error f => .error f

/-- Makes the directories along a path that are not there yet. -/
def makeFrom (t : FileTree) (here : List Text) : List Text → Except FileFault FileTree
  | [] => .ok t
  | s :: rest =>
    let next := here ++ [s]
    match t.entry? next with
    | none => makeFrom (t.setEntry next .directory) next rest
    | some .directory => makeFrom t next rest
    | some (.file ..) => .error (if rest.isEmpty then .alreadyExists else .notDirectory)

/-- Makes a directory with all directories above it. -/
def makeDirectory (t : FileTree) (path : List Text) : Except FileFault FileTree :=
  makeFrom t [] path

/-- Removes a file. -/
def remove (t : FileTree) (path : List Text) : Except FileFault FileTree :=
  match t.find path with
  | .error f => .error f
  | .ok .directory => .error .isDirectory
  | .ok (.file ..) => .ok ⟨t.entries.filter fun e => e.1 != path⟩

/-- Removes whatever stands under a path; nothing there is no fault. -/
def removeAll (t : FileTree) (path : List Text) : Except FileFault FileTree :=
  match t.find path with
  | .error .missing => .ok t
  | .error f => .error f
  | .ok _ => .ok ⟨t.entries.filter fun e => !path.isPrefixOf e.1⟩

/-- The names in a directory. -/
def list (t : FileTree) (path : List Text) : Except FileFault (List Text) :=
  match t.find path with
  | .error f => .error f
  | .ok (.file ..) => .error .notDirectory
  | .ok .directory =>
    .ok (t.entries.filterMap fun e => if e.1.dropLast == path then e.1.getLast? else none)

/-- Sets the time of modification of a file. -/
def setModified (t : FileTree) (path : List Text) (time : Number) : Except FileFault FileTree :=
  match t.find path with
  | .error f => .error f
  | .ok .directory => .ok t
  | .ok (.file bytes _) => .ok (t.setEntry path (.file bytes (some time)))

/-- The paths below a directory, seen from it; nothing when there is no directory. -/
def below (t : FileTree) (path : List Text) : Option (List (List Text)) :=
  match t.find path with
  | .ok .directory =>
    some (t.entries.filterMap fun e =>
      if path.isPrefixOf e.1 && path.length < e.1.length then some (e.1.drop path.length)
      else none)
  | _ => none

end FileTree

end CloneScan
