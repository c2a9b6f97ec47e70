import CloneScan.Cache.Store
import CloneScan.Path
import CloneScan.Text.Utf8

/-!
# The store on disk

Records are files `entries/<key>.json` below the directory of the store, and the path index is the
file `index.json`.  The index is read when it is first needed, changed in memory and written back by
a flush.  Records that the index lost track of age by the time of their files.
-/

namespace CloneScan

/-- The index of a store on disk, once it is read, and whether it differs from its file. -/
structure DiskState where
  index : Option PathIndex
  dirty : Bool

/-- The state of a store that was just opened. -/
def DiskState.opened : DiskState := ⟨none, false⟩

namespace DiskStore

/-- What the names of record files end with. -/
def suffix : Text := Text.ofString ".json"

/-- Whether a key can name a file: letters, digits, `_` and `-`, at least one. -/
def isKey (key : Text) : Bool :=
  !key.isEmpty && key.all fun u => Text.isWord u || u == 0x2D

/-- The directory of the records. -/
def entriesPath (directory : List Text) : List Text :=
  directory ++ [Text.ofString "entries"]

/-- The file of the index. -/
def indexPath (directory : List Text) : List Text :=
  directory ++ [Text.ofString "index.json"]

/-- The file of a record. -/
def entryPath (directory : List Text) (key : Text) : StoreM DiskState (List Text) :=
  if isKey key then return entriesPath directory ++ [key ++ suffix]
  else throw (.badKey key)

/-- Marks the index as changed. -/
def markDirty : StoreM DiskState Unit := do
  StoreM.setState { ← StoreM.state with dirty := true }

/-- Replaces the index. -/
def setIndex (index : PathIndex) : StoreM DiskState Unit := do
  StoreM.setState { ← StoreM.state with index := some index }

/-- Reads the index from its file; an unusable file counts as an empty index. -/
def readIndex (directory : List Text) : StoreM DiskState PathIndex := do
  let path := indexPath directory
  match (← StoreM.files).read path with
  | .error .missing => return .empty
  | .error fault =>
    StoreM.say
      { level := .warn
        message := Text.ofString "[Cache] Could not read path index, starting empty"
        fields := [("path", .string (Path.ofSegments path)), ("error", .string fault.code)] }
    return .empty
  | .ok bytes =>
    match PathIndex.decode? (Text.ofUtf8 bytes) with
    | some index => return index
    | none =>
      StoreM.say
        { level := .warn
          message :=
            Text.ofString "[Cache] Path index is corrupt or from another version, starting empty"
          fields := [("path", .string (Path.ofSegments path))] }
      markDirty
      return .empty

/-- The index, read from its file on first use. -/
def loadIndex (directory : List Text) : StoreM DiskState PathIndex := do
  match (← StoreM.state).index with
  | some index => return index
  | none =>
    let index ← readIndex directory
    setIndex index
    return index

/-- Removes the file of a record; says whether there was one. -/
def removeEntry (directory : List Text) (key : Text) : StoreM DiskState Bool := do
  let path ← entryPath directory key
  match (← StoreM.files).remove path with
  | .ok t => StoreM.changeFiles (fun _ => .ok t); return true
  | .error .missing => return false
  | .error fault => throw (.file fault)

/-- Removes an unusable record.  That it cannot be removed is only noted. -/
def discard (directory : List Text) (key : Text) (reason : CorruptReason) :
    StoreM DiskState Lookup := do
  StoreM.say (discardNote key reason)
  try
    let _ ← removeEntry directory key
  catch fault =>
    StoreM.say
      { level := .warn
        message := Text.ofString "[Cache] Could not remove unusable record"
        fields := [("contentHash", .string key), ("error", .string fault.message)] }
  return .corrupt reason

/-- Looks a record up. -/
def get (directory : List Text) (key : Text) : StoreM DiskState Lookup := do
  let path ← entryPath directory key
  match (← StoreM.files).read path with
  | .error .missing => return .miss
  | .error fault => discard directory key (.unreadable fault)
  | .ok bytes =>
    match CacheRecord.decode (Text.ofUtf8 bytes) with
    | .ok found => return .hit found
    | .error fault => discard directory key (.record fault)

/-- Puts a record where none is. -/
def put (directory : List Text) (key : Text) (value : Json) : StoreM DiskState Unit := do
  let path ← entryPath directory key
  let index ← loadIndex directory
  match (← StoreM.files).find path with
  | .ok _ => return
  | .error .missing =>
    StoreM.changeFiles fun t => t.makeDirectory (entriesPath directory)
    let now ← StoreM.now
    StoreM.changeFiles fun t => t.write path (Text.toUtf8 value.render) now
    setIndex (index.touch key now none)
    markDirty
  | .error fault => throw (.file fault)

/-- Forgets a path, and its record when no other path has it. -/
def invalidate (directory : List Text) (path : Text) : StoreM DiskState Unit := do
  let index ← loadIndex directory
  match index.removePath path with
  | (none, index) => setIndex index
  | (some key, index) =>
    setIndex index
    markDirty
    let _ ← removeEntry directory key
    return

/-- Notes that a path was seen with a key. -/
def recordSeen (directory : List Text) (path key : Text) : StoreM DiskState Unit := do
  let index ← loadIndex directory
  setIndex (index.touch key (← StoreM.now) (some path))
  markDirty

/-- The keys that have a record file. -/
def listEntries (directory : List Text) : StoreM DiskState (List Text) := do
  match (← StoreM.files).list (entriesPath directory) with
  | .ok names =>
    return (names.filterMap fun name =>
      if name.endsWith suffix then some (name.take (name.length - suffix.length)) else none).filter
        isKey
  | .error .missing => return []
  | .error fault => throw (.file fault)

/-- Removes the records of some keys and counts those that were there. -/
def removeEach (directory : List Text) : List Text → StoreM DiskState Nat
  | [] => return 0
  | key :: rest => do
    let removed ← removeEntry directory key
    let more ← removeEach directory rest
    return (if removed then 1 else 0) + more

/-- Whether the file of a record is no later than a time. -/
def isOldFile (directory : List Text) (cutoff : Number) (key : Text) :
    StoreM DiskState Bool := do
  let path ← entryPath directory key
  match (← StoreM.files).find path with
  | .ok (.file _ (some time)) => return time.le cutoff
  | _ => return false

/-- Removes the old ones among the records that the index does not know. -/
def removeUntracked (directory : List Text) (cutoff : Number) :
    List Text → StoreM DiskState Nat
  | [] => return 0
  | key :: rest => do
    let removed ←
      if ← isOldFile directory cutoff key then removeEntry directory key else pure false
    let more ← removeUntracked directory cutoff rest
    return (if removed then 1 else 0) + more

/-- Removes what is dead and counts the records that were there. -/
def prune (directory : List Text) (options : PruneOptions) : StoreM DiskState Nat := do
  let index ← loadIndex directory
  let now ← StoreM.now
  let (dead, index) := index.takeDead options now
  setIndex index
  if !dead.isEmpty then markDirty
  let removed ← removeEach directory dead
  let untracked := (← listEntries directory).filter fun key =>
    !index.seen.has key && !options.live.contains key
  let more ← removeUntracked directory (options.cutoff now) untracked
  return removed + more

/-- Writes the index when it changed. -/
def flush (directory : List Text) : StoreM DiskState Unit := do
  let s ← StoreM.state
  match s.dirty, s.index with
  | true, some index =>
    StoreM.changeFiles fun t => t.makeDirectory directory
    let now ← StoreM.now
    StoreM.changeFiles fun t => t.write (indexPath directory) (Text.toUtf8 index.encode) now
    StoreM.setState { ← StoreM.state with dirty := false }
  | _, _ => return

/-- Removes the directory with everything in it. -/
def clear (directory : List Text) : StoreM DiskState Unit := do
  StoreM.changeFiles fun t => t.removeAll directory
  StoreM.setState ⟨some .empty, false⟩

end DiskStore

/-- The store in a directory. -/
def diskStore (directory : List Text) : CacheStore DiskState where
  get := DiskStore.get directory
  put := DiskStore.put directory
  invalidate := DiskStore.invalidate directory
  recordSeen := DiskStore.recordSeen directory
  prune := DiskStore.prune directory
  flush := DiskStore.flush directory
  clear := DiskStore.clear directory

end CloneScan
