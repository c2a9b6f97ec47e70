import CloneScan.Cache.Store

/-!
# The store in memory

Values by key and a path index, both of which end with the program.
-/

namespace CloneScan

/-- The values of a store in memory and their index. -/
structure MemoryState where
  values : TextMap Json
  index : PathIndex

namespace MemoryState

/-- The state of a new store. -/
def empty : MemoryState := ⟨[], .empty⟩

end MemoryState

namespace MemoryStore

/-- Whether a stored value counts as none: null, false, zero, no number and the empty text do. -/
def isVoid : Json → Bool
  | .null => true
  | .bool b => !b
  | .number .nan => true
  | .number (.finite q) => q == 0
  | .string t => t.isEmpty
  | _ => false

/-- Looks a record up; an unusable one is dropped. -/
def get (key : Text) : StoreM MemoryState Lookup := do
  let s ← StoreM.state
  match s.values.get? key with
  | none => return .miss
  | some v =>
    if isVoid v then return .miss
    else
      match CacheRecord.ofJson v with
      | .ok found => return .hit found
      | .error fault =>
        StoreM.setState { s with values := s.values.erase key }
        return .corrupt (.record fault)

/-- Puts a value where none is. -/
def put (key : Text) (value : Json) : StoreM MemoryState Unit := do
  let s ← StoreM.state
  if s.values.has key then return
  else
    StoreM.setState
      { values := s.values.set key value, index := s.index.touch key (← StoreM.now) none }

/-- Forgets a path, and its value when no other path has it. -/
def invalidate (path : Text) : StoreM MemoryState Unit := do
  let s ← StoreM.state
  match s.index.removePath path with
  | (none, index) => StoreM.setState { s with index }
  | (some key, index) => StoreM.setState { values := s.values.erase key, index }

/-- Notes that a path was seen with a key. -/
def recordSeen (path key : Text) : StoreM MemoryState Unit := do
  let s ← StoreM.state
  StoreM.setState { s with index := s.index.touch key (← StoreM.now) (some path) }

/-- Removes what is dead and counts the values that were there. -/
def prune (options : PruneOptions) : StoreM MemoryState Nat := do
  let s ← StoreM.state
  let (dead, index) := s.index.takeDead options (← StoreM.now)
  StoreM.setState { values := s.values.filter fun e => !dead.contains e.1, index }
  return (dead.filter s.values.has).length

/-- Forgets everything. -/
def clear : StoreM MemoryState Unit :=
  StoreM.setState .empty

end MemoryStore

/-- The store in memory; it has nothing to flush. -/
def memoryStore : CacheStore MemoryState where
  get := MemoryStore.get
  put := MemoryStore.put
  invalidate := MemoryStore.invalidate
  recordSeen := MemoryStore.recordSeen
  prune := MemoryStore.prune
  flush := pure ()
  clear := MemoryStore.clear

end CloneScan
