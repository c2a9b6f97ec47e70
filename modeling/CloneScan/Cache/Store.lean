import CloneScan.Cache.Record
import CloneScan.FileTree
import CloneScan.Log

/-!
# Cache stores

What every cache store does: look a record up, put one where none is, forget what a path had, note
that a path was seen with a record, prune, flush and clear.  A store is a record of operations over
its own state; operations may fail, and what they did before failing stays done.
-/

namespace CloneScan

/-- Something said to the log. -/
structure Note where
  level : LogLevel
  message : Text
  fields : List (String × Json)

/-- The fields of a note as JSON. -/
def Note.json (n : Note) : Json.Fields :=
  Json.fieldsOf (n.fields.map fun f => (Text.ofString f.1, f.2))

/-- Why a stored record cannot be used. -/
inductive CorruptReason where
  | record (fault : RecordFault)
  | unreadable (fault : FileFault)
  | otherGrammar (language : Language) (dialect : Text)

/-- The wording of a reason. -/
def CorruptReason.text : CorruptReason → Text
  | .record fault => fault.reason
  | .unreadable fault => Text.ofString "unreadable: " ++ fault.code
  | .otherGrammar language dialect =>
    Text.ofString "record was tokenized as " ++ language.tag ++ Text.ofString "/" ++ dialect

/-- What a look-up finds. -/
inductive Lookup where
  | miss
  | hit (found : CacheRecord)
  | corrupt (reason : CorruptReason)

/-- Why an operation of a store fails. -/
inductive StoreFault where
  | file (fault : FileFault)
  | badKey (key : Text)
  | stated (message : Text)

/-- The wording of a store fault. -/
def StoreFault.message : StoreFault → Text
  | .file fault => fault.code
  | .badKey key =>
    Text.ofString "Cache record " ++ key ++
      Text.ofString " is unusable: cache key is not a valid file name"
  | .stated message => message

/-- The surroundings of a store: the files, its own state, the time and what was said. -/
structure Surroundings (σ : Type) where
  files : FileTree
  state : σ
  now : Number
  notes : List Note

/-- An operation of a store. -/
abbrev StoreM (σ : Type) := ExceptT StoreFault (StateM (Surroundings σ))

namespace StoreM

variable {σ : Type}

/-- Says something to the log. -/
def say (note : Note) : StoreM σ Unit :=
  modify fun s => { s with notes := s.notes ++ [note] }

/-- The time. -/
def now : StoreM σ Number := do
  return (← get).now

/-- The state of the store. -/
def state : StoreM σ σ := do
  return (← get).state

/-- Replaces the state of the store. -/
def setState (state : σ) : StoreM σ Unit :=
  modify fun s => { s with state }

/-- The files. -/
def files : StoreM σ FileTree := do
  return (← get).files

/-- Replaces the files by the result of an operation on them. -/
def changeFiles (change : FileTree → Except FileFault FileTree) : StoreM σ Unit := do
  match change (← files) with
  | .ok t => modify fun s => { s with files := t }
  | .error fault => throw (.file fault)

end StoreM

/-- A cache store over a state. -/
structure CacheStore (σ : Type) where
  get : Text → StoreM σ Lookup
  put : Text → Json → StoreM σ Unit
  invalidate : Text → StoreM σ Unit
  recordSeen : Text → Text → StoreM σ Unit
  prune : PruneOptions → StoreM σ Nat
  flush : StoreM σ Unit
  clear : StoreM σ Unit

/-- The note that an unusable record is discarded. -/
def discardNote (key : Text) (reason : CorruptReason) : Note where
  level := .warn
  message := Text.ofString "[Cache] Discarding unusable record"
  fields := [("contentHash", .string key), ("reason", .string reason.text)]

/-- The operations of a store by name. -/
inductive StoreMethod where
  | get
  | put
  | invalidate
  | recordSeen
  | prune
  | flush
  | clear
  deriving DecidableEq, Repr

namespace StoreMethod

/-- Every operation. -/
def all : List StoreMethod :=
  [.get, .put, .invalidate, .recordSeen, .prune, .flush, .clear]

/-- The name of an operation. -/
def name : StoreMethod → Text
  | .get => Text.ofString "get"
  | .put => Text.ofString "put"
  | .invalidate => Text.ofString "invalidate"
  | .recordSeen => Text.ofString "recordSeen"
  | .prune => Text.ofString "prune"
  | .flush => Text.ofString "flush"
  | .clear => Text.ofString "clear"

end StoreMethod

/-- The store in which some operations do nothing but fail. -/
def CacheStore.failing {σ : Type} (s : CacheStore σ) (failed : StoreMethod → Bool) :
    CacheStore σ :=
  let guarded {α : Type} (m : StoreMethod) (run : StoreM σ α) : StoreM σ α :=
    if failed m then throw (.stated (m.name ++ Text.ofString " failed")) else run
  { get := fun key => guarded .get (s.get key)
    put := fun key value => guarded .put (s.put key value)
    invalidate := fun path => guarded .invalidate (s.invalidate path)
    recordSeen := fun path key => guarded .recordSeen (s.recordSeen path key)
    prune := fun options => guarded .prune (s.prune options)
    flush := guarded .flush s.flush
    clear := guarded .clear s.clear }

end CloneScan
