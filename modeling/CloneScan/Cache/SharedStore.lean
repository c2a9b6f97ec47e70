import CloneScan.Cache.Store
import CloneScan.Number.Reader

/-!
# The shared store

A store on a key-value server that several clients share.  The server knows texts and hashes of
fields; each operation of the store is a program of single commands, and each command is atomic.
Under one key start, a record is the text at `entry:<key>`, and the hashes `paths` and `seen` hold
the record of each path and the time at which each record was last seen.
-/

namespace CloneScan

/-- The data of a server. -/
structure ServerData where
  texts : TextMap Text
  hashes : TextMap (TextMap Text)
  deriving DecidableEq, Repr

/-- The data of a new server. -/
def ServerData.empty : ServerData := ⟨[], []⟩

/-- A command to a server. -/
inductive ServerCommand where
  | get (key : Text)
  | setIfAbsent (key value : Text)
  | delete (keys : List Text)
  | hashGet (key field : Text)
  | hashSet (key field value : Text)
  | hashDelete (key : Text) (fields : List Text)
  | hashAll (key : Text)
  deriving DecidableEq, Repr

namespace ServerCommand

/-- What a server answers to a command. -/
abbrev Reply : ServerCommand → Type
  | .get _ => Option Text
  | .setIfAbsent .. => Bool
  | .delete _ => Nat
  | .hashGet .. => Option Text
  | .hashSet .. => Unit
  | .hashDelete .. => Unit
  | .hashAll _ => TextMap Text

/-- Runs a command.  A hash that loses its last field stays. -/
def run : (c : ServerCommand) → ServerData → c.Reply × ServerData
  | .get key, d => (d.texts.get? key, d)
  | .setIfAbsent key value, d =>
    if d.texts.has key then (false, d) else (true, { d with texts := d.texts.set key value })
  | .delete keys, d =>
    let isThere (key : Text) : Bool := d.texts.has key || d.hashes.has key
    ((keys.eraseDups.filter isThere).length,
      { texts := d.texts.filter fun e => !keys.contains e.1
        hashes := d.hashes.filter fun e => !keys.contains e.1 })
  | .hashGet key field, d => ((d.hashes.get? key).bind fun h => h.get? field, d)
  | .hashSet key field value, d =>
    ((), { d with hashes := d.hashes.set key (((d.hashes.get? key).getD []).set field value) })
  | .hashDelete key fields, d =>
    ((), { d with hashes := d.hashes.map fun e =>
      if e.1 == key then (e.1, e.2.filter fun f => !fields.contains f.1) else e })
  | .hashAll key, d => ((d.hashes.get? key).getD [], d)

end ServerCommand

/-- A sequence of commands, each of which may depend on the answers before it. -/
inductive ServerProgram (α : Type) where
  | done (result : α)
  | send (command : ServerCommand) (next : command.Reply → ServerProgram α)

namespace ServerProgram

/-- One program after another. -/
def andThen {α β : Type} : ServerProgram α → (α → ServerProgram β) → ServerProgram β
  | .done a, f => f a
  | .send command next, f => .send command fun reply => andThen (next reply) f

instance : Monad ServerProgram where
  pure := .done
  bind := andThen

/-- The program of one command. -/
def command (c : ServerCommand) : ServerProgram c.Reply :=
  .send c .done

/-- Runs a program without interruption. -/
def run {α : Type} : ServerProgram α → ServerData → α × ServerData
  | .done a, d => (a, d)
  | .send c next, d =>
    let (reply, d) := c.run d
    run (next reply) d

end ServerProgram

namespace SharedStore

/-- The key of a record. -/
def entryKey (start key : Text) : Text :=
  start ++ Text.ofString "entry:" ++ key

/-- The key of the hash of paths. -/
def pathsKey (start : Text) : Text :=
  start ++ Text.ofString "paths"

/-- The key of the hash of times. -/
def seenKey (start : Text) : Text :=
  start ++ Text.ofString "seen"

/-- Looks a record up; an unusable one is deleted. -/
def get (start key : Text) : ServerProgram Lookup := do
  match ← ServerProgram.command (.get (entryKey start key)) with
  | none => return .miss
  | some text =>
    match CacheRecord.decode text with
    | .ok found => return .hit found
    | .error fault =>
      let _ ← ServerProgram.command (.delete [entryKey start key])
      return .corrupt (.record fault)

/-- Puts a record where none is. -/
def put (start key : Text) (value : Json) (now : Number) : ServerProgram Unit := do
  let written : Bool ← ServerProgram.command (.setIfAbsent (entryKey start key) value.render)
  if written then
    ServerProgram.command (.hashSet (seenKey start) key now.text)

/-- Forgets a path, and its record when no other path has it. -/
def invalidate (start path : Text) : ServerProgram Unit := do
  match ← ServerProgram.command (.hashGet (pathsKey start) path) with
  | none => return
  | some key =>
    ServerProgram.command (.hashDelete (pathsKey start) [path])
    let paths : TextMap Text ← ServerProgram.command (.hashAll (pathsKey start))
    if paths.any fun e => e.2 == key then return
    else
      let _ ← ServerProgram.command (.delete [entryKey start key])
      ServerProgram.command (.hashDelete (seenKey start) [key])

/-- Notes that a path was seen with a key. -/
def recordSeen (start path key : Text) (now : Number) : ServerProgram Unit := do
  ServerProgram.command (.hashSet (pathsKey start) path key)
  ServerProgram.command (.hashSet (seenKey start) key now.text)

/-- Whether a record is dead. -/
def isDead (options : PruneOptions) (now : Number) (e : Text × Text) : Bool :=
  !options.live.contains e.1 && Number.le (Number.ofText e.2) (options.cutoff now)

/-- Removes what is dead and counts the records that were there. -/
def prune (start : Text) (options : PruneOptions) (now : Number) : ServerProgram Nat := do
  let seen : TextMap Text ← ServerProgram.command (.hashAll (seenKey start))
  let dead := (seen.filter (isDead options now)).map (·.1)
  if dead.isEmpty then return 0
  else
    let paths : TextMap Text ← ServerProgram.command (.hashAll (pathsKey start))
    let stale := (paths.filter fun e => dead.contains e.2).map (·.1)
    let removed : Nat ← ServerProgram.command (.delete (dead.map (entryKey start)))
    ServerProgram.command (.hashDelete (seenKey start) dead)
    ServerProgram.command (.hashDelete (pathsKey start) stale)
    return removed

/-- Forgets every record that has a time, and both hashes. -/
def clear (start : Text) : ServerProgram Unit := do
  let seen : TextMap Text ← ServerProgram.command (.hashAll (seenKey start))
  let _ ← ServerProgram.command
    (.delete (seen.keys.map (entryKey start) ++ [pathsKey start, seenKey start]))
  return

/-- Runs a program on the server of a store. -/
def perform {α : Type} (p : ServerProgram α) : StoreM ServerData α := do
  let (a, d) := p.run (← StoreM.state)
  StoreM.setState d
  return a

/-- Looks a record up and says when it is unusable. -/
def lookup (start key : Text) : StoreM ServerData Lookup := do
  let found ← perform (get start key)
  match found with
  | .corrupt reason => StoreM.say (discardNote key reason)
  | _ => pure ()
  return found

end SharedStore

/-- The store on a server whose keys have a common start; every write is sent at once, so there is
nothing to flush. -/
def sharedStore (start : Text) : CacheStore ServerData where
  get := SharedStore.lookup start
  put := fun key value => do SharedStore.perform (SharedStore.put start key value (← StoreM.now))
  invalidate := fun path => SharedStore.perform (SharedStore.invalidate start path)
  recordSeen := fun path key => do
    SharedStore.perform (SharedStore.recordSeen start path key (← StoreM.now))
  prune := fun options => do SharedStore.perform (SharedStore.prune start options (← StoreM.now))
  flush := pure ()
  clear := SharedStore.perform (SharedStore.clear start)

end CloneScan
