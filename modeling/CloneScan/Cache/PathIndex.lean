import CloneScan.Json.Printer
import CloneScan.Json.Reader

/-!
# The path index of a cache

Which record each path had last, and when each record was last seen.  Both maps keep the order in
which their keys were first set; setting a key again keeps its place.
-/

namespace CloneScan

/-- A map from texts in the order in which its keys were first set. -/
abbrev TextMap (α : Type) := List (Text × α)

namespace TextMap

variable {α : Type}

/-- The value of a key. -/
def get? (m : TextMap α) (key : Text) : Option α :=
  (m.find? fun e => e.1 == key).map (·.2)

/-- Whether a key is present. -/
def has (m : TextMap α) (key : Text) : Bool :=
  m.any fun e => e.1 == key

/-- Sets a key; a present key keeps its place. -/
def set (m : TextMap α) (key : Text) (value : α) : TextMap α :=
  if m.has key then m.map fun e => if e.1 == key then (key, value) else e
  else m ++ [(key, value)]

/-- Removes a key. -/
def erase (m : TextMap α) (key : Text) : TextMap α :=
  m.filter fun e => e.1 != key

/-- The keys in order. -/
def keys (m : TextMap α) : List Text :=
  m.map (·.1)

end TextMap

/-- The record of each path and the time at which each record was last seen. -/
structure PathIndex where
  paths : TextMap Text
  seen : TextMap Number
  deriving DecidableEq, Repr

/-- What is pruned: records that are not in use and were not seen for some days. -/
structure PruneOptions where
  live : List Text
  maxAgeDays : Number

/-- The milliseconds of a day. -/
def dayMillis : Number :=
  .finite 86400000

/-- The latest time that is old enough to be pruned. -/
def PruneOptions.cutoff (options : PruneOptions) (now : Number) : Number :=
  now.sub (options.maxAgeDays.mul dayMillis)

namespace PathIndex

/-- The index of an unused cache. -/
def empty : PathIndex := ⟨[], []⟩

/-- Notes that a record was seen, perhaps under a path. -/
def touch (i : PathIndex) (key : Text) (now : Number) (path : Option Text) : PathIndex :=
  { paths :=
      match path with
      | none => i.paths
      | some p => i.paths.set p key
    seen := i.seen.set key now }

/-- Forgets a path.  The record that it had is forgotten and returned when no other path has it. -/
def removePath (i : PathIndex) (path : Text) : Option Text × PathIndex :=
  match i.paths.get? path with
  | none => (none, i)
  | some key =>
    let paths := i.paths.erase path
    if paths.any fun e => e.2 == key then (none, { i with paths })
    else (some key, { paths, seen := i.seen.erase key })

/-- Whether a record is dead: not in use and last seen no later than the cutoff. -/
def isDead (options : PruneOptions) (now : Number) (e : Text × Number) : Bool :=
  !options.live.contains e.1 && Number.le e.2 (options.cutoff now)

/-- Forgets the dead records and the paths that have them, and returns the records. -/
def takeDead (i : PathIndex) (options : PruneOptions) (now : Number) : List Text × PathIndex :=
  let dead := (i.seen.filter (isDead options now)).map (·.1)
  (dead,
    { paths := i.paths.filter fun e => !dead.contains e.2
      seen := i.seen.filter fun e => !isDead options now e })

/-! ## The stored index -/

/-- The version of the stored index. -/
def schemaVersion : Nat := 2

/-- A map as the fields of an object. -/
def fieldsOf {α : Type} (write : α → Json) (m : TextMap α) : Json :=
  .object (Json.fieldsOf (m.map fun e => (e.1, write e.2)))

/-- The stored form of an index. -/
def toJson (i : PathIndex) : Json :=
  .object
    [(Text.ofString "schemaVersion", .count schemaVersion),
      (Text.ofString "paths", fieldsOf Json.string i.paths),
      (Text.ofString "seen", fieldsOf Json.number i.seen)]

/-- The stored text of an index. -/
def encode (i : PathIndex) : Text :=
  i.toJson.render

/-- A map from the fields of an object, each value being read. -/
def mapOf? {α : Type} (read : Json → Option α) : Json.Fields → Option (TextMap α)
  | [] => some []
  | (key, v) :: rest => do
    let x ← read v
    let more ← mapOf? read rest
    some ((key, x) :: more)

/-- The index of a stored value of the right version and shape. -/
def ofJson? (v : Json) : Option PathIndex :=
  match v with
  | .object fields => do
    let version ← (← Json.getField fields (Text.ofString "schemaVersion")).number?
    if version != .finite (schemaVersion : Rat) then none
    else
      let paths ← (← Json.getField fields (Text.ofString "paths")).object?
      let seen ← (← Json.getField fields (Text.ofString "seen")).object?
      some ⟨← mapOf? Json.string? paths, ← mapOf? Json.number? seen⟩
  | _ => none

/-- Reads a stored index. -/
def decode? (t : Text) : Option PathIndex :=
  (Json.parse? t).bind ofJson?

end PathIndex

end CloneScan
