import CloneScan.Cache.Store

/-!
# The connection to a shared cache

There is at most one connection at a time.  It is opened when it is first asked for, and only when
an address is set; after a few failed attempts it gives up.
-/

namespace CloneScan

/-- The connection, while there is one. -/
structure Connection where
  address : Option Text
  isOpen : Bool

namespace Connection

/-- How often a request is retried. -/
def maxRetries : Nat := 3

/-- The address to connect to; an empty one counts as none. -/
def address? (c : Connection) : Option Text :=
  match c.address with
  | some [] => none
  | a => a

/-- A note of a level without fields. -/
def plain (level : LogLevel) (message : String) : Note :=
  ⟨level, Text.ofString message, []⟩

/-- Asks for the connection: says whether there is one, and opens it when there was none. -/
def acquire (c : Connection) : Bool × Connection × List Note :=
  match c.address? with
  | none => (false, c, [])
  | some _ =>
    if c.isOpen then (true, c, [])
    else (true, { c with isOpen := true }, [plain .debug "[Redis] Connecting to Redis..."])

/-- Closes the connection; says whether there was one. -/
def close (c : Connection) : Bool × Connection :=
  (c.isOpen, { c with isOpen := false })

/-- The waiting time before an attempt, in milliseconds; after too many there is none. -/
def retryDelay (times : Number) : Option Number × List Note :=
  if (Number.ofNat maxRetries).lt times then (none, [plain .error "[Redis] Max retries reached"])
  else
    let delay := times.mul (.finite 1000)
    (some (if delay.le (.finite 5000) then delay else .finite 5000), [])

/-- What is said when the connection stands. -/
def connectedNotes : List Note :=
  [plain .debug "[Redis] Connected"]

/-- What is said when the connection fails. -/
def errorNotes (message : Text) : List Note :=
  [⟨.error, Text.ofString "[Redis] Error", [("error", .string message)]⟩]

end Connection

end CloneScan
