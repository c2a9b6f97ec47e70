import CloneScan.Text

/-!
# Window fingerprints

Every window of `W` consecutive compare keys gets a polynomial hash, base 31 modulo `2 ^ 32`, of the
FNV-1a hashes of its keys.  The hash of the next window comes from the last one by dropping its
oldest key and taking in a new one, so that a stream is hashed in one pass.
-/

namespace CloneScan

/-- The 32-bit FNV-1a hash over the code units of a text. -/
def fnv1a (t : Text) : UInt32 :=
  t.foldl (fun h u => (h ^^^ u.toUInt32) * 0x01000193) 0x811C9DC5

namespace Rolling

/-- The base of the polynomial. -/
def base : UInt32 := 31

/-- The polynomial hash of one window. -/
def polynomial (values : List UInt32) : UInt32 :=
  values.foldl (fun h v => h * base + v) 0

/-- The hashes that follow `hash` when the values `leaving` go and the values `entering` come, one
of each at every step. -/
def slide (weight : UInt32) : UInt32 → List UInt32 → List UInt32 → List UInt32
  | hash, out :: leaving, v :: entering =>
    let next := (hash - out * weight) * base + v
    next :: slide weight next leaving entering
  | _, _, _ => []

end Rolling

/-- The hash of every window of `window` values; none when the window is empty or too long. -/
def rollingHashes (values : List UInt32) (window : Nat) : List UInt32 :=
  if window = 0 ∨ values.length < window then []
  else
    let first := Rolling.polynomial (values.take window)
    first :: Rolling.slide (Rolling.base ^ (window - 1)) first values (values.drop window)

/-- The window hashes of a stream of compare keys. -/
def windowHashes (keys : List Text) (window : Nat) : List UInt32 :=
  rollingHashes (keys.map fnv1a) window

/-- The hash of `length` tokens of `file` from token `start` on. -/
structure Fingerprint where
  file : Text
  start : Nat
  length : Nat
  hash : UInt32
  deriving DecidableEq, Repr

/-- One fingerprint per window. -/
def fingerprints (keys : List Text) (window : Nat) (file : Text) : List Fingerprint :=
  (windowHashes keys window).mapIdx fun start hash => ⟨file, start, window, hash⟩

end CloneScan
