import CloneScan.Fingerprint
import CloneScan.Number.Word

/-!
# Window fingerprints on numbers

The hashes of windows computed with binary64 numbers.  Products are taken as words with a sign, sums
and differences are those of numbers, rounding included, and are reduced to a word afterwards.
-/

namespace CloneScan

/-- The FNV-1a hash over the code units of a text. -/
def fnv1aNumber (t : Text) : Number :=
  let hash : Number :=
    t.foldl (fun h u => (Number.wordXor h (.finite u.toNat)).wordMul (.finite 0x01000193))
      (.finite 0x811C9DC5)
  hash.unsigned

namespace Rolling

/-- The base of the polynomial. -/
def baseNumber : Number := .finite 31

/-- The weight of the oldest of `window` values: the base to the power `window - 1`. -/
def weightNumber (window : Nat) : Number :=
  (List.range (window - 1)).foldl (fun w _ => Number.wordMul w baseNumber) (.finite 1)

/-- Takes a new value into a hash. -/
def push (hash v : Number) : Number :=
  ((hash.wordMul baseNumber).add v).unsigned

/-- Takes the oldest value out of a hash. -/
def dropOldest (weight hash out : Number) : Number :=
  (hash.sub (out.wordMul weight)).signed

/-- The hashes that follow `hash` when the values `leaving` go and the values `entering` come, one
of each at every step. -/
def slideNumbers (weight : Number) : Number → List Number → List Number → List Number
  | hash, out :: leaving, v :: entering =>
    let next := push (dropOldest weight hash out) v
    next :: slideNumbers weight next leaving entering
  | _, _, _ => []

end Rolling

/-- The hash of every window of `window` values; none when the window is empty or too long. -/
def rollingNumbers (values : List Number) (window : Nat) : List Number :=
  if window = 0 ∨ values.length < window then []
  else
    let first := (values.take window).foldl Rolling.push (.finite 0)
    first :: Rolling.slideNumbers (Rolling.weightNumber window) first values (values.drop window)

/-- The window hashes of a stream of compare keys. -/
def windowNumbers (keys : List Text) (window : Nat) : List Number :=
  rollingNumbers (keys.map fnv1aNumber) window

end CloneScan
