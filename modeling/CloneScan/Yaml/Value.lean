import CloneScan.Clock
import CloneScan.Json

/-!
# YAML values

What a YAML text can hold.  A point in time and bytes are values of their own; where a mapping is
asked for they count as one, a point in time without fields and bytes with their places for keys.
-/

namespace CloneScan

namespace Yaml

/-- A loaded value.  A point in time is a number of milliseconds since the start of 1970. -/
inductive Value where
  | null
  | bool (value : Bool)
  | number (value : Number)
  | string (value : Text)
  | moment (time : Int)
  | bytes (values : List UInt8)
  | array (items : List Value)
  | object (fields : List (Text × Value))

/-- The fields of a mapping, in the order in which an object keeps them. -/
abbrev Fields := List (Text × Value)

namespace Value

instance : Inhabited Value := ⟨.null⟩

/-- The text of a string value. -/
def string? : Value → Option Text
  | .string t => some t
  | _ => none

/-- The truth value of a boolean. -/
def bool? : Value → Option Bool
  | .bool b => some b
  | _ => none

/-- The items of an array. -/
def array? : Value → Option (List Value)
  | .array items => some items
  | _ => none

/-- Fields with the places of a list for keys. -/
def placed (items : List Value) : Fields :=
  items.mapIdx fun i v => (Text.ofNat i, v)

/-- The fields of a value that has parts or could have some. -/
def parts? : Value → Option Fields
  | .object fields => some fields
  | .array items => some (placed items)
  | .bytes values => some (placed (values.map fun b => .number (Number.ofNat b.toNat)))
  | .moment _ => some []
  | _ => none

/-- The fields of a value that counts as a mapping. -/
def record? (v : Value) : Option Fields :=
  match v with
  | .array _ => none
  | v => v.parts?

mutual

/-- The text under which a value is a key: a list shows its items with commas, an absent item shows
nothing, and a mapping shows only that it is one. -/
def display : Value → Text
  | .null => Text.ofString "null"
  | .bool true => Text.ofString "true"
  | .bool false => Text.ofString "false"
  | .number x => x.text
  | .string t => t
  | .moment time => Clock.shown time
  | .bytes values => Text.join [0x2C] (values.map fun b => Text.ofNat b.toNat)
  | .array items => Text.join [0x2C] (displayItems items)
  | .object _ => Text.ofString "[object Object]"

/-- The shown items of an array. -/
def displayItems : List Value → List Text
  | [] => []
  | .null :: rest => [] :: displayItems rest
  | v :: rest => display v :: displayItems rest

end

end Value

end Yaml

end CloneScan
