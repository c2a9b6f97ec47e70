import CloneScan.Number

/-!
# JSON values

A JSON value, with objects as lists of fields.  The order of fields is part of the value: keys that
spell an array index come first, in numeric order, and all others follow in the order in which they
were first set.  A field that is set again keeps its place.  The fields of other kinds of values are
kept in the same way.
-/

namespace CloneScan

/-- A JSON value. -/
inductive Json where
  | null
  | bool (value : Bool)
  | number (value : Number)
  | string (value : Text)
  | array (items : List Json)
  | object (fields : List (Text × Json))

namespace Json

/-- The fields of an object. -/
abbrev Fields := List (Text × Json)

instance : Inhabited Json := ⟨.null⟩

/-- The value that a fixed word stands for, as a text. -/
def word (s : String) : Json :=
  .string (Text.ofString s)

/-- A count as a JSON number. -/
def count (n : Nat) : Json :=
  .number (.finite (n : Rat))

/-- An integer as a JSON number. -/
def integer (i : Int) : Json :=
  .number (.finite (i : Rat))

/-! ## Fields -/

/-- The array index that a key spells: a decimal without leading zeros below `2 ^ 32 - 1`. -/
def arrayIndex? (key : Text) : Option Nat :=
  match key with
  | [] => none
  | u :: rest =>
    if (u :: rest).all Text.isDigit && (u != 0x30 || rest.isEmpty) && rest.length < 10 then
      let n := (u :: rest).foldl (fun acc d => acc * 10 + (d.toNat - 0x30)) 0
      if n < 4294967295 then some n else none
    else none

/-- Whether a new field `key` stands before an existing field `other`. -/
def standsBefore (key other : Text) : Bool :=
  match arrayIndex? key, arrayIndex? other with
  | some i, some j => i < j
  | some _, none => true
  | none, _ => false

/-- Puts a new field at its place. -/
def placeField {α : Type} (fields : List (Text × α)) (key : Text) (value : α) : List (Text × α) :=
  match fields with
  | [] => [(key, value)]
  | (k, v) :: rest =>
    if standsBefore key k then (key, value) :: (k, v) :: rest
    else (k, v) :: placeField rest key value

/-- Whether a field is present. -/
def hasField {α : Type} (fields : List (Text × α)) (key : Text) : Bool :=
  fields.any (fun f => f.1 == key)

/-- Sets a field: a present one keeps its place, a new one is put at its place. -/
def setField {α : Type} (fields : List (Text × α)) (key : Text) (value : α) : List (Text × α) :=
  if hasField fields key then fields.map (fun f => if f.1 == key then (key, value) else f)
  else placeField fields key value

/-- The fields that result from setting each in turn. -/
def fieldsOf (entries : Fields) : Fields :=
  entries.foldl (fun acc f => setField acc f.1 f.2) []

/-- The value of a field. -/
def getField {α : Type} (fields : List (Text × α)) (key : Text) : Option α :=
  (fields.find? (fun f => f.1 == key)).map (·.2)

/-- An object from named fields. -/
def ofFields (entries : List (String × Json)) : Json :=
  .object (fieldsOf (entries.map fun e => (Text.ofString e.1, e.2)))

/-! ## Views -/

/-- The value of a field of an object; nothing for any other value. -/
def get? (v : Json) (key : String) : Option Json :=
  match v with
  | .object fields => getField fields (Text.ofString key)
  | _ => none

/-- The text of a string value. -/
def string? : Json → Option Text
  | .string t => some t
  | _ => none

/-- The number of a numeric value. -/
def number? : Json → Option Number
  | .number x => some x
  | _ => none

/-- The truth value of a boolean. -/
def bool? : Json → Option Bool
  | .bool b => some b
  | _ => none

/-- The items of an array. -/
def array? : Json → Option (List Json)
  | .array items => some items
  | _ => none

/-- The fields of an object value. -/
def object? : Json → Option Fields
  | .object fields => some fields
  | _ => none

/-- The count that a whole number from zero on stands for. -/
def count? : Json → Option Nat
  | .number x => x.toNat?
  | _ => none

/-- The integer that a whole number stands for. -/
def int? : Json → Option Int
  | .number x => x.toInt?
  | _ => none

/-! ## Display -/

mutual

/-- The text under which a value is shown inside a message: an array shows its items with commas,
an absent item shows nothing, and an object shows only that it is one. -/
def display : Json → Text
  | .null => Text.ofString "null"
  | .bool true => Text.ofString "true"
  | .bool false => Text.ofString "false"
  | .number x => x.text
  | .string t => t
  | .array items => Text.join [0x2C] (displayItems items)
  | .object _ => Text.ofString "[object Object]"

/-- The shown items of an array. -/
def displayItems : List Json → List Text
  | [] => []
  | .null :: rest => [] :: displayItems rest
  | v :: rest => display v :: displayItems rest

end

end Json

end CloneScan
