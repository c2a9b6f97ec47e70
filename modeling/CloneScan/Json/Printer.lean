import CloneScan.Json

/-!
# Printing JSON

The compact text of a value.  A string is quoted; the quote, the backslash, the control characters
and a surrogate without a partner are escaped, everything else stands for itself.  A number that is
not finite is printed as `null`.
-/

namespace CloneScan

namespace Json

/-- The hexadecimal digit of a value below sixteen. -/
def hexDigit (n : Nat) : UInt16 :=
  if n < 10 then (0x30 + n).toUInt16 else (0x57 + n).toUInt16

/-- The four hexadecimal digits of a code unit. -/
def hexUnit (u : UInt16) : Text :=
  let n := u.toNat
  [hexDigit (n / 4096), hexDigit (n / 256 % 16), hexDigit (n / 16 % 16), hexDigit (n % 16)]

/-- The escape of a code unit by its hexadecimal value. -/
def escapeUnit (u : UInt16) : Text :=
  [0x5C, 0x75] ++ hexUnit u

/-- A code unit inside a quoted string, when it does not belong to a surrogate pair. -/
def quotedUnit (u : UInt16) : Text :=
  if u == 0x22 then [0x5C, 0x22]
  else if u == 0x5C then [0x5C, 0x5C]
  else if u == 0x08 then [0x5C, 0x62]
  else if u == 0x0C then [0x5C, 0x66]
  else if u == 0x0A then [0x5C, 0x6E]
  else if u == 0x0D then [0x5C, 0x72]
  else if u == 0x09 then [0x5C, 0x74]
  else if u < 0x20 || Text.isHighSurrogate u || Text.isLowSurrogate u then escapeUnit u
  else [u]

/-- The inside of a quoted string. -/
def quotedBody : Text → Text
  | [] => []
  | [u] => quotedUnit u
  | u :: v :: rest =>
    if Text.isHighSurrogate u && Text.isLowSurrogate v then u :: v :: quotedBody rest
    else quotedUnit u ++ quotedBody (v :: rest)

/-- A quoted string. -/
def quoted (t : Text) : Text :=
  0x22 :: quotedBody t ++ [0x22]

/-- The text of a number; one that is not finite has none. -/
def numberText : Number → Text
  | .finite q => (Number.finite q).text
  | _ => Text.ofString "null"

mutual

/-- The compact text of a value. -/
def render : Json → Text
  | .null => Text.ofString "null"
  | .bool true => Text.ofString "true"
  | .bool false => Text.ofString "false"
  | .number x => numberText x
  | .string t => quoted t
  | .array items => 0x5B :: renderItems items ++ [0x5D]
  | .object fields => 0x7B :: renderFields fields ++ [0x7D]

/-- Items with commas between them. -/
def renderItems : List Json → Text
  | [] => []
  | [v] => render v
  | v :: w :: rest => render v ++ 0x2C :: renderItems (w :: rest)

/-- Fields with commas between them. -/
def renderFields : List (Text × Json) → Text
  | [] => []
  | [(k, v)] => quoted k ++ 0x3A :: render v
  | (k, v) :: f :: rest => quoted k ++ 0x3A :: render v ++ 0x2C :: renderFields (f :: rest)

end

end Json

end CloneScan
