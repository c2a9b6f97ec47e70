import CloneScan.Json

/-!
# Reading JSON

The strict grammar: blanks are space, tab, line feed and carriage return; numbers have no leading
zeros or plus sign; strings hold no raw control characters.  A repeated key replaces the earlier
value in its place.  A reader step returns the value and the rest of the text, or nothing.
-/

namespace CloneScan

namespace Json

/-- The four blanks of the grammar. -/
def isSpace (u : UInt16) : Bool :=
  u == 0x20 || u == 0x09 || u == 0x0A || u == 0x0D

/-- The text after leading blanks. -/
def skipSpace (t : Text) : Text :=
  t.dropWhile isSpace

/-! ## Strings -/

/-- The value of a hexadecimal digit. -/
def hexValue? (u : UInt16) : Option Nat :=
  if 0x30 ≤ u && u ≤ 0x39 then some (u.toNat - 0x30)
  else if 0x61 ≤ u && u ≤ 0x66 then some (u.toNat - 0x57)
  else if 0x41 ≤ u && u ≤ 0x46 then some (u.toNat - 0x37)
  else none

/-- The code unit that four hexadecimal digits spell. -/
def readHexUnit? (a b c d : UInt16) : Option UInt16 := do
  let a ← hexValue? a
  let b ← hexValue? b
  let c ← hexValue? c
  let d ← hexValue? d
  some (a * 4096 + b * 256 + c * 16 + d).toUInt16

/-- The code unit of a one-letter escape. -/
def simpleEscape? (u : UInt16) : Option UInt16 :=
  if u == 0x22 || u == 0x5C || u == 0x2F then some u
  else if u == 0x62 then some 0x08
  else if u == 0x66 then some 0x0C
  else if u == 0x6E then some 0x0A
  else if u == 0x72 then some 0x0D
  else if u == 0x74 then some 0x09
  else none

/-- Reads the inside of a string up to and including its closing quote. -/
def readStringBody? : Text → Option (Text × Text)
  | [] => none
  | 0x22 :: rest => some ([], rest)
  | 0x5C :: 0x75 :: a :: b :: c :: d :: rest => do
    let u ← readHexUnit? a b c d
    let (body, after) ← readStringBody? rest
    some (u :: body, after)
  | 0x5C :: e :: rest => do
    let u ← simpleEscape? e
    let (body, after) ← readStringBody? rest
    some (u :: body, after)
  | u :: rest =>
    if u < 0x20 || u == 0x5C then none
    else do
      let (body, after) ← readStringBody? rest
      some (u :: body, after)

/-! ## Numbers -/

/-- The number that decimal digits spell. -/
def digitsValue (digits : Text) : Nat :=
  digits.foldl (fun acc u => acc * 10 + (u.toNat - 0x30)) 0

/-- The leading digits and what follows them. -/
def takeDigits (t : Text) : Text × Text :=
  (t.takeWhile Text.isDigit, t.dropWhile Text.isDigit)

/-- An exponent part, zero when there is none; nothing when it has no digits. -/
def readExponent? (t : Text) : Option (Int × Text) :=
  match t with
  | e :: rest =>
    if e == 0x65 || e == 0x45 then
      let (negative, rest) :=
        match rest with
        | 0x2D :: r => (true, r)
        | 0x2B :: r => (false, r)
        | r => (false, r)
      let (digits, after) := takeDigits rest
      if digits.isEmpty then none
      else
        let n : Int := digitsValue digits
        some (if negative then -n else n, after)
    else some (0, e :: rest)
  | [] => some (0, [])

/-- A fraction part, empty when there is none; nothing when the point has no digits. -/
def readFraction? (t : Text) : Option (Text × Text) :=
  match t with
  | 0x2E :: rest =>
    let (digits, after) := takeDigits rest
    if digits.isEmpty then none else some (digits, after)
  | t => some ([], t)

/-- Reads a number without its sign. -/
def readMagnitude? (t : Text) : Option (Number × Text) := do
  let (whole, rest) := takeDigits t
  if whole.isEmpty || (whole.head? == some 0x30 && whole.length > 1) then none
  else
    let (fraction, rest) ← readFraction? rest
    let (exponent, rest) ← readExponent? rest
    let digits := whole ++ fraction
    some (Number.ofDecimal (digitsValue digits) digits.length (exponent - fraction.length), rest)

/-- Reads a number. -/
def readNumber? (t : Text) : Option (Number × Text) :=
  match t with
  | 0x2D :: rest => (readMagnitude? rest).map fun (x, after) => (x.neg, after)
  | t => readMagnitude? t

/-! ## Values -/

/-- What a fixed word leaves behind it. -/
def readWord? (word : String) (t : Text) : Option Text :=
  let units := Text.ofString word
  if units.isPrefixOf t then some (t.drop units.length) else none

/-- What a reader is in the middle of. -/
inductive Goal where
  /-- A value, perhaps after blanks. -/
  | value
  /-- The items of an array after its bracket or a comma, with the items before, last first. -/
  | items (before : List Json)
  /-- The fields of an object after its brace or a comma, with the fields before. -/
  | fields (before : Fields)

/-- Reads a value, the rest of an array or the rest of an object.  Every step down takes at least
one unit of the text, so its length bounds the depth. -/
def readGoal? : Nat → Goal → Text → Option (Json × Text)
  | 0, _, _ => none
  | fuel + 1, .value, t =>
    match skipSpace t with
    | [] => none
    | 0x22 :: rest => (readStringBody? rest).map fun (s, after) => (.string s, after)
    | 0x5B :: rest =>
      match skipSpace rest with
      | 0x5D :: after => some (.array [], after)
      | rest => readGoal? fuel (.items []) rest
    | 0x7B :: rest =>
      match skipSpace rest with
      | 0x7D :: after => some (.object [], after)
      | rest => readGoal? fuel (.fields []) rest
    | u :: rest =>
      if u == 0x6E then (readWord? "null" (u :: rest)).map fun after => (.null, after)
      else if u == 0x74 then (readWord? "true" (u :: rest)).map fun after => (.bool true, after)
      else if u == 0x66 then (readWord? "false" (u :: rest)).map fun after => (.bool false, after)
      else (readNumber? (u :: rest)).map fun (x, after) => (.number x, after)
  | fuel + 1, .items before, t => do
    let (v, rest) ← readGoal? fuel .value t
    match skipSpace rest with
    | 0x2C :: rest => readGoal? fuel (.items (v :: before)) rest
    | 0x5D :: after => some (.array (v :: before).reverse, after)
    | _ => none
  | fuel + 1, .fields before, t =>
    match skipSpace t with
    | 0x22 :: rest => do
      let (key, rest) ← readStringBody? rest
      match skipSpace rest with
      | 0x3A :: rest =>
        let (v, rest) ← readGoal? fuel .value rest
        match skipSpace rest with
        | 0x2C :: rest => readGoal? fuel (.fields (setField before key v)) rest
        | 0x7D :: after => some (.object (setField before key v), after)
        | _ => none
      | _ => none
    | _ => none

/-- The value of a JSON text; nothing when the text is not exactly one value. -/
def parse? (t : Text) : Option Json := do
  let (v, rest) ← readGoal? (2 * t.length + 2) .value t
  if (skipSpace rest).isEmpty then some v else none

end Json

end CloneScan
