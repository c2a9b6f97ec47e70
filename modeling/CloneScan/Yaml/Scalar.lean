import CloneScan.Number.Reader
import CloneScan.Yaml.Value

/-!
# YAML scalars

What a plain scalar stands for: nothing, a truth value, a number, a point in time, or its own text.
Numbers are those of the core schema of YAML 1.2: an underscore is no digit, and a decimal that is
too large for a number is a text.
-/

namespace CloneScan

namespace Yaml

/-- Whether a text is one of some words. -/
def isWordIn (t : Text) (words : List String) : Bool :=
  words.any fun w => Text.ofString w == t

/-- An integer: decimal, or with a base mark. -/
def integer? (t : Text) : Option Number :=
  let (negative, body) := Number.splitSign t
  let magnitude : Option Nat :=
    match body with
    | 0x30 :: 0x62 :: digits => Number.digitsIn? 2 digits
    | 0x30 :: 0x78 :: digits => Number.digitsIn? 16 digits
    | 0x30 :: 0x6F :: digits => Number.digitsIn? 8 digits
    | digits => Number.digitsIn? 10 digits
  magnitude.map fun n => Number.ofInt (if negative then -(n : Int) else n)

/-- The number of a decimal that is not too large; after a sign it has to start with a digit. -/
def decimal? (signed : Bool) (t : Text) : Option Number :=
  if signed && t.head? == some 0x2E then none
  else
    match Number.decimal? t with
    | some (.finite q) => some (.finite q)
    | _ => none

/-- A number with a fraction or an exponent, an infinity, or no number. -/
def real? (t : Text) : Option Number :=
  let (negative, body) := Number.splitSign t
  let signed := body.length < t.length
  if isWordIn body [".inf", ".Inf", ".INF"] then some (.infinite negative)
  else if isWordIn t [".nan", ".NaN", ".NAN"] then some .nan
  else (decimal? signed body).map fun x => if negative then x.neg else x

/-- A number of at least `low` digits, of which at most `high` are taken, and the rest. -/
def takeNumber? (low high : Nat) (t : Text) : Option (Int × Text) :=
  let n := min (t.takeWhile Text.isDigit).length high
  if low ≤ n then (Number.digitsIn? 10 (t.take n)).map fun x => ((x : Int), t.drop n) else none

/-- What follows one unit. -/
def afterUnit? (u : UInt16) (t : Text) : Option Text :=
  match t with
  | v :: rest => if u == v then some rest else none
  | [] => none

/-- The minutes by which a zone is ahead, which follow optional blanks: `Z`, or an offset in hours
and minutes. -/
def zone? (t : Text) : Option Int :=
  match t.dropWhile fun u => u == 0x20 || u == 0x09 with
  | [] => if t.isEmpty then some 0 else none
  | [0x5A] => some 0
  | s :: rest => do
    let (hours, rest) ← takeNumber? 1 2 rest
    let minutes ←
      match rest with
      | [] => some 0
      | u :: rest =>
        match u == 0x3A, takeNumber? 2 2 rest with
        | true, some (minutes, []) => some minutes
        | _, _ => none
    if s == 0x2B then some (60 * hours + minutes)
    else if s == 0x2D then some (-(60 * hours + minutes))
    else none

/-- The milliseconds that the digits after the point stand for; three digits count. -/
def fraction (digits : Text) : Int :=
  let first := digits.take 3
  ((Number.digitsIn? 10 (first ++ List.replicate (3 - first.length) 0x30)).getD 0 : Nat)

/-- The start of a day; a year of two digits lies in the twentieth century. -/
def startOfDay (year month day : Int) : Int :=
  Clock.dayNumber (if year ≤ 99 then 1900 + year else year) (month - 1) day * 86400000

/-- The start of the day that a date stands for. -/
def date? (t : Text) : Option Int := do
  let (year, r) ← takeNumber? 4 4 t
  let (month, r) ← takeNumber? 2 2 (← afterUnit? 0x2D r)
  let (day, r) ← takeNumber? 2 2 (← afterUnit? 0x2D r)
  if r.isEmpty then some (startOfDay year month day) else none

/-- The point in time that a date with a time of day stands for. -/
def dateTime? (t : Text) : Option Int := do
  let (year, r) ← takeNumber? 4 4 t
  let (month, r) ← takeNumber? 1 2 (← afterUnit? 0x2D r)
  let (day, r) ← takeNumber? 1 2 (← afterUnit? 0x2D r)
  let r ←
    match r with
    | u :: more =>
      if u == 0x54 || u == 0x74 then some more
      else if u == 0x20 || u == 0x09 then some (more.dropWhile fun v => v == 0x20 || v == 0x09)
      else none
    | [] => none
  let (hour, r) ← takeNumber? 1 2 r
  let (minute, r) ← takeNumber? 2 2 (← afterUnit? 0x3A r)
  let (second, r) ← takeNumber? 2 2 (← afterUnit? 0x3A r)
  let (millis, r) :=
    match r with
    | 0x2E :: more => (fraction (more.takeWhile Text.isDigit), more.dropWhile Text.isDigit)
    | r => (0, r)
  let zone ← zone? r
  some (startOfDay year month day + (((hour * 60 + minute - zone) * 60) + second) * 1000 + millis)

/-- The point in time that a text stands for: a date, or a date with a time of day. -/
def moment? (t : Text) : Option Int :=
  (date? t).or (dateTime? t)

/-- The value of a letter of bytes that are written as text, six bits each; the letter that fills up
and a line end have no bits. -/
def sextet? (u : UInt16) : Option Nat :=
  if Text.isUpper u then some (u.toNat - 0x41)
  else if Text.isLower u then some (u.toNat - 0x61 + 26)
  else if Text.isDigit u then some (u.toNat - 0x30 + 52)
  else if u == 0x2B then some 62
  else if u == 0x2F then some 63
  else none

/-- The bytes of four letters or of those that are left; a single letter stands for none. -/
def bytesOf : List Nat → List UInt8
  | a :: b :: c :: d :: rest =>
    (a * 4 + b / 16).toUInt8 :: (b * 16 + c / 4).toUInt8 :: (c * 64 + d).toUInt8 :: bytesOf rest
  | [a, b, c] => [(a * 4 + b / 16).toUInt8, (b * 16 + c / 4).toUInt8]
  | [a, b] => [(a * 4 + b / 16).toUInt8]
  | _ => []

/-- The bytes that a text of letters stands for.  The letters and the fillers have to be a multiple
of four, and a text without letters stands for three zeros. -/
def bytes? (t : Text) : Option (List UInt8) :=
  let letters := t.filter fun u => u != 0x0A && u != 0x0D
  if (letters.all fun u => u == 0x3D || (sextet? u).isSome) && letters.length % 4 == 0 then
    let sextets := letters.filterMap sextet?
    some (if sextets.isEmpty then [0, 0, 0] else bytesOf sextets)
  else none

/-- The tags that matter after a scalar is resolved. -/
inductive Tag where
  | none
  /-- Left open: a plain scalar. -/
  | plain
  /-- Explicitly without a type. -/
  | nonSpecific
  | merge
  | named (name : Text)
  deriving DecidableEq, Repr

/-- The value of a plain scalar, and its tag when it is the mark of a merge. -/
def resolvePlain (t : Text) : Value × Tag :=
  if isWordIn t ["~", "null", "Null", "NULL"] then (.null, .named [])
  else if isWordIn t ["true", "True", "TRUE"] then (.bool true, .named [])
  else if isWordIn t ["false", "False", "FALSE"] then (.bool false, .named [])
  else
    match integer? t with
    | some x => (.number x, .named [])
    | none =>
      match real? t with
      | some x => (.number x, .named [])
      | none =>
        match moment? t with
        | some time => (.moment time, .named [])
        | none =>
          if t == Text.ofString "<<" then (.string t, .merge) else (.string t, .plain)

/-- The text in front of the names of the standard tags. -/
def standardTag : Text :=
  Text.ofString "tag:yaml.org,2002:"

/-- The kind of a node. -/
inductive Kind where
  | scalar
  | sequence
  | mapping
  deriving DecidableEq, Repr

/-- Whether every item of a list is a mapping of one key, and no key comes twice. -/
def isOrderedMap (items : List Value) : Bool :=
  let keys := items.map fun v =>
    match v with
    | .object [(key, _)] => some key
    | _ => none
  keys.all Option.isSome && (keys.eraseDups).length == keys.length

/-- The key and the value of a mapping of one key, as a list. -/
def pair? : Value → Option Value
  | .object [(key, v)] => some (.array [.string key, v])
  | _ => none

/-- The value of a node with an explicit standard tag; nothing when the tag does not fit. -/
def resolveTagged (name : Text) (kind : Option Kind) (v : Value) : Option Value :=
  let isOne (s : String) : Bool := name == standardTag ++ Text.ofString s
  let scalarOnly (read : Option Value) : Option Value :=
    if kind == some .sequence || kind == some .mapping then none else read
  let text : Text := (v.string?).getD []
  if isOne "str" then
    scalarOnly (match v with
      | .null => some (.string [])
      | .string t => some (.string t)
      | _ => none)
  else if isOne "seq" then
    if kind == some .sequence then some v else if kind.isNone then some (.array []) else none
  else if isOne "map" then
    if kind == some .mapping then some v else if kind.isNone then some (.object []) else none
  else if isOne "null" then
    scalarOnly (if kind.isNone || isWordIn text ["~", "null", "Null", "NULL"] then some .null else none)
  else if isOne "bool" then
    scalarOnly
      (if isWordIn text ["true", "True", "TRUE"] then some (.bool true)
      else if isWordIn text ["false", "False", "FALSE"] then some (.bool false)
      else none)
  else if isOne "int" then scalarOnly ((integer? text).map Value.number)
  else if isOne "float" then scalarOnly ((real? text).map Value.number)
  else if isOne "timestamp" then scalarOnly ((moment? text).map Value.moment)
  else if isOne "merge" then
    scalarOnly (if kind.isNone || text == Text.ofString "<<" then some v else none)
  else if isOne "binary" then
    scalarOnly (if kind.isNone then none else (bytes? text).map Value.bytes)
  else if isOne "omap" then
    match v with
    | .array items => if isOrderedMap items then some v else none
    | .null => some (.array [])
    | _ => none
  else if isOne "pairs" then
    match v with
    | .array items =>
      (items.mapM pair?).map Value.array
    | .null => some (.array [])
    | _ => none
  else if isOne "set" then
    match v with
    | .object fields =>
      if fields.all fun f => match f.2 with | .null => true | _ => false then some v else none
    | .null => some (.object [])
    | _ => none
  else none

end Yaml

end CloneScan
