import CloneScan.Text

/-!
# Patterns for one path segment

A segment pattern is a sequence of pieces: literal units, `?`, `*`, character classes and groups
such as `+(a|b)`.  Matching tries the pieces from left to right with every possible length.
-/

namespace CloneScan

namespace Glob

/-- One item of a character class. -/
inductive ClassItem where
  | range (low high : UInt16)
  | named (accepts : UInt16 → Bool)

/-- How often the alternatives of a group occur. -/
inductive GroupKind where
  | once
  | optional
  | many
  | some
  | none
  deriving DecidableEq, Repr

/-- A piece of a segment pattern. -/
inductive Piece where
  | unit (u : UInt16)
  | anyUnit
  | star
  /-- At least one unit: a lone star must match something. -/
  | starSome
  | oneOf (negated : Bool) (items : List ClassItem)
  /-- A class without members, which nothing matches. -/
  | never
  | group (kind : GroupKind) (alternatives : List (List Piece))

/-! ## Character classes -/

/-- ASCII letters and the letters beyond ASCII, by block. -/
def isLetterUnit (u : UInt16) : Bool :=
  Text.isUpper u || Text.isLower u || u == 0xAA || u == 0xB5 || u == 0xBA ||
    (0xC0 ≤ u && u != 0xD7 && u != 0xF7 && u < 0x2000)

/-- The named classes. -/
def namedClasses : List (String × (UInt16 → Bool)) :=
  [("[:alnum:]", fun u => isLetterUnit u || Text.isDigit u), ("[:alpha:]", isLetterUnit),
    ("[:ascii:]", fun u => u < 0x80), ("[:blank:]", fun u => u == 0x20 || u == 0x09),
    ("[:cntrl:]", fun u => u < 0x20 || (0x7F ≤ u && u < 0xA0)), ("[:digit:]", Text.isDigit),
    ("[:graph:]", fun u => 0x20 < u && u != 0x7F && !(0x80 ≤ u && u ≤ 0xA0)),
    ("[:lower:]", Text.isLower), ("[:print:]", fun u => 0x20 ≤ u && u != 0x7F),
    ("[:punct:]", fun u =>
      (0x21 ≤ u && u ≤ 0x2F && u != 0x24 && u != 0x2B) || u == 0x3A || u == 0x3B || u == 0x3F ||
        u == 0x40 || (0x5B ≤ u && u ≤ 0x5D) || u == 0x5F || u == 0x7B || u == 0x7D),
    ("[:space:]", Text.isBlank), ("[:upper:]", Text.isUpper),
    ("[:word:]", fun u => isLetterUnit u || Text.isDigit u || u == 0x5F),
    ("[:xdigit:]", fun u =>
      Text.isDigit u || (0x41 ≤ u && u ≤ 0x46) || (0x61 ≤ u && u ≤ 0x66))]

/-- The named class at the front of a text, and what follows it. -/
def namedClass? (t : Text) : Option ((UInt16 → Bool) × Text) :=
  namedClasses.findSome? fun (name, accepts) =>
    let units := Text.ofString name
    if units.isPrefixOf t then some (accepts, t.drop units.length) else none

/-- What a class text turns out to be. -/
inductive ClassParse where
  /-- No end was found: the bracket is an ordinary unit. -/
  | unclosed
  /-- The class can match nothing. -/
  | poisoned
  | parsed (items : List ClassItem) (rest : Text)

/-- Reads the items of a class.  `started` tells whether an item was seen, so that a closing
bracket can end the class, `pending` is the first unit of a range, and each step takes a unit. -/
def readClass : Nat → Bool → Option UInt16 → List ClassItem → Text → ClassParse
  | 0, _, _, _, _ => .unclosed
  | _, _, _, _, [] => .unclosed
  | fuel + 1, started, pending, items, u :: rest =>
    if u == 0x5D && started then .parsed items.reverse rest
    else
      let take (c : UInt16) (rest : Text) : ClassParse :=
        match pending with
        | some low =>
          let items := if low ≤ c then .range low c :: items else items
          readClass fuel true none items rest
        | none =>
          match rest with
          | 0x2D :: 0x5D :: _ =>
            readClass fuel true none (.range 0x2D 0x2D :: .range c c :: items) (rest.drop 1)
          | 0x2D :: more => readClass fuel true (some c) items more
          | _ => readClass fuel true none (.range c c :: items) rest
      if u == 0x5C then
        match rest with
        | [] => .unclosed
        | c :: more => take c more
      else
        match (if u == 0x5B then namedClass? (u :: rest) else none) with
        | some (accepts, after) =>
          if pending.isSome then .poisoned
          else readClass fuel true none (.named accepts :: items) after
        | none => take u rest

/-- The class after an opening bracket: the piece and what follows, or nothing when the bracket is an
ordinary unit. -/
def parseClass? (t : Text) : Option (Piece × Text) :=
  let (negated, body) : Bool × Text :=
    match t with
    | 0x21 :: rest => (true, rest)
    | 0x5E :: rest => (true, rest)
    | t => (false, t)
  match readClass (body.length + 1) false none [] body with
  | .unclosed => none
  | .poisoned => some (.never, [])
  | .parsed [] _ => some (.never, [])
  | .parsed [.range low high] rest =>
    if low == high && !negated then some (.unit low, rest)
    else some (.oneOf negated [.range low high], rest)
  | .parsed items rest => some (.oneOf negated items, rest)

/-- Whether a class item accepts a unit. -/
def ClassItem.accepts (item : ClassItem) (u : UInt16) : Bool :=
  match item with
  | .range low high => low ≤ u && u ≤ high
  | .named accepts => accepts u

/-! ## Reading a pattern -/

/-- The kind of group that a unit announces. -/
def groupKind? (u : UInt16) : Option GroupKind :=
  if u == 0x40 then some .once
  else if u == 0x3F then some .optional
  else if u == 0x2A then some .many
  else if u == 0x2B then some .some
  else if u == 0x21 then some .none
  else none

/-- Drops stars that follow a star. -/
def dropStars (t : Text) : Text :=
  t.dropWhile (· == 0x2A)

mutual

/-- The pieces of a pattern.  Inside a group they end at a bar or a closing parenthesis; the result
is the pieces and the text from there on. -/
def readPieces : Nat → Bool → Text → List Piece × Text
  | 0, _, t => ([], t)
  | _, _, [] => ([], [])
  | fuel + 1, inGroup, u :: rest =>
    if inGroup && (u == 0x7C || u == 0x29) then ([], u :: rest)
    else
      let andThen (p : Piece) (after : Text) : List Piece × Text :=
        let (more, left) := readPieces fuel inGroup after
        (p :: more, left)
      let plain (u : UInt16) (rest : Text) : List Piece × Text :=
        if u == 0x5C then
          match rest with
          | [] => ([.unit 0x5C], [])
          | c :: after => andThen (.unit c) after
        else if u == 0x2A then andThen .star (dropStars rest)
        else if u == 0x3F then andThen .anyUnit rest
        else if u == 0x5B then
          match parseClass? rest with
          | some (p, after) => andThen p after
          | none => andThen (.unit u) rest
        else andThen (.unit u) rest
      match groupKind? u, rest with
      | some kind, 0x28 :: inside =>
        match readAlternatives fuel inside with
        | some (alternatives, after) => andThen (.group kind alternatives) after
        | none => plain u rest
      | _, _ => plain u rest

/-- The alternatives of a group up to its closing parenthesis; nothing when it is not closed. -/
def readAlternatives : Nat → Text → Option (List (List Piece) × Text)
  | 0, _ => none
  | fuel + 1, t =>
    match readPieces fuel true t with
    | (pieces, 0x29 :: after) => some ([pieces], after)
    | (pieces, 0x7C :: more) =>
      match readAlternatives fuel more with
      | some (alternatives, after) => some (pieces :: alternatives, after)
      | none => none
    | _ => none

end

/-- The pieces of a whole segment pattern; a lone star must match something. -/
def segmentPieces (t : Text) : List Piece :=
  match (readPieces (2 * t.length + 2) false t).1 with
  | [.star] => [.starSome]
  | pieces => pieces

/-! ## Matching -/

/-- The ends of the text that are reached by dropping units from its front. -/
def ends : Text → List Text
  | [] => [[]]
  | u :: rest => (u :: rest) :: ends rest

/-- Whether the text can be matched by the pieces with nothing left, or, for pieces inside groups,
so that `after` accepts what is left. -/
def matchPieces : Nat → List Piece → (Text → Bool) → Text → Bool
  | 0, _, _, _ => false
  | _ + 1, [], after, t => after t
  | fuel + 1, p :: pieces, after, t =>
    let rest : Text → Bool := matchPieces fuel pieces after
    match p with
    | .unit u =>
      match t with
      | v :: more => u == v && rest more
      | [] => false
    | .anyUnit =>
      match t with
      | _ :: more => rest more
      | [] => false
    | .star => (ends t).any rest
    | .starSome => ((ends t).drop 1).any rest
    | .oneOf negated items =>
      match t with
      | v :: more => (items.any (·.accepts v) != negated) && rest more
      | [] => false
    | .never => false
    | .group kind alternatives =>
      let onceThen (next : Text → Bool) : Bool :=
        alternatives.any fun a => matchPieces fuel a next t
      let again (left : Text) : Bool :=
        left.length < t.length && matchPieces fuel (.group .many alternatives :: pieces) after left
      match kind with
      | .once => onceThen rest
      | .optional => rest t || onceThen rest
      | .many => rest t || onceThen again
      | .some => onceThen fun left => rest left || again left
      | .none => !(onceThen fun left => matchPieces fuel pieces List.isEmpty left) && (ends t).any rest

/-- The size of a pattern, which bounds how deep matching goes per unit of text. -/
def Piece.size : Piece → Nat
  | .group _ alternatives => 1 + sizeAll alternatives
  | _ => 1
where
  /-- The size of some alternatives. -/
  sizeAll : List (List Piece) → Nat
    | [] => 1
    | a :: rest => sizeList a + sizeAll rest
  /-- The size of a sequence. -/
  sizeList : List Piece → Nat
    | [] => 1
    | p :: rest => p.size + sizeList rest

/-- Whether a segment consists of one or two points, which only such a pattern names. -/
def isDots (t : Text) : Bool :=
  t == [0x2E] || t == [0x2E, 0x2E]

/-- The text of a pattern of literal units only. -/
def literal? : List Piece → Option Text
  | [] => some []
  | .unit u :: rest => (literal? rest).map (u :: ·)
  | _ => none

end Glob

end CloneScan
