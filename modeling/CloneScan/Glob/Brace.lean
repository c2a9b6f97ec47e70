import CloneScan.Text

/-!
# Brace expansion

`{a,b}` stands for each of its parts, `{1..3}` and `{a..e..2}` for each member of a sequence.
An escaped brace, comma, point or backslash is an ordinary character; it is kept apart from the
plain one by an offset above all code units until the expansion is done.
-/

namespace CloneScan

namespace Glob

/-- A code unit, or an escaped one as itself plus `escapeOffset`. -/
abbrev Marked := List Nat

/-- What sets escaped units apart. -/
def escapeOffset : Nat := 0x10000

/-- The units that an escape protects from expansion. -/
def isProtected (u : UInt16) : Bool :=
  u == 0x5C || u == 0x7B || u == 0x7D || u == 0x2C || u == 0x2E

/-- Marks the escaped units. -/
def markEscapes : Text → Marked
  | 0x5C :: u :: rest =>
    if isProtected u then (u.toNat + escapeOffset) :: markEscapes rest
    else 0x5C :: markEscapes (u :: rest)
  | u :: rest => u.toNat :: markEscapes rest
  | [] => []

/-- Drops the marks and the escapes with them. -/
def unmark (m : Marked) : Text :=
  m.map fun n => if n < escapeOffset then n.toUInt16 else (n - escapeOffset).toUInt16

/-- The text before a brace pair, inside it and after it. -/
structure Braces where
  before : Marked
  body : Marked
  after : Marked

/-- The positions of the first balanced pair of braces, or of the leftmost inner pair when some
brace stays open.  `opened` are the positions of open braces, last first. -/
def pairFrom (opened : List Nat) (best : Option (Nat × Nat)) (i : Nat) :
    Marked → Option (Nat × Nat)
  | [] => if opened.isEmpty then none else best
  | n :: rest =>
    if n == 0x7B then pairFrom (i :: opened) best (i + 1) rest
    else if n == 0x7D then
      match opened with
      | [] => pairFrom [] best (i + 1) rest
      | [start] => some (start, i)
      | start :: more =>
        let best :=
          match best with
          | some (left, right) => if start < left then some (start, i) else some (left, right)
          | none => some (start, i)
        pairFrom more best (i + 1) rest
    else pairFrom opened best (i + 1) rest

/-- The first brace pair of a text. -/
def findBraces? (m : Marked) : Option Braces :=
  (pairFrom [] none 0 m).map fun (start, stop) =>
    ⟨m.take start, (m.drop (start + 1)).take (stop - start - 1), m.drop (stop + 1)⟩

/-- The pieces between the numbers that satisfy `sep`. -/
def splitMarked (sep : Nat → Bool) : Marked → List Marked
  | [] => [[]]
  | n :: rest =>
    if sep n then [] :: splitMarked sep rest
    else
      match splitMarked sep rest with
      | [] => [[n]]
      | piece :: more => (n :: piece) :: more

/-- Joins the last piece of the first list and the first piece of the second. -/
def joinPieces (left right : List Marked) : List Marked :=
  match left.reverse, right with
  | [], right => right
  | last :: before, [] => (last :: before).reverse
  | last :: before, first :: more => before.reverse ++ (last ++ first) :: more

/-- The parts between the commas that are in no inner pair of braces. -/
def commaParts : Nat → Marked → List Marked
  | 0, m => [m]
  | fuel + 1, m =>
    match findBraces? m with
    | none => splitMarked (· == 0x2C) m
    | some b =>
      let front := joinPieces (splitMarked (· == 0x2C) b.before) [0x7B :: b.body ++ [0x7D]]
      if b.after.isEmpty then front else joinPieces front (commaParts fuel b.after)

/-! ## Sequences -/

/-- The integer that an optional minus and digits spell. -/
def integer? (m : Marked) : Option Int :=
  let isDigits (d : Marked) : Bool := !d.isEmpty && d.all fun n => 0x30 ≤ n && n ≤ 0x39
  let value (d : Marked) : Int := (d.foldl (fun acc n => acc * 10 + (n - 0x30)) 0 : Nat)
  match m with
  | 0x2D :: digits => if isDigits digits then some (-value digits) else none
  | digits => if isDigits digits then some (value digits) else none

/-- The code of a single ASCII letter. -/
def letter? (m : Marked) : Option Int :=
  match m with
  | [n] => if (0x41 ≤ n && n ≤ 0x5A) || (0x61 ≤ n && n ≤ 0x7A) then some (n : Int) else none
  | _ => none

/-- The pieces between double points. -/
def splitDots : Marked → List Marked
  | 0x2E :: 0x2E :: rest => [] :: splitDots rest
  | [] => [[]]
  | n :: rest =>
    match splitDots rest with
    | [] => [[n]]
    | piece :: more => (n :: piece) :: more

/-- Whether a bound is written with leading zeros. -/
def isPadded (m : Marked) : Bool :=
  match m with
  | 0x2D :: 0x30 :: n :: _ => 0x30 ≤ n && n ≤ 0x39
  | 0x30 :: n :: _ => 0x30 ≤ n && n ≤ 0x39
  | _ => false

/-- The members from `i` to `last` in steps of `step`, which points towards `last`. -/
def countTo (last step : Int) : Nat → Int → List Int
  | 0, _ => []
  | fuel + 1, i =>
    if (0 < step && i ≤ last) || (step < 0 && last ≤ i) then
      i :: countTo last step fuel (i + step)
    else []

/-- The text of a member of a numeric sequence, filled with zeros to a width if asked. -/
def memberText (width : Option Nat) (i : Int) : Marked :=
  let digits := (Text.ofNat i.natAbs).map (·.toNat)
  let sign : Marked := if i < 0 then [0x2D] else []
  match width with
  | none => sign ++ digits
  | some w => sign ++ List.replicate (w - sign.length - digits.length) 0x30 ++ digits

/-- The members of a sequence body such as `1..3` or `a..e..2`. -/
def sequence? (body : Marked) : Option (List Marked) :=
  let members (first last step : Int) : List Int :=
    let size := if step = 0 then 1 else step.natAbs
    let directed : Int := if last < first then -(size : Int) else size
    countTo last directed ((last - first).natAbs + 1) first
  match splitDots body with
  | [a, b] =>
    match integer? a, integer? b, letter? a, letter? b with
    | some x, some y, _, _ =>
      let width := if isPadded a || isPadded b then some (max a.length b.length) else none
      some ((members x y 1).map (memberText width))
    | _, _, some x, some y =>
      some ((members x y 1).map fun i => if i = 0x5C then [] else [i.toNat])
    | _, _, _, _ => none
  | [a, b, c] =>
    match integer? c with
    | none => none
    | some step =>
      match integer? a, integer? b, letter? a, letter? b with
      | some x, some y, _, _ =>
        let width :=
          if isPadded a || isPadded b || isPadded c then some (max a.length b.length) else none
        some ((members x y step).map (memberText width))
      | _, _, some x, some y =>
        some ((members x y step).map fun i => if i = 0x5C then [] else [i.toNat])
      | _, _, _, _ => none
  | _ => none

/-! ## Expansion -/

/-- Whether a comma that no comma follows stands before some closing brace. -/
def hasLaterPart : Marked → Bool
  | [] => false
  | 0x2C :: rest =>
    (rest.head? != some 0x2C && rest.contains 0x7D) || hasLaterPart rest
  | _ :: rest => hasLaterPart rest

/-- Every combination of a front, one of the middles and one of the ends. -/
def combine (front : Marked) (middles ends : List Marked) : List Marked :=
  middles.flatMap fun m => ends.map fun e => front ++ m ++ e

/-- The expansions of a marked text.  Every step works on shorter texts or on one with a brace more
protected, so twice the length bounds the depth. -/
def expandMarked : Nat → Bool → Marked → List Marked
  | 0, _, m => [m]
  | fuel + 1, top, m =>
    match findBraces? m with
    | none => [m]
    | some b =>
      let ends := if b.after.isEmpty then [[]] else expandMarked fuel false b.after
      if b.before.getLast? == some 0x24 then
        ends.map fun e => b.before ++ 0x7B :: b.body ++ 0x7D :: e
      else
        match sequence? b.body with
        | some members => combine b.before members ends
        | none =>
          if !b.body.contains 0x2C then
            if hasLaterPart b.after then
              expandMarked fuel false
                (b.before ++ 0x7B :: b.body ++ (0x7D + escapeOffset) :: b.after)
            else [m]
          else
            let keep (found : List Marked) : List Marked :=
              if top then found.filter fun e => !e.isEmpty else found
            match commaParts b.body.length b.body with
            | [single] =>
              match (expandMarked fuel false single).map fun e => 0x7B :: e ++ [0x7D] with
              | [only] => ends.map fun e => b.before ++ only ++ e
              | several => keep (combine b.before (several.flatMap (expandMarked fuel false)) ends)
            | parts => keep (combine b.before (parts.flatMap (expandMarked fuel false)) ends)

/-- Whether some opening brace has a closing one after it on its line. -/
def mayExpand : Bool → Text → Bool
  | _, [] => false
  | opened, u :: rest =>
    if u == 0x7B then mayExpand true rest
    else if u == 0x7D then opened || mayExpand opened rest
    else if u == 0x0A || u == 0x0D || u == 0x2028 || u == 0x2029 then mayExpand false rest
    else mayExpand opened rest

/-- The patterns that a pattern with braces stands for. -/
def braceExpand (pattern : Text) : List Text :=
  if !mayExpand false pattern then [pattern]
  else
    let protectedPattern : Text :=
      match pattern with
      | 0x7B :: 0x7D :: rest => 0x5C :: 0x7B :: 0x5C :: 0x7D :: rest
      | p => p
    let marked := markEscapes protectedPattern
    (expandMarked (2 * marked.length + 2) true marked).map unmark

end Glob

end CloneScan
