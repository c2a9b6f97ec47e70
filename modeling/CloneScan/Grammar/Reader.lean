import CloneScan.ParseTree
import CloneScan.Text.Letter
import CloneScan.Text.LineTable

/-!
# Reading grammars

What the grammars that build parse trees share: the source text with its rows, and a parser that
moves through it and pushes the trees that it recognizes.  These trees have offsets as ranges, and
get their rows and columns when the whole text has been read.  A parser fails with the offset at
which the error node of the text starts.
-/

namespace CloneScan

/-- A source text and the starts of its rows. -/
structure Source where
  units : Array UInt16
  rows : LineTable

namespace Source

/-- The source of a text. -/
def ofText (t : Text) : Source :=
  ⟨t.toArray, LineTable.ofRows t⟩

/-- The number of units. -/
def size (s : Source) : Nat :=
  s.units.size

/-- The unit at an offset; zero beyond the end. -/
def unitAt (s : Source) (i : Nat) : UInt16 :=
  s.units.getD i 0

/-- The character at an offset.  All characters beyond the first 128 look the same. -/
def charAt (s : Source) (i : Nat) : Char :=
  let u := s.unitAt i
  if u < 0x80 then Char.ofNat u.toNat else '\u0080'

/-- Whether there is nothing at an offset. -/
def atEnd (s : Source) (i : Nat) : Bool :=
  s.size ≤ i

/-- Whether the characters from an offset on are the given ones. -/
def spellsList (s : Source) : Nat → List Char → Bool
  | _, [] => true
  | i, c :: rest => s.charAt i == c && s.spellsList (i + 1) rest

/-- Whether the characters from an offset on spell a text. -/
def spells (s : Source) (i : Nat) (w : String) : Bool :=
  s.spellsList i w.toList

/-- The text between two offsets. -/
def slice (s : Source) (start stop : Nat) : Text :=
  (s.units.extract start stop).toList

/-- The place of an offset in a tree. -/
def point (s : Source) (i : Nat) : TreePoint :=
  let p := s.rows.position i
  ⟨i, p.line, p.column⟩

/-- The code point at an offset and the number of its units. -/
def scalarAt (s : Source) (i : Nat) : Nat × Nat :=
  let u := s.unitAt i
  if Text.isHighSurrogate u && Text.isLowSurrogate (s.unitAt (i + 1)) then
    (Text.pairValue u (s.unitAt (i + 1)), 2)
  else (u.toNat, 1)

/-- The first offset from `i` on at which a condition on offsets fails, at most `fuel` units on. -/
def skipWhile (s : Source) (p : Char → Bool) : Nat → Nat → Nat
  | 0, i => i
  | fuel + 1, i => if !s.atEnd i && p (s.charAt i) then skipWhile s p fuel (i + 1) else i

/-- The end of the run of characters from an offset on that satisfy a condition. -/
def runEnd (s : Source) (p : Char → Bool) (i : Nat) : Nat :=
  s.skipWhile p s.size i

/-- The number of units of the character at an offset if it can stand in a name, else zero.  The
flag tells whether it has to be able to start the name. -/
def nameWidth (s : Source) (first : Bool) (i : Nat) : Nat :=
  let c := s.charAt i
  if c.isAlpha || c == '_' then 1
  else if c.isDigit then (if first then 0 else 1)
  else if s.unitAt i < 0x80 then 0
  else
    let (code, width) := s.scalarAt i
    if (if first then Text.isNameStart code else Text.isNamePart code) then width else 0

/-- The end of the part of a name that goes on at an offset. -/
def nameRest (s : Source) : Nat → Nat → Nat
  | 0, i => i
  | fuel + 1, i =>
    match s.nameWidth false i with
    | 0 => i
    | width => nameRest s fuel (i + width)

/-- The end of the name at an offset, if there is one. -/
def nameEnd? (s : Source) (i : Nat) : Option Nat :=
  match s.nameWidth true i with
  | 0 => none
  | width => some (s.nameRest s.size (i + width))

/-- The name at an offset as a string, for comparison with keywords; empty when there is none or when
it has characters beyond the first 128. -/
def wordAt (s : Source) (i : Nat) : String :=
  match s.nameEnd? i with
  | none => ""
  | some stop =>
    let units := s.slice i stop
    if units.all (· < 0x80) then String.ofList (units.map fun u => Char.ofNat u.toNat) else ""

/-- The first of some texts that is spelled at an offset. -/
def firstSpelled (s : Source) (i : Nat) (texts : List String) : Option String :=
  texts.find? (s.spells i)

end Source

/-- A tree whose ranges are offsets in a text. -/
inductive SpanTree where
  | node (type : String) (start stop : Nat) (children : List SpanTree)

namespace SpanTree

/-- The offset at which a node starts. -/
def start : SpanTree → Nat
  | .node _ start .. => start

/-- The offset behind a node. -/
def stop : SpanTree → Nat
  | .node _ _ stop _ => stop

mutual

/-- The tree with the rows and columns that its offsets have in a source. -/
def place (s : Source) : SpanTree → ParseTree
  | .node type start stop children => .node type (s.point start) (s.point stop) (placeAll s children)

/-- The trees with the rows and columns of a source. -/
def placeAll (s : Source) : List SpanTree → List ParseTree
  | [] => []
  | t :: rest => t.place s :: placeAll s rest

end

mutual

theorem follows_place (s : Source) : ∀ t : SpanTree, (t.place s).Follows s.rows
  | .node _ _ _ children => by
    rw [place]
    exact .node rfl rfl (follows_of_mem_placeAll s children)

theorem follows_of_mem_placeAll (s : Source) : ∀ trees : List SpanTree,
    ∀ t ∈ placeAll s trees, t.Follows s.rows
  | [] => by simp [placeAll]
  | tree :: trees => by
    rw [placeAll]
    exact List.forall_mem_cons.mpr ⟨follows_place s tree, follows_of_mem_placeAll s trees⟩

end

end SpanTree

namespace Grammar

/-- How far a parser has come: the offset behind the last token, the trees of the node that is being
built, and what the grammar itself keeps track of. -/
structure Progress (ε : Type) where
  place : Nat
  trees : Array SpanTree
  extra : ε

/-- A parser. -/
abbrev Parser (ε : Type) := ReaderT Source (StateT (Progress ε) (Except Nat))

variable {ε α : Type}

/-- The source. -/
def source : Parser ε Source :=
  read

/-- What the grammar keeps track of. -/
def extra : Parser ε ε := do
  return (← get).extra

/-- Changes what the grammar keeps track of. -/
def setExtra (f : ε → ε) : Parser ε Unit :=
  modify fun p => { p with extra := f p.extra }

/-- Fails with an error at an offset. -/
def failAt (i : Nat) : Parser ε α :=
  throw i

/-- Tries a parser; a failure changes nothing. -/
def attempt (p : Parser ε α) : Parser ε (Option α) := fun s st =>
  match p s st with
  | .ok (a, st) => .ok (some a, st)
  | .error _ => .ok (none, st)

/-- Runs a parser and forgets what it did. -/
def lookAhead (p : Parser ε α) : Parser ε α := fun s st =>
  match p s st with
  | .ok (a, _) => .ok (a, st)
  | .error e => .error e

/-- Pushes the leaf between two offsets and moves behind it. -/
def pushLeaf (type : String) (start stop : Nat) : Parser ε Unit :=
  modify fun p => { p with place := stop, trees := p.trees.push (.node type start stop []) }

/-- Makes one node of the trees that a parser pushes. -/
def node (type : String) (p : Parser ε α) : Parser ε α := do
  let before := (← get).trees
  modify fun p => { p with trees := #[] }
  let a ← p
  modify fun p =>
    let start := (p.trees[0]?.map SpanTree.start).getD p.place
    let stop := (p.trees.back?.map SpanTree.stop).getD p.place
    { p with trees := before.push (.node type start stop p.trees.toList) }
  return a

/-- Runs a parser with a value as long as it says that there is more, at most `fuel` times. -/
def repeatFrom {β : Type} (p : β → Parser ε (β × Bool)) : Nat → β → Parser ε β
  | 0, _ => do failAt (← get).place
  | fuel + 1, b => do
    match ← p b with
    | (b, true) => repeatFrom p fuel b
    | (b, false) => return b

/-- Runs a parser with a value as long as it says that there is more. -/
def manyFrom {β : Type} (b : β) (p : β → Parser ε (β × Bool)) : Parser ε β := do
  repeatFrom p ((← source).size + 1) b

/-- Runs a parser as long as it says that there is more. -/
def many (p : Parser ε Bool) : Parser ε Unit :=
  manyFrom () fun _ => do return ((), ← p)

/-- The tree that a parser builds of a text; an error is a tree with an error node. -/
def parse (type : String) (start : ε) (p : Parser ε Unit) (t : Text) : ParseTree :=
  let s := Source.ofText t
  let children : List SpanTree :=
    match p s ⟨0, #[], start⟩ with
    | .ok (_, st) => st.trees.toList
    | .error i => [.node "ERROR" i s.size []]
  SpanTree.place s (.node type 0 s.size children)

/-- A parser of the trees of a grammar. -/
def treeParser (type : String) (start : ε) (p : Parser ε Unit) : TreeParser where
  parse t := .ok (parse type start p t)
  follows h := by
    cases h
    exact SpanTree.follows_place (Source.ofText _) _

end Grammar

end CloneScan
