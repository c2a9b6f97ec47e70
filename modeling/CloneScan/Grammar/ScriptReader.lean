import CloneScan.Grammar.ScriptLexer

/-!
# Reading scripts

A reader of scripts never fails: where something is missing it notes a leaf without width and goes on,
and a token that fits nowhere is passed over.  A list ends at its own end, or at a token with which a
list around it could go on.
-/

namespace CloneScan

namespace Grammar.Script

/-- What the dialect of a script allows: markup among the expressions, and types among them. -/
structure Setting where
  source : Source
  markup : Bool
  types : Bool

/-- A leaf: its kind, the offset behind the leaf before it, and its own start and end. -/
structure Leaf where
  kind : NodeKind
  full : Nat
  start : Nat
  stop : Nat
  deriving Inhabited

/-- The kinds of lists. -/
inductive ListKind where
  | script
  | block
  | clauses
  | clauseBody
  | typeMembers
  | classMembers
  | enumMembers
  | heritageTypes
  | variables
  | objectBinding
  | arrayBinding
  | arguments
  | objectMembers
  | attributes
  | children
  | arrayMembers
  | parameters
  | typeParameters
  | typeArguments
  | tupleTypes
  | heritage
  | specifiers
  | importAttributes
  deriving DecidableEq, Repr

/-- How far a reader has come: the next token, the leaves so far, the lists that are open, what `yield`
and `await` mean, whether a decorator is being read, whether `in` is no operator and a conditional type
is not allowed, how many errors were met, where no arrow function starts, and whether the script is a
module and uses `await` as a name. -/
structure Reading where
  token : Lexeme
  leaves : Array Leaf
  lists : List ListKind
  inYield : Bool
  inAwait : Bool
  inDecorator : Bool
  noIn : Bool
  noConditional : Bool
  errors : Nat
  noArrow : List Nat
  isModule : Bool
  awaitName : Bool

/-- A reader. -/
abbrev P := ReaderT Setting (StateM Reading)

/-- What a rule has read: a name, something else that a call can follow, another value, a type whose
name is missing, a type with a question mark behind it, or an element of markup. -/
inductive Shape where
  | name
  | leftHand
  | value
  | missing
  /-- A type with a question mark, and the leaves as they were when it was read as part of one. -/
  | nullable (leaves : Array Leaf)
  /-- An element with the names in its opening and closing tags, the number of leaves behind its
  children and the offset there. -/
  | element (opening closing : List Text) (leaves offset : Nat)
  deriving Inhabited

/-- The rules that refer to each other. -/
inductive Rule where
  | statement
  | expression
  /-- An expression without commas.  The flag tells whether an arrow function may have the type of its
  result written. -/
  | assignment (typed : Bool)
  | binary
  | unary
  | leftHand
  | binding
  | type
  | typeOperator
  | plainType
  | namespaceRest
  /-- An element of markup.  The flags tell whether it stands among expressions and whether it may
  only be an operand. -/
  | element (inExpression operand : Bool)

/-- The reader of inner rules. -/
abbrev Self := Rule → P Shape

/-! ## Tokens -/

/-- The source. -/
def source : P Source := do
  return (← read).source

/-- The next token. -/
def token : P Lexeme := do
  return (← get).token

/-- Makes another token the next one. -/
def setToken (l : Lexeme) : P Unit :=
  modify fun r => { r with token := l }

/-- Moves over the next token. -/
def advance : P Unit := do
  setToken (lexemeFrom (← source) (← read).markup (← token).stop)

/-- Moves into the text behind a tag. -/
def advanceMarkup : P Unit := do
  setToken (markupLexeme (← source) (← token).stop)

/-- Whether the next token has a spelling. -/
def nextIs (w : String) : P Bool := do
  return (← token).text == w

/-- Whether the next token has one of some spellings. -/
def atAny (ws : List String) : P Bool := do
  let w := (← token).text
  return w != "" && ws.contains w

/-- Whether the next token has a number. -/
def atNumber (n : Nat) : P Bool := do
  return (← token).number == n

/-- Whether a line end stands before the next token. -/
def broken : P Bool := do
  return (← token).broken

/-- Notes an error. -/
def blame : P Unit :=
  modify fun r => { r with errors := r.errors + 1 }

/-- Notes a leaf. -/
def pushLeaf (leaf : Leaf) : P Unit :=
  modify fun r => { r with leaves := r.leaves.push leaf }

/-- Takes the next token as a leaf with a number. -/
def takeAs (number : Nat) : P Unit := do
  let l ← token
  pushLeaf ⟨.token number, l.full, l.start, l.stop⟩
  advance

/-- Takes the next token as a leaf. -/
def take : P Unit := do
  takeAs (← token).number

/-- Notes that a token is missing before the next one. -/
def missing (number : Nat) : P Unit := do
  let l ← token
  blame
  pushLeaf ⟨.token number, l.full, l.full, l.full⟩

/-- Moves over a token with a spelling if it is next. -/
def optional (w : String) : P Bool := do
  if ← nextIs w then
    advance
    return true
  else return false

/-- Moves over a token that should be next. -/
def expect (w : String) : P Bool := do
  if ← nextIs w then
    advance
    return true
  else
    blame
    return false

/-- Moves over a token that should be next. -/
def want (w : String) : P Unit := do
  let _ ← expect w
  return

/-- Moves over a token that has to be next; its absence leaves a missing leaf.  Tells whether it was
there. -/
def demand (w : String) : P Bool := do
  if ← nextIs w then
    advance
    return true
  else
    missing (numberOf w)
    return false

/-! ## Trying -/

/-- Runs a reader and forgets all that it did but where no arrow function starts. -/
def lookAhead {α : Type} (p : P α) : P α := do
  let before ← get
  let a ← p
  modify fun r => { before with noArrow := r.noArrow }
  return a

/-- Runs a reader, and undoes what it did if it says that it failed. -/
def attempt (p : P Bool) : P Bool := do
  let before ← get
  if ← p then return true
  else
    modify fun r => { before with noArrow := r.noArrow }
    return false

/-- Runs a reader as long as it says that there is more, at most `fuel` times. -/
def repeatUpTo (p : P Bool) : Nat → P Unit
  | 0 => return
  | fuel + 1 => do
    if ← p then repeatUpTo p fuel

/-- Runs a reader as long as it says that there is more. -/
def many (p : P Bool) : P Unit := do
  repeatUpTo p (2 * (← source).size + 8)

/-- Runs a reader with a value as long as it says that there is more, at most `fuel` times. -/
def repeatFrom {β : Type} (p : β → P (β × Bool)) : Nat → β → P β
  | 0, b => return b
  | fuel + 1, b => do
    match ← p b with
    | (b, true) => repeatFrom p fuel b
    | (b, false) => return b

/-- Runs a reader with a value as long as it says that there is more. -/
def manyFrom {β : Type} (b : β) (p : β → P (β × Bool)) : P β := do
  repeatFrom p (2 * (← source).size + 8) b

/-- Whether a condition holds at the token behind the next one. -/
def nextSatisfies (p : P Bool) : P Bool :=
  lookAhead do
    advance
    p

/-! ## Contexts -/

/-- Runs a reader in which `in` is no operator, or is one. -/
def withIn {α : Type} (noIn : Bool) (p : P α) : P α := do
  let before := (← get).noIn
  modify fun r => { r with noIn }
  let a ← p
  modify fun r => { r with noIn := before }
  return a

/-- Runs a reader with `in` as an operator. -/
def allowIn {α : Type} (p : P α) : P α :=
  withIn false p

/-- Runs a reader outside a decorator or inside one. -/
def withDecorator {α : Type} (inDecorator : Bool) (p : P α) : P α := do
  let before := (← get).inDecorator
  modify fun r => { r with inDecorator }
  let a ← p
  modify fun r => { r with inDecorator := before }
  return a

/-- Runs a reader with meanings of `yield` and `await`. -/
def withFlow {α : Type} (inYield inAwait : Bool) (p : P α) : P α := do
  let yieldBefore := (← get).inYield
  let awaitBefore := (← get).inAwait
  modify fun r => { r with inYield, inAwait }
  let a ← p
  modify fun r => { r with inYield := yieldBefore, inAwait := awaitBefore }
  return a

/-- Runs a reader with a meaning of `await`. -/
def withAwait {α : Type} (inAwait : Bool) (p : P α) : P α := do
  withFlow (← get).inYield inAwait p

/-- Runs a reader in which a conditional type is allowed, or is not. -/
def withConditional {α : Type} (noConditional : Bool) (p : P α) : P α := do
  let before := (← get).noConditional
  modify fun r => { r with noConditional }
  let a ← p
  modify fun r => { r with noConditional := before }
  return a

/-! ## Names -/

/-- Whether a name is next; `yield` and `await` are names where they have no meaning. -/
def nameIsNext : P Bool := do
  let r ← get
  let l := r.token
  if l.number == NodeKind.identifier then return true
  else if l.text == "yield" && r.inYield then return false
  else if l.text == "await" && r.inAwait then return false
  else return NodeKind.lastReserved < l.number

/-- Whether a name that is bound is next. -/
def boundNameIsNext : P Bool := do
  let l ← token
  return l.number == NodeKind.identifier || NodeKind.lastReserved < l.number

/-- Whether a name or any keyword is next. -/
def nameLikeIsNext : P Bool := do
  return (← token).isNameLike

/-- Takes a name if it may be one; else notes that one is missing.  Tells whether it was there. -/
def takeName (allowed : Bool) : P Bool := do
  if allowed || (← atNumber NodeKind.privateIdentifier) then
    takeAs NodeKind.identifier
    return true
  else
    missing NodeKind.identifier
    return false

/-- Takes a name. -/
def name : P Unit := do
  let _ ← takeName (← nameIsNext)
  return

/-- Takes a name that is bound. -/
def boundName : P Unit := do
  let _ ← takeName (← boundNameIsNext)
  return

/-- Takes a name or any keyword as a name.  Tells whether one was there. -/
def anyName? : P Bool := do
  takeName (← nameLikeIsNext)

/-- Takes a name or any keyword as a name. -/
def anyName : P Unit := do
  let _ ← anyName?
  return

/-- Whether a name, a keyword or a literal that names a property is next. -/
def plainPropertyIsNext : P Bool := do
  let l ← token
  return l.isNameLike || l.number == NodeKind.string || l.number == NodeKind.numeric ||
    l.number == NodeKind.bigNumeric

/-! ## Semicolons -/

/-- Whether a statement may end here. -/
def canEnd : P Bool := do
  let l ← token
  return l.text == ";" || l.text == "\x7d" || l.number == NodeKind.endOfFile || l.broken

/-- Ends a statement if it may end here. -/
def endIf : P Bool := do
  if ← canEnd then
    let _ ← optional ";"
    return true
  else return false

/-- Ends a statement. -/
def endStatement : P Unit := do
  if !(← endIf) then blame

/-- Ends a member of a type. -/
def endTypeMember : P Unit := do
  if !(← optional ",") then endStatement

end Grammar.Script

end CloneScan
