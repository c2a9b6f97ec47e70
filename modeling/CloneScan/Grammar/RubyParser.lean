import CloneScan.Grammar.RubyLexer

/-!
# Ruby

A parser of Ruby that builds the leaves of the parse tree.  Keywords are keywords only where the
grammar expects them, so a keyword after a dot or in the name of a method is a name.  A call needs no
parentheses, so blanks decide whether the mark behind a name starts an argument or joins operands.
Rules take the parser of inner rules as an argument, and `run` ties the knot with a bound on the
depth.
-/

namespace CloneScan

namespace Grammar.Ruby

/-- What the parser keeps track of: whether a line end ends a statement, whether `do` opens a block
and a bar joins operands, the heredocs that wait for their bodies, whether a token was supplied at
the end of the text, and where the outermost statement starts. -/
structure Layout where
  lineEnds : Bool
  doBlocks : Bool
  bars : Bool
  waiting : List Heredoc
  supplied : Bool
  outermost : Nat

/-- A parser of Ruby. -/
abbrev P := Parser Layout

/-- What an operand is: something that can be assigned to, an assignment, or another value. -/
inductive Shape where
  | target
  | assigned
  | value
  deriving DecidableEq, Repr

/-- The rules that refer to each other. -/
inductive Rule where
  | statement
  | expression
  | operation
  | primary
  | pattern

/-- The parser of inner rules. -/
abbrev Self := Rule → P Shape

/-! ## Tokens -/

/-- The gap before the next token. -/
def gap : P Gap := do
  return gapAt (← source) (← get).place (← extra).waiting

/-- Whether nothing is left. -/
def textIsOver : P Bool := do
  return (← source).atEnd (← gap).next

/-- Whether the statement ends here because its line does. -/
def lineIsOver : P Bool := do
  let g ← gap
  return (g.crossed && (← extra).lineEnds) || (← source).atEnd g.next

/-- Fails at the next token; at the end of the text the whole outermost statement is in error. -/
def refuse {α : Type} : P α := do
  if ← textIsOver then failAt (← extra).outermost else failAt (← gap).next

/-- Supplies a token that is missing at the end of the text.  This can be done once. -/
def supply : P Unit := do
  if (← textIsOver) && !(← extra).supplied then setExtra fun l => { l with supplied := true }
  else refuse

/-- Moves to the next token, over line ends too. -/
def enter : P Unit := do
  let g ← gap
  for (type, start, stop) in g.pieces do
    pushLeaf type start stop
  modify fun p => { p with place := g.next, extra := { p.extra with waiting := g.waiting } }

/-- Takes the next token, which ends at an offset, as a leaf. -/
def take (type : String) (stop : Nat) : P Unit := do
  enter
  pushLeaf type (← get).place stop

/-- The next token as an operator; empty when it is none or the line is over. -/
def nextOperator : P String := do
  if ← lineIsOver then return ""
  else return ((← source).firstSpelled (← gap).next operators).getD ""

/-- The next token as a word; empty when it is none or the line is over. -/
def nextWord : P String := do
  if ← lineIsOver then return "" else return wordAt (← source) (← gap).next

/-- Takes an operator or a keyword that is next. -/
def operator (w : String) : P Unit := do
  take w ((← gap).next + w.length)

/-- Takes an operator if it is next. -/
def operatorIf (w : String) : P Bool := do
  if (← nextOperator) == w then
    operator w
    return true
  else return false

/-- Takes a keyword if it is next. -/
def keywordIf (w : String) : P Bool := do
  if (← nextWord) == w then
    operator w
    return true
  else return false

/-- Moves over a line end where something has to follow. -/
def cross : P Unit := do
  if (← gap).crossed then enter

/-- Whether the next token closes the statement around this one. -/
def closerFollows : P Bool := do
  let s ← source
  let i := (← gap).next
  return wordAt s i == "end" || s.charAt i == '\x7d'

/-- Takes an operator that has to be next.  A bracket may be missing where the statement around it
ends. -/
def expect (w : String) : P Unit := do
  let closes ← closerFollows
  if closes && (w == ")" || w == "]") && !(← extra).supplied then
    setExtra fun l => { l with supplied := true }
  else
    cross
    if !(← operatorIf w) then supply

/-- Takes a keyword that has to be next. -/
def expectWord (w : String) : P Unit := do
  cross
  if !(← keywordIf w) then supply

/-- Whether blanks stand before the next token. -/
def spaced : P Bool := do
  return (← get).place < (← gap).next

/-- Whether a name is next. -/
def nameIsNext : P Bool := do
  if ← lineIsOver then return false
  else return (nameEnd? (← source) (← gap).next).isSome

/-- Takes a name without a mark at its end; any word will do. -/
def name : P Unit := do
  cross
  match nameEnd? (← source) (← gap).next with
  | some stop => take "identifier" stop
  | none => refuse

/-- Takes the name of a method that is called; any word will do. -/
def calledName : P Unit := do
  cross
  match methodEnd? (← source) (← gap).next with
  | some stop => take "identifier" stop
  | none =>
    match (← source).firstSpelled (← gap).next methodOperators with
    | some op => operator op
    | none => supply

/-- Runs a parser with its own treatment of line ends, in which blocks and bars are unrestricted. -/
def within {α : Type} (lineEnds : Bool) (p : P α) : P α := do
  let before ← extra
  setExtra fun l => { l with lineEnds, doBlocks := true, bars := true }
  let a ← p
  setExtra fun l =>
    { l with lineEnds := before.lineEnds, doBlocks := before.doBlocks, bars := before.bars }
  return a

/-- Runs a parser in which `do` belongs to the statement around it. -/
def beforeDo {α : Type} (p : P α) : P α := do
  let before := (← extra).doBlocks
  setExtra fun l => { l with doBlocks := false }
  let a ← p
  setExtra fun l => { l with doBlocks := before }
  return a

/-- Runs a parser between brackets, where line ends do not count. -/
def bracketed (opener closer : String) (p : P Unit) : P Unit := do
  operator opener
  within false do
    p
    expect closer

/-- Items with commas between them, up to a closing operator; a comma may follow the last. -/
def itemsUntil (closer : String) (item : P Unit) : P Unit :=
  many do
    if (← nextOperator) == closer || (← textIsOver) then return false
    else
      item
      operatorIf ","

/-- Items with commas between them; a line end may follow a comma. -/
def items (item : P Unit) : P Unit :=
  many do
    item
    if ← operatorIf "," then
      cross
      return true
    else return false

/-! ## Literals -/

/-- The type and the end of the literal at an offset where an operand is expected; the end is missing
when the literal is not closed. -/
def literalAt? (s : Source) (i : Nat) : Option (String × Option Nat) :=
  match s.charAt i with
  | '"' => some ("string", closingEnd? s ⟨'"', '"', true⟩ (i + 1))
  | '\'' => some ("string", closingEnd? s ⟨'\'', '\'', false⟩ (i + 1))
  | '`' => some ("subshell", closingEnd? s ⟨'`', '`', true⟩ (i + 1))
  | '/' => some ("regex", regexEnd? s ⟨'/', '/', true⟩ (i + 1))
  | '%' => percentAt? s i
  | ':' => if s.charAt (i + 1) == ':' then none else symbolAt? s i
  | '?' => (characterEnd? s i).map fun stop => ("character", some stop)
  | _ => (numberAt? s i).map fun (type, stop) => (type, some stop)

/-- Takes the letters that make a number rational or complex. -/
def numberMark : P Unit := do
  let s ← source
  let i := (← get).place
  match s.firstSpelled i numberMarks with
  | some mark =>
    if !isNameChar (s.charAt (i + mark.length)) then pushLeaf mark i (i + mark.length)
  | none => return

/-- Takes the literal that is next, if there is one, with the strings that stand beside a string. -/
def literalIf : P Bool := do
  let s ← source
  let i := (← gap).next
  match literalAt? s i with
  | none => return false
  | some (_, none) => failAt i
  | some (type, some stop) =>
    take type stop
    if (numberAt? s i).isSome then numberMark
    if type == "string" then
      many do
        if ← lineIsOver then return false
        else
          let i := (← gap).next
          let quoted := s.charAt i == '"' || s.charAt i == '\''
          match (if quoted then literalAt? s i else none) with
          | some (type, some stop) =>
            take type stop
            return true
          | _ => return false
    return true

/-- Whether an argument of a call without parentheses is next.  A mark that could join operands
starts an argument when blanks stand before it and none behind it. -/
def commandIsNext : P Bool := do
  if ← lineIsOver then return false
  else if !(← spaced) then return false
  else
    let s ← source
    let i := (← gap).next
    let tight (k : Nat) : Bool :=
      let c := s.charAt (i + k)
      !(s.atEnd (i + k) || c == ' ' || c == '\t' || c == '\n' || c == '\r' || c == '=')
    if (nameEnd? s i).isSome then return !reserved.contains (wordAt s i)
    else
      match ← nextOperator with
      | "" => return (literalAt? s i).isSome || (variableAt? s i).isSome
      | "[" | "(" | "->" | "!" | "~" => return true
      | "::" => return tight 2 && isConstant s (i + 2)
      | "-" | "+" | "*" | "&" => return tight 1
      | "**" => return tight 2
      | "/" => return tight 1
      | "%" | "%=" => return tight 1 && (percentAt? s i).isSome
      | "<<" => return (heredocAt? s i).isSome
      | ":" => return (symbolAt? s i).isSome
      | "?" => return (characterEnd? s i).isSome
      | _ => return false

/-- Whether an operand is next. -/
def operandIsNext : P Bool := do
  if ← lineIsOver then return false
  else
    let s ← source
    let i := (← gap).next
    if (nameEnd? s i).isSome then
      let w := wordAt s i
      return ["begin", "if", "unless", "while", "until"].contains w || !reserved.contains w
    else if (literalAt? s i).isSome || (variableAt? s i).isSome then return true
    else
      let op ← nextOperator
      return ["(", "[", "\x7b", "->", "!", "~", "-", "+", "*", "&", "**", "::", "..", "..."].contains
        op || (op == "<<" && (heredocAt? s i).isSome)

/-! ## Statements in sequence -/

/-- The words that cannot start a statement, because they close or divide the one around it. -/
def clauseWords : List String :=
  ["rescue", "else", "ensure", "end", "elsif", "when", "in", "then", "do"]

/-- Passes line ends and semicolons. -/
def terminators : P Unit :=
  many do
    if ← textIsOver then return false
    else if (← gap).crossed then
      enter
      return true
    else operatorIf ";"

/-- Statements up to something that cannot start one. -/
def statements (self : Self) : P Unit :=
  within true do
    many do
      terminators
      if ← textIsOver then return false
      else if clauseWords.contains (← nextWord) then return false
      else if [")", "]", "\x7d"].contains (← nextOperator) then return false
      else if (← source).spells (← gap).next "__END__\n" then return false
      else
        let _ ← self .statement
        if ← lineIsOver then return true else return (← nextOperator) == ";"

/-- The end of the head of a clause: line ends, semicolons and the word `then`. -/
def thenPart : P Unit := do
  terminators
  let _ ← keywordIf "then"
  return

/-- The clauses that follow the statements of a body, up to `end`. -/
def bodyClauses (self : Self) : P Unit :=
  many do
    terminators
    match ← nextWord with
    | "rescue" =>
      operator "rescue"
      if ← operandIsNext then
        items do
          let _ ← operatorIf "*"
          let _ ← self .operation
          return
      if ← operatorIf "=>" then
        let _ ← self .primary
        pure ()
      thenPart
      statements self
      return true
    | "else" =>
      operator "else"
      statements self
      return true
    | "ensure" =>
      operator "ensure"
      statements self
      return true
    | _ => return false

/-- A body with its clauses and `end`. -/
def bodyUntilEnd (self : Self) : P Unit := do
  statements self
  bodyClauses self
  terminators
  expectWord "end"

/-! ## Arguments -/

/-- The end of the name of a label at the next token: a name with a colon right behind it. -/
def labelEnd? : P (Option Nat) := do
  let s ← source
  match methodEnd? s (← gap).next with
  | some stop =>
    if s.charAt stop == ':' && s.charAt (stop + 1) != ':' then return some stop else return none
  | none => return none

/-- The end of a string with a colon right behind it at the next token. -/
def stringLabelEnd? : P (Option Nat) := do
  let s ← source
  let i := (← gap).next
  if s.charAt i == '"' || s.charAt i == '\'' then
    match literalAt? s i with
    | some (_, some stop) =>
      if s.charAt stop == ':' && s.charAt (stop + 1) != ':' then return some stop else return none
    | _ => return none
  else return none

/-- The value behind a label, which may be missing. -/
def labelValue (self : Self) : P Unit := do
  let op ← nextOperator
  if op == "," || op == ")" || op == "]" || op == "\x7d" then return
  else if ← lineIsOver then return
  else
    let _ ← self .operation
    return

/-- An argument of a call, an element of an array or an entry of a hash. -/
def argument (self : Self) : P Unit := do
  match ← labelEnd? with
  | some stop =>
    take "hash_key_symbol" stop
    operator ":"
    labelValue self
  | none =>
    match ← stringLabelEnd? with
    | some stop =>
      take "string" stop
      operator ":"
      let _ ← self .operation
      return
    | none =>
      match ← nextOperator with
      | "*" | "**" | "&" =>
        operator (← nextOperator)
        if ← operandIsNext then
          let _ ← self .operation
          return
      | "..." =>
        operator "..."
        if ← operandIsNext then
          let _ ← self .operation
          return
      | _ =>
        let _ ← self .operation
        if ← operatorIf "=>" then
          cross
          let _ ← self .operation
          return

/-- Arguments between parentheses. -/
def arguments (self : Self) : P Unit :=
  bracketed "(" ")" (itemsUntil ")" (argument self))

/-- Arguments of a call without parentheses. -/
def commandArguments (self : Self) : P Unit :=
  items (argument self)

/-! ## Parameters -/

/-- A parameter with the parser of nested parameters. -/
def parameterWith (self : Self) (nested : P Unit) : P Unit := do
  match ← nextOperator with
  | "*" | "**" | "&" =>
    operator (← nextOperator)
    if (← nextWord) == "nil" then operator "nil"
    else if ← nameIsNext then name
  | "..." => operator "..."
  | "(" => nested
  | _ =>
    match ← labelEnd? with
    | some stop =>
      take "identifier" stop
      operator ":"
      let bar := (← nextOperator) == "|"
      if !bar && (← operandIsNext) then
        let _ ← self .operation
        return
    | none =>
      name
      if ← operatorIf "=" then
        let _ ← self .operation
        return

/-- Parameters in parentheses that are themselves parameters, at most so deep. -/
def nestedParameters (self : Self) : Nat → P Unit
  | 0 => refuse
  | depth + 1 =>
    bracketed "(" ")" (itemsUntil ")" (parameterWith self (nestedParameters self depth)))

/-- A parameter. -/
def parameter (self : Self) : P Unit :=
  parameterWith self (nestedParameters self 32)

/-- Parameters between parentheses, with the names of block variables behind a semicolon. -/
def parameters (self : Self) : P Unit :=
  bracketed "(" ")" do
    itemsUntil ")" (parameter self)
    if ← operatorIf ";" then itemsUntil ")" name

/-- The parameters of a block between bars, if there are any. -/
def blockParameters (self : Self) : P Unit := do
  let s ← source
  let g ← gap
  if s.charAt g.next == '|' then
    enter
    operator "|"
    let before ← extra
    setExtra fun l => { l with lineEnds := false, bars := false }
    itemsUntil "|" (parameter self)
    if ← operatorIf ";" then itemsUntil "|" name
    expect "|"
    setExtra fun l => { l with lineEnds := before.lineEnds, bars := before.bars }

/-- A block between braces. -/
def braceBlock (self : Self) : P Unit := do
  operator "\x7b"
  within true do
    blockParameters self
    statements self
    terminators
    expect "\x7d"

/-- A block between `do` and `end`. -/
def doBlock (self : Self) : P Unit := do
  operator "do"
  within true do
    blockParameters self
    bodyUntilEnd self

/-- The block of a call if one is next. -/
def blockIf (self : Self) : P Bool := do
  if (← nextOperator) == "\x7b" then
    braceBlock self
    return true
  else if (← nextWord) == "do" then
    if (← extra).doBlocks then
      doBlock self
      return true
    else return false
  else return false

/-- The arguments and the block of a call behind the name of the method.  Tells whether there were
any. -/
def callRest (self : Self) : P Bool := do
  let tight := (← nextOperator) == "(" && !(← spaced)
  let taken ←
    if tight then
      arguments self
      pure true
    else if ← commandIsNext then
      commandArguments self
      pure true
    else pure false
  let block ← blockIf self
  return taken || block

/-! ## Patterns -/

/-- A part of a pattern between commas. -/
def patternItem (self : Self) : P Unit := do
  match ← labelEnd? with
  | some stop =>
    take "hash_key_symbol" stop
    operator ":"
    let op ← nextOperator
    let bare := ["", ",", ")", "]", "\x7d"].contains op && !(← operandIsNext)
    if !bare && !(["if", "unless", "then", "and", "or"].contains (← nextWord)) then
      let _ ← self .pattern
      return
  | none =>
    match ← nextOperator with
    | "*" | "**" =>
      operator (← nextOperator)
      if (← nextWord) == "nil" then operator "nil"
      else if ← nameIsNext then name
    | _ =>
      let _ ← self .pattern
      return

/-- Takes the operator of a range if it is next. -/
def rangeOperatorIf : P Bool := do
  match ← nextOperator with
  | ".." | "..." =>
    operator (← nextOperator)
    return true
  | _ => return false

/-- A pattern without alternatives. -/
def simplePattern (self : Self) : P Unit := do
  cross
  let s ← source
  let i := (← gap).next
  match ← nextOperator with
  | "[" => bracketed "[" "]" (itemsUntil "]" (patternItem self))
  | "\x7b" => bracketed "\x7b" "\x7d" (itemsUntil "\x7d" (patternItem self))
  | "(" => bracketed "(" ")" (itemsUntil ")" (patternItem self))
  | "^" =>
    operator "^"
    let _ ← self .primary
    return
  | _ =>
    if isConstant s i || s.spells i "::" then
      let _ ← operatorIf "::"
      name
      many do
        if ← operatorIf "::" then
          name
          return true
        else return false
      match ← nextOperator with
      | "(" => bracketed "(" ")" (itemsUntil ")" (patternItem self))
      | "[" => bracketed "[" "]" (itemsUntil "]" (patternItem self))
      | _ => pure ()
    else if ← rangeOperatorIf then
      let _ ← self .primary
      pure ()
    else if (← nameIsNext) && !(["nil", "true", "false", "self"].contains (← nextWord)) then name
    else
      let _ ← self .primary
      pure ()
    if ← rangeOperatorIf then
      if ← operandIsNext then
        let _ ← self .primary
        pure ()

/-- A pattern. -/
def pattern (self : Self) : P Shape := do
  many do
    simplePattern self
    operatorIf "|"
  many do
    if ← operatorIf "=>" then
      name
      return true
    else return false
  return .value

/-- A pattern that may consist of several parts. -/
def topPattern (self : Self) : P Unit :=
  many do
    patternItem self
    if ← operatorIf "," then operandIsNext else return false

/-! ## Definitions -/

/-- Takes the name that a method is defined by.  An equals sign right behind a name belongs to it. -/
def definedName : P Unit := do
  let s ← source
  calledName
  let i := (← get).place
  let after := s.charAt (i + 1)
  if s.charAt i == '=' && isNameChar (s.charAt (i - 1)) && after != '=' && after != '~' &&
      after != '>' then
    pushLeaf "=" i (i + 1)

/-- A definition of a method behind its keyword. -/
def methodRest (self : Self) : P Unit := do
  let s ← source
  cross
  let i := (← gap).next
  let ownerEnd : Option (String × Nat) :=
    match variableAt? s i with
    | some found => some found
    | none =>
      (nameEnd? s i).map fun stop =>
        (if s.slice i stop == Text.ofString "self" then "self" else "identifier", stop)
  match ownerEnd with
  | some (type, stop) =>
    if s.charAt stop == '.' then
      take type stop
      operator "."
  | none => pure ()
  definedName
  within true do
    match ← nextOperator with
    | "(" => parameters self
    | "=" | ";" => pure ()
    | _ => if !(← lineIsOver) then items (parameter self)
    if ← operatorIf "=" then
      cross
      let _ ← self .expression
      return
    else bodyUntilEnd self

/-- The name of a class or a module: constants with scopes. -/
def constantPath : P Unit := do
  cross
  let _ ← operatorIf "::"
  many do
    if !isConstant (← source) (← gap).next then refuse
    name
    operatorIf "::"

/-- A class behind its keyword. -/
def classRest (self : Self) : P Unit := do
  if ← operatorIf "<<" then
    let _ ← self .expression
    bodyUntilEnd self
  else
    constantPath
    if ← operatorIf "<" then
      let _ ← self .expression
      pure ()
    bodyUntilEnd self

/-! ## Compound expressions -/

/-- The branches of a condition behind its head, up to `end`. -/
def branches (self : Self) : P Unit := do
  statements self
  many do
    terminators
    match ← nextWord with
    | "elsif" =>
      operator "elsif"
      let _ ← self .expression
      thenPart
      statements self
      return true
    | "else" =>
      operator "else"
      statements self
      return true
    | _ => return false
  expectWord "end"

/-- A condition behind its keyword. -/
def conditionRest (self : Self) : P Unit :=
  within true do
    let _ ← self .expression
    thenPart
    branches self

/-- The body of a loop behind its head. -/
def loopBody (self : Self) : P Unit := do
  terminators
  let _ ← keywordIf "do"
  statements self
  terminators
  expectWord "end"

/-- A loop behind its keyword. -/
def loopRest (self : Self) : P Unit :=
  within true do
    let _ ← beforeDo (self .expression)
    loopBody self

/-- The targets of an assignment or a loop: items with commas, of which one may collect the rest. -/
def targets (self : Self) : Nat → P Unit
  | 0 => refuse
  | depth + 1 =>
    many do
      match ← nextOperator with
      | "(" => bracketed "(" ")" (targets self depth)
      | "*" =>
        operator "*"
        if (← operandIsNext) && (← nextWord) != "in" then
          let _ ← self .primary
          pure ()
      | _ =>
        if (← self .primary) != .target then refuse
      if ← operatorIf "," then
        let op ← nextOperator
        return op != "=" && op != ")" && op != "|"
      else return false

/-- A loop over the elements of something, behind its keyword. -/
def forRest (self : Self) : P Unit :=
  within true do
    targets self 16
    expectWord "in"
    let _ ← beforeDo (self .expression)
    loopBody self

/-- The clauses of a case expression behind its head, up to `end`. -/
def caseRest (self : Self) : P Unit :=
  within true do
    if ← operandIsNext then
      let _ ← self .expression
      pure ()
    many do
      terminators
      match ← nextWord with
      | "when" =>
        operator "when"
        items (argument self)
        thenPart
        statements self
        return true
      | "in" =>
        operator "in"
        topPattern self
        match ← nextWord with
        | "if" | "unless" =>
          operator (← nextWord)
          let _ ← self .expression
          pure ()
        | _ => pure ()
        thenPart
        statements self
        return true
      | "else" =>
        operator "else"
        statements self
        return true
      | _ => return false
    expectWord "end"

/-- A lambda behind its arrow. -/
def lambdaRest (self : Self) : P Unit := do
  match ← nextOperator with
  | "(" => parameters self
  | "\x7b" => pure ()
  | _ => if (← nextWord) != "do" then items (parameter self)
  if (← nextOperator) == "\x7b" then braceBlock self
  else if (← nextWord) == "do" then doBlock self
  else refuse

/-! ## Operands -/

/-- The parts that may follow an operand: calls, scopes and indices. -/
def postfixes (self : Self) (shape : Shape) : P Shape :=
  manyFrom shape fun shape => do
    match ← nextOperator with
    | "." | "&." =>
      operator (← nextOperator)
      cross
      if (← nextOperator) == "(" then
        arguments self
        return (.value, true)
      else
        calledName
        if ← callRest self then return (.value, true) else return (.target, true)
    | "::" =>
      operator "::"
      cross
      calledName
      if ← callRest self then return (.value, true) else return (.target, true)
    | "[" =>
      if ← spaced then return (shape, false)
      else
        bracketed "[" "]" (itemsUntil "]" (argument self))
        let _ ← blockIf self
        return (.target, true)
    | _ => return (shape, false)

/-- A jump with optional values. -/
def jump (self : Self) (w : String) : P Unit := do
  operator w
  let tight := (← nextOperator) == "(" && !(← spaced)
  if tight then
    let _ ← self .expression
    return
  else if ["if", "unless", "while", "until", "rescue"].contains (← nextWord) then return
  else if ["?", ":"].contains (← nextOperator) then
    if ← commandIsNext then commandArguments self
  else if ← operandIsNext then commandArguments self

/-- An operand that starts with a word. -/
def wordOperand (self : Self) (w : String) (stop : Nat) : P Shape := do
  match w with
  | "if" | "unless" =>
    operator w
    conditionRest self
    return .value
  | "while" | "until" =>
    operator w
    loopRest self
    return .value
  | "case" =>
    operator w
    caseRest self
    return .value
  | "for" =>
    operator w
    forRest self
    return .value
  | "begin" =>
    operator w
    within true (bodyUntilEnd self)
    return .value
  | "def" =>
    operator w
    methodRest self
    return .value
  | "class" =>
    operator w
    within true (classRest self)
    return .value
  | "module" =>
    operator w
    within true do
      constantPath
      bodyUntilEnd self
    return .value
  | "nil" | "true" | "false" | "self" =>
    operator w
    return .value
  | "__FILE__" =>
    take "file" stop
    return .value
  | "__LINE__" =>
    take "line" stop
    return .value
  | "__ENCODING__" =>
    take "encoding" stop
    return .value
  | "yield" | "super" =>
    operator w
    let _ ← callRest self
    return .value
  | "return" | "break" | "next" | "redo" | "retry" =>
    jump self w
    return .value
  | "not" =>
    operator w
    let _ ← self .operation
    return .value
  | "defined?" =>
    operator w
    let _ ← self .primary
    return .value
  | _ =>
    if reserved.contains w then refuse
    else
      take "identifier" stop
      if ← callRest self then return .value
      else
        let last := (← source).charAt (stop - 1)
        return if last == '?' || last == '!' then .value else .target

/-- An operand with what follows it. -/
def primary (self : Self) : P Shape := do
  cross
  let s ← source
  let i := (← gap).next
  if s.atEnd i then
    supply
    return .value
  else
    let shape ←
      match methodEnd? s i with
      | some stop => wordOperand self (wordAt s i) stop
      | none =>
        match variableAt? s i with
        | some (type, stop) =>
          take type stop
          pure .target
        | none =>
          match heredocAt? s i with
          | some (heredoc, stop) =>
            take "heredoc_beginning" stop
            setExtra fun l => { l with waiting := l.waiting ++ [heredoc] }
            pure .value
          | none =>
            if ← literalIf then pure .value
            else
              match ← nextOperator with
              | "(" =>
                operator "("
                within true do
                  statements self
                  terminators
                  expect ")"
                pure .value
              | "[" =>
                bracketed "[" "]" (itemsUntil "]" (argument self))
                pure .value
              | "\x7b" =>
                bracketed "\x7b" "\x7d" (itemsUntil "\x7d" (argument self))
                pure .value
              | "::" =>
                operator "::"
                name
                pure .target
              | "->" =>
                operator "->"
                lambdaRest self
                pure .value
              | _ => refuse
    postfixes self shape

/-- An operand with the signs before it. -/
def signed (self : Self) : P Shape := do
  cross
  match ← nextOperator with
  | "!" | "~" | "-" | "+" | "&" | "**" | "*" =>
    operator (← nextOperator)
    let _ ← self .primary
    return .value
  | ".." | "..." =>
    operator (← nextOperator)
    let _ ← self .primary
    return .value
  | _ => self .primary

/-- Operands with the signs before them and all the operators between them. -/
def operation (self : Self) : P Shape := do
  let first ← signed self
  manyFrom first fun shape => do
    let op ← nextOperator
    if op == "|" && !(← extra).bars then return (shape, false)
    else if binaryOperators.contains op then
      operator op
      let _ ← signed self
      return (.value, true)
    else if assignments.contains op then
      if shape != .target then refuse
      else
        operator op
        cross
        if ← operatorIf "*" then
          let _ ← self .operation
          return (.assigned, false)
        else
          let _ ← self .operation
          return (.assigned, false)
    else if op == "?" then
      operator op
      let _ ← self .operation
      expect ":"
      let _ ← self .operation
      return (.value, false)
    else if op == ".." || op == "..." then
      operator op
      if (← operandIsNext) && (← nextWord) != "then" then
        let _ ← signed self
        return (.value, true)
      else return (.value, true)
    else return (shape, false)

/-! ## Statements -/

/-- Values with commas between them, of which some may be spread. -/
def values (self : Self) : P Unit :=
  items do
    let _ ← operatorIf "*"
    let _ ← self .operation
    return

/-- An assignment to several targets. -/
def spreadAssignment (self : Self) : P Unit := do
  targets self 16
  expect "="
  cross
  values self

/-- What `and` and `or` join: an operation, an assignment of several values or to several targets, or
a match against a pattern. -/
def clause (self : Self) : P Unit := do
  cross
  let op ← nextOperator
  let spread ← if op == "*" || op == "(" then attempt (spreadAssignment self) else pure none
  if spread.isSome then return
  else
    let shape ← self .operation
    if (← nextOperator) == "," then
      match shape with
      | .target =>
        operator ","
        if (← nextOperator) == "=" then
          operator "="
          values self
        else spreadAssignment self
      | .assigned =>
        operator ","
        cross
        values self
      | .value => refuse
    else if (← nextOperator) == "=>" then
      operator "=>"
      topPattern self
    else if (← nextWord) == "in" then
      operator "in"
      topPattern self

/-- An expression. -/
def expression (self : Self) : P Shape := do
  many do
    clause self
    match ← nextWord with
    | "and" | "or" =>
      operator (← nextWord)
      return true
    | _ => return false
  return .value

/-- The name of a method, a symbol or a global variable that is renamed or removed. -/
def methodReference : P Unit := do
  let s ← source
  let i := (← gap).next
  match symbolAt? s i, variableAt? s i with
  | _, some (type, stop) => take type stop
  | some (type, some stop), none => if s.charAt i == ':' then take type stop else definedName
  | _, _ => definedName

/-- A statement with its modifiers. -/
def statement (self : Self) : P Shape := do
  match ← nextWord with
  | "alias" =>
    operator "alias"
    methodReference
    methodReference
  | "undef" =>
    operator "undef"
    items methodReference
  | "BEGIN" | "END" =>
    operator (← nextWord)
    if (← nextOperator) == "\x7b" then braceBlock self else refuse
  | _ =>
    let _ ← self .expression
    pure ()
  many do
    match ← nextWord with
    | "if" | "unless" | "while" | "until" | "rescue" =>
      operator (← nextWord)
      let _ ← self .expression
      return true
    | _ => return false
  return .value

/-- The parser of each rule, with so much depth left. -/
def run : Nat → Rule → P Shape
  | 0, _ => refuse
  | depth + 1, rule =>
    match rule with
    | .statement => statement (run depth)
    | .expression => expression (run depth)
    | .operation => operation (run depth)
    | .primary => primary (run depth)
    | .pattern => pattern (run depth)

/-- What stands behind the end mark of the program, if there is one. -/
def data : P Unit := do
  let s ← source
  let g ← gap
  if s.spells g.next "__END__\n" then
    enter
    pushLeaf "uninterpreted" (g.next + 8) s.size

/-- A program: statements, of which each may be the outermost one in error. -/
def program : P Unit := do
  let self := run (8 * (← source).size + 64)
  let top : Self := fun rule => do
    enter
    let start := (← get).place
    setExtra fun l => { l with outermost := start }
    self rule
  statements top
  data
  enter
  if !(← textIsOver) then refuse

/-- The parser of Ruby. -/
def treeParser : TreeParser :=
  Grammar.treeParser "program" ⟨true, true, true, [], false, 0⟩ program

end Grammar.Ruby

end CloneScan
