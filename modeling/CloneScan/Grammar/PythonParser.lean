import CloneScan.Grammar.PythonLexer

/-!
# Python

A parser of Python that builds the parts of the parse tree that matter for tokens: definitions,
blocks, expression statements and leaves.  Keywords are keywords only where the grammar expects
them, so a keyword elsewhere is a name.  Rules take the parser of inner rules as an argument, and
`run` ties the knot with a bound on the depth.
-/

namespace CloneScan

namespace Grammar.Python

/-- What the parser keeps track of: the indentations of the open blocks, whether a line end ends the
statement, how many brackets are open, and where the statement and the outermost statement start. -/
structure Layout where
  indents : List Nat
  lineEnds : Bool
  brackets : Nat
  statement : Nat
  outermost : Nat

/-- A parser of Python. -/
abbrev P := Parser Layout

/-- Whether an expression can be assigned to. -/
inductive Shape where
  | target
  | value
  deriving DecidableEq, Repr

/-- The rules that refer to each other. -/
inductive Rule where
  | expression
  | operand
  | primary
  | pattern
  | statement
  | suite

/-- The parser of inner rules. -/
abbrev Self := Rule → P Shape

/-! ## Tokens -/

/-- The gap before the next token. -/
def gap : P Gap := do
  return gapAt (← source) (← get).place

/-- The indentation of the innermost open block. -/
def Layout.indent (l : Layout) : Nat :=
  l.indents.headD 0

/-- Whether the statement ends here because its line does. -/
def lineIsOver : P Bool := do
  let g ← gap
  return g.crossed && (← extra).lineEnds

/-- Fails at the next token.  At the end of the text the whole outermost statement is in error;
between brackets the token is; elsewhere the statement is. -/
def refuse {α : Type} : P α := do
  let g ← gap
  let l ← extra
  if (← source).atEnd g.next then failAt l.outermost
  else if 0 < l.brackets then failAt g.next
  else failAt l.statement

/-- Takes the next token, which ends at an offset, as a leaf.  A token of an open statement may not
stand further left than its block. -/
def take (type : String) (stop : Nat) : P Unit := do
  let g ← gap
  let l ← extra
  let c := (← source).charAt g.next
  if g.crossed && l.brackets == 0 && g.indent < l.indent && c != '"' && c != '\'' && c != '`' then
    refuse
  else
    for (type, start, stop) in g.pieces do
      pushLeaf type start stop
    pushLeaf type g.next stop

/-- The next token as an operator; empty when it is none or the line is over. -/
def nextOperator : P String := do
  if ← lineIsOver then return ""
  else
    let s ← source
    let i := (← gap).next
    if s.charAt i == '.' && (s.charAt (i + 1)).isDigit then return ""
    else return (s.firstSpelled i operators).getD ""

/-- The next token as a word; empty when it is none, opens a string, or the line is over. -/
def nextWord : P String := do
  if ← lineIsOver then return ""
  else
    let s ← source
    let i := (← gap).next
    if (openString? s i).isSome then return "" else return s.wordAt i

/-- Takes an operator that is next. -/
def operator (w : String) : P Unit := do
  take w ((← gap).next + w.length)

/-- Takes a keyword that is next, as a leaf of a type. -/
def wordAs (type w : String) : P Unit := do
  take type ((← gap).next + w.length)

/-- Takes a keyword that is next. -/
def keyword (w : String) : P Unit :=
  wordAs w w

/-- Takes an operator if it is next. -/
def operatorIf (w : String) : P Bool := do
  if (← nextOperator) == w then
    operator w
    return true
  else return false

/-- Takes a keyword if it is next. -/
def keywordIf (w : String) : P Bool := do
  if (← nextWord) == w then
    keyword w
    return true
  else return false

/-- Moves to the next token, over line ends too. -/
def enter : P Unit := do
  let g ← gap
  for (type, start, stop) in g.pieces do
    pushLeaf type start stop
  modify fun p => { p with place := g.next }

/-- Moves over a line end where something has to follow, so that the statement cannot end. -/
def cross : P Unit := do
  if ← lineIsOver then
    let g ← gap
    let s ← source
    if s.atEnd g.next || (g.indent < (← extra).indent && (openString? s g.next).isNone) then refuse
    else enter

/-- Takes an operator that has to be next. -/
def expect (w : String) : P Unit := do
  cross
  if !(← operatorIf w) then refuse

/-- Takes a keyword that has to be next. -/
def expectWord (w : String) : P Unit := do
  cross
  if !(← keywordIf w) then refuse

/-- Takes a name that has to be next; any word will do. -/
def name : P Unit := do
  cross
  let i := (← gap).next
  match (← source).nameEnd? i with
  | some stop => take "identifier" stop
  | none => refuse

/-- Whether a name is next. -/
def nameIsNext : P Bool := do
  if ← lineIsOver then return false
  else
    let s ← source
    let i := (← gap).next
    return (s.nameEnd? i).isSome && (openString? s i).isNone

/-- Runs a parser between brackets, where line ends do not count. -/
def bracketed {α : Type} (opener closer : String) (p : P α) : P α := do
  operator opener
  let before := (← extra).lineEnds
  setExtra fun l => { l with lineEnds := false, brackets := l.brackets + 1 }
  let a ← p
  expect closer
  setExtra fun l => { l with lineEnds := before, brackets := l.brackets - 1 }
  return a

/-- Items with commas between them, up to a closing operator; a comma may follow the last. -/
def itemsUntil (closer : String) (item : P Unit) : P Unit :=
  many do
    if (← nextOperator) == closer then return false
    else
      item
      operatorIf ","

/-! ## Expressions -/

/-- The words that join two operands. -/
def joiningWords : List String :=
  ["in", "is", "not", "and", "or", "if", "else", "for", "as", "async", "from"]

/-- Whether something that an operand can start with is next. -/
def operandIsNext : P Bool := do
  if ← lineIsOver then return false
  else
    let s ← source
    let i := (← gap).next
    let op ← nextOperator
    return (openString? s i).isSome || (numberAt? s i).isSome || (s.nameEnd? i).isSome ||
      ["(", "[", "\x7b", "...", "-", "+", "~", "*"].contains op

/-- Takes strings that stand side by side. -/
def strings : P Unit := do
  let s ← source
  many do
    if ← lineIsOver then return false
    else
      let i := (← gap).next
      match openString? s i with
      | none => return false
      | some _ =>
        match stringAt? s i with
        | none => refuse
        | some stop =>
          take "string" stop
          return true

/-- Takes a `yield` expression after its keyword. -/
def yieldRest (self : Self) : P Unit := do
  if ← keywordIf "from" then
    let _ ← self .expression
    return
  else
    many do
      if ← operandIsNext then
        let _ ← self .expression
        operatorIf ","
      else return false

/-- Takes the clauses of a comprehension, if there are any. -/
def comprehension (self : Self) : P Unit :=
  many do
    match ← nextWord with
    | "if" =>
      keyword "if"
      let _ ← self .expression
      return true
    | "async" | "for" =>
      let _ ← keywordIf "async"
      expectWord "for"
      many do
        let _ ← self .primary
        if ← operatorIf "," then return (← nextWord) != "in" else return false
      expectWord "in"
      many do
        let _ ← self .expression
        if ← operatorIf "," then operandIsNext else return false
      return true
    | _ => return false

/-- An element of a list, a set or parentheses.  Tells whether it can be assigned to. -/
def element (self : Self) : P Shape := do
  if (← nextWord) == "yield" then
    keyword "yield"
    yieldRest self
    return .value
  else
    let shape ← self .expression
    match ← nextWord with
    | "for" | "async" =>
      comprehension self
      return .value
    | _ => return shape

/-- The elements up to a closing bracket; all of them have to be targets for a target. -/
def elements (self : Self) (closer : String) : P Shape :=
  manyFrom .target fun shape => do
    if (← nextOperator) == closer then return (shape, false)
    else
      let next ← element self
      return (if next == .target then shape else .value, ← operatorIf ",")

/-- The entries of a dictionary or a set. -/
def entries (self : Self) : P Unit :=
  itemsUntil "\x7d" do
    if ← operatorIf "**" then
      let _ ← self .expression
      return
    else
      let _ ← element self
      if ← operatorIf ":" then
        let _ ← self .expression
        comprehension self

/-- An argument of a call: a splat, a named one or an expression. -/
def argument (self : Self) : P Unit := do
  if ← operatorIf "**" then
    let _ ← self .expression
    return
  else
    let named ← attempt do
      name
      expect "="
    match named with
    | some _ =>
      let _ ← self .expression
      return
    | none =>
      let _ ← element self
      return

/-- The arguments of a call. -/
def arguments (self : Self) : P Unit :=
  bracketed "(" ")" (itemsUntil ")" (argument self))

/-- An expression if one is next. -/
def expressionIf (self : Self) : P Unit := do
  if ← operandIsNext then
    let _ ← self .expression
    return

/-- An index or a slice. -/
def index (self : Self) : P Unit := do
  expressionIf self
  if ← operatorIf ":" then
    expressionIf self
    if ← operatorIf ":" then expressionIf self

/-- An atom. -/
def atom (self : Self) : P Shape := do
  cross
  let s ← source
  let i := (← gap).next
  if (openString? s i).isSome then
    strings
    return .value
  else
    match numberAt? s i with
    | some (type, stop) =>
      take type stop
      return .value
    | none =>
      match ← nextOperator with
      | "(" => bracketed "(" ")" (elements self ")")
      | "[" => bracketed "[" "]" (elements self "]")
      | "\x7b" =>
        bracketed "\x7b" "\x7d" (entries self)
        return .value
      | "..." =>
        operator "..."
        return .value
      | _ =>
        match ← nextWord with
        | "None" =>
          wordAs "none" "None"
          return .value
        | "True" =>
          wordAs "true" "True"
          return .value
        | "False" =>
          wordAs "false" "False"
          return .value
        | _ =>
          name
          return .target

/-- An atom with attributes, indices and calls behind it. -/
def primary (self : Self) : P Shape := do
  let shape ← atom self
  manyFrom shape fun shape => do
    match ← nextOperator with
    | "." =>
      operator "."
      name
      return (.target, true)
    | "[" =>
      bracketed "[" "]" (itemsUntil "]" (index self))
      return (.target, true)
    | "(" =>
      arguments self
      return (.value, true)
    | _ => return (shape, false)

/-- An operand: a primary expression with signs or `await` before it. -/
def operand (self : Self) : P Shape := do
  cross
  match ← nextOperator with
  | "-" | "+" | "~" =>
    operator (← nextOperator)
    let _ ← self .operand
    return .value
  | "*" =>
    operator "*"
    self .primary
  | _ =>
    if (← nextWord) == "await" then
      let awaited ← attempt do
        keyword "await"
        let word ← nextWord
        if joiningWords.contains word || (← nextOperator) == "." then refuse
        else self .primary
      match awaited with
      | some _ => return .value
      | none => self .primary
    else self .primary

/-- The operators between two operands. -/
def binaryOperators : List String :=
  ["+", "-", "*", "@", "/", "%", "//", "**", "|", "&", "^", "<<", ">>", "<", "<=", "==", "!=", ">=",
    ">", "<>"]

/-- A parameter. -/
def parameter (self : Self) (annotated : Bool) : P Unit := do
  match ← nextOperator with
  | "/" => operator "/"
  | "(" =>
    let _ ← self .primary
    return
  | op =>
    let bare ←
      if op == "*" || op == "**" then do
        operator op
        pure (!(← nameIsNext))
      else pure false
    if !bare then
      name
      if annotated then
        if ← operatorIf ":" then
          let _ ← self .expression
  if ← operatorIf "=" then
    let _ ← self .expression

/-- A function without a name. -/
def lambda (self : Self) : P Unit := do
  keyword "lambda"
  itemsUntil ":" (parameter self false)
  expect ":"
  let _ ← self .expression
  return

/-- What an expression starts with: negations, a function or an operand. -/
def expressionHead (self : Self) : P Shape :=
  manyFrom .value fun _ => do
    cross
    match ← nextWord with
    | "not" =>
      keyword "not"
      return (.value, true)
    | "lambda" =>
      lambda self
      return (.value, false)
    | _ => return (← self .operand, false)

/-- What comes after the head of an expression; tells whether there was anything. -/
def expressionStep (self : Self) (shape : Shape) : P (Shape × Bool) := do
  let op ← nextOperator
  if binaryOperators.contains op then
    operator op
    let _ ← self .operand
    return (.value, true)
  else if op == ":=" then
    operator ":="
    let _ ← self .expression
    return (.value, true)
  else
    match ← nextWord with
    | "and" | "or" =>
      keyword (← nextWord)
      let _ ← expressionHead self
      return (.value, true)
    | "in" =>
      keyword "in"
      let _ ← self .operand
      return (.value, true)
    | "is" =>
      let negated ← attempt do
        wordAs "is not" "is"
        if (← nextWord) == "not" then wordAs "is not" "not" else refuse
      if negated.isNone then keyword "is"
      let _ ← self .operand
      return (.value, true)
    | "not" =>
      let absent ← attempt do
        wordAs "not in" "not"
        if (← nextWord) == "in" then wordAs "not in" "in" else refuse
      if absent.isSome then
        let _ ← self .operand
        return (.value, true)
      else return (shape, false)
    | "if" =>
      let choice ← attempt do
        keyword "if"
        let _ ← self .expression
        expectWord "else"
        self .expression
      return (if choice.isSome then .value else shape, choice.isSome)
    | "as" =>
      keyword "as"
      let _ ← self .expression
      return (.value, true)
    | _ => return (shape, false)

/-- An expression. -/
def expression (self : Self) : P Shape := do
  let shape ← expressionHead self
  manyFrom shape (expressionStep self)

/-! ## Patterns -/

/-- The patterns up to a closing bracket. -/
def patternsUntil (self : Self) (closer : String) : P Unit :=
  itemsUntil closer do
    let _ ← self .pattern
    return

/-- A number in a pattern. -/
def patternNumber : P Unit := do
  let _ ← operatorIf "-"
  let i := (← gap).next
  match numberAt? (← source) i with
  | some (type, stop) => take type stop
  | none => refuse

/-- A pattern that is not a choice. -/
def simplePattern (self : Self) : P Unit := do
  let s ← source
  let i := (← gap).next
  if (openString? s i).isSome then strings
  else
    match ← nextOperator with
    | "[" => bracketed "[" "]" (patternsUntil self "]")
    | "(" => bracketed "(" ")" (patternsUntil self ")")
    | "\x7b" =>
      bracketed "\x7b" "\x7d" do
        itemsUntil "\x7d" do
          let _ ← self .pattern
          if ← operatorIf ":" then
            let _ ← self .pattern
    | "*" | "**" =>
      operator (← nextOperator)
      if (← nextWord) == "_" then keyword "_" else name
    | "-" => patternNumber
    | _ =>
      if (numberAt? s i).isSome then
        patternNumber
        let op ← nextOperator
        if op == "+" || op == "-" then
          operator op
          patternNumber
      else
        match ← nextWord with
        | "None" => wordAs "none" "None"
        | "True" => wordAs "true" "True"
        | "False" => wordAs "false" "False"
        | "_" => keyword "_"
        | _ =>
          name
          many do
            if ← operatorIf "." then
              name
              return true
            else return false
          if (← nextOperator) == "(" then
            bracketed "(" ")" (patternsUntil self ")")
          else if ← operatorIf "=" then
            let _ ← self .pattern

/-- A pattern: a choice of simple ones, perhaps with a name for the whole. -/
def pattern (self : Self) : P Unit := do
  many do
    simplePattern self
    operatorIf "|"
  if ← keywordIf "as" then name

/-! ## Simple statements -/

/-- Expressions with commas between them. -/
def expressionList (self : Self) : P Shape := do
  let shape ← self .expression
  manyFrom shape fun shape => do
    if (← nextOperator) == "," then
      operator ","
      if ← operandIsNext then
        let next ← self .expression
        return (if next == .target then shape else .value, true)
      else return (shape, false)
    else return (shape, false)

/-- The operators that change a target. -/
def changeOperators : List String :=
  ["+=", "-=", "*=", "/=", "@=", "//=", "%=", "**=", ">>=", "<<=", "&=", "^=", "|="]

/-- The right side of an assignment; it may be an assignment itself. -/
def assigned (self : Self) : P Unit :=
  many do
    cross
    if (← nextWord) == "yield" then
      keyword "yield"
      yieldRest self
      return false
    else
      let shape ← expressionList self
      let op ← nextOperator
      if op == "=" || changeOperators.contains op then
        if shape == .target then
          operator op
          return true
        else refuse
      else return false

/-- An expression statement or an assignment. -/
def expressionStatement (self : Self) : P Unit :=
  node "expression_statement" do
    if (← nextWord) == "yield" then
      keyword "yield"
      yieldRest self
    else
      let shape ← expressionList self
      let op ← nextOperator
      if op == "=" || changeOperators.contains op then
        if shape == .target then
          operator op
          assigned self
        else refuse
      else if op == ":" && shape == .target then
        operator ":"
        let _ ← self .expression
        if ← operatorIf "=" then assigned self

/-- A name with dots. -/
def dottedName : P Unit :=
  many do
    name
    operatorIf "."

/-- The names of an import. -/
def importNames : P Unit :=
  many do
    dottedName
    if ← keywordIf "as" then name
    if ← operatorIf "," then nameIsNext else return false

/-- The names of an import, perhaps between parentheses. -/
def importList : P Unit := do
  if (← nextOperator) == "(" then bracketed "(" ")" importNames else importNames

/-- An import from a module. -/
def importFrom : P Unit := do
  keyword "from"
  let s ← source
  if (← nextWord) == "__future__" && (s.spells ((← gap).next) "__future__") then
    keyword "__future__"
  else
    many do
      if s.charAt (← gap).next == '.' then
        take "." ((← gap).next + 1)
        return true
      else return false
    if (← nextWord) != "import" then dottedName
  expectWord "import"
  if (← nextOperator) == "*" then operator "*" else importList

/-- Names with commas between them. -/
def nameList : P Unit :=
  many do
    name
    operatorIf ","

/-- Whether a word at the start of a statement is followed by an operand on its line, so that it
is a keyword and not a name. -/
def startsCommand (word : String) : P Bool :=
  lookAhead do
    keyword word
    let s ← source
    let i := (← gap).next
    if ← lineIsOver then return false
    else if (openString? s i).isSome || (numberAt? s i).isSome then return true
    else
      let op ← nextOperator
      if op == "~" || op == "\x7b" then return true
      else if op == "" then
        let next ← nextWord
        return (← nameIsNext) && !joiningWords.contains next
      else return false

/-- A print command. -/
def printCommand (self : Self) : P Unit := do
  keyword "print"
  let _ ← operatorIf ">>"
  let _ ← expressionList self
  return

/-- Whether a print command to a file starts here. -/
def printsToFile : P Bool :=
  lookAhead do
    keyword "print"
    return (← nextOperator) == ">>"

/-- A simple statement that starts with a word; tells whether there was one. -/
def wordStatement (self : Self) (word : String) : P Bool := do
  match word with
  | "import" =>
    keyword word
    importNames
    return true
  | "from" =>
    importFrom
    return true
  | "pass" | "break" | "continue" =>
    keyword word
    return true
  | "return" =>
    keyword word
    if ← operandIsNext then
      let _ ← expressionList self
    return true
  | "del" =>
    keyword word
    let _ ← expressionList self
    return true
  | "raise" =>
    keyword word
    if (← operandIsNext) && (← nextWord) != "from" then
      let _ ← expressionList self
    if ← keywordIf "from" then
      let _ ← self .expression
    return true
  | "assert" =>
    keyword word
    many do
      let _ ← self .expression
      operatorIf ","
    return true
  | "global" | "nonlocal" =>
    keyword word
    nameList
    return true
  | "print" =>
    if (← startsCommand word) || (← printsToFile) then
      printCommand self
      return true
    else return false
  | "exec" =>
    if ← startsCommand word then
      keyword word
      let _ ← expressionList self
      return true
    else return false
  | "type" =>
    if ← startsCommand word then
      keyword word
      let _ ← self .expression
      expect "="
      let _ ← self .expression
      return true
    else return false
  | _ => return false

/-- Notes where a statement starts. -/
def markStatement : P Unit := do
  let i := (← gap).next
  setExtra fun l => { l with statement := i }

/-- A simple statement. -/
def simpleStatement (self : Self) : P Unit := do
  markStatement
  if !(← wordStatement self (← nextWord)) then expressionStatement self

/-- Simple statements up to the end of the line. -/
def simpleStatements (self : Self) : P Unit :=
  many do
    enter
    setExtra fun l => { l with lineEnds := true }
    simpleStatement self
    let more ← operatorIf ";"
    let lineOver ← lineIsOver
    setExtra fun l => { l with lineEnds := false }
    if lineOver then return false
    else if more then return true
    else refuse

/-! ## Compound statements -/

/-- Whether the next token stands further left than the open block. -/
def blockIsOver : P Bool := do
  let g ← gap
  return g.crossed && g.indent < (← extra).indent

/-- What follows a colon: a block of its own, nothing, or simple statements on the line. -/
def suite (self : Self) : P Unit :=
  node "block" do
    let g ← gap
    let l ← extra
    if g.crossed then
      if l.indent < g.indent then
        setExtra fun l => { l with indents := g.indent :: l.indents }
        many do
          if ← blockIsOver then return false
          else
            let _ ← self .statement
            return true
        setExtra fun l => { l with indents := l.indents.drop 1 }
    else simpleStatements self

/-- A colon and what follows it. -/
def body (self : Self) : P Unit := do
  expect ":"
  let _ ← self .suite
  return

/-- A clause of a compound statement that starts with a word, if it is next. -/
def clauseIf (self : Self) (word : String) (head : P Unit) : P Bool := do
  if ← blockIsOver then return false
  else if ← keywordIf word then
    head
    body self
    return true
  else return false

/-- An expression whose shape does not matter. -/
def anyExpression (self : Self) : P Unit := do
  let _ ← self .expression
  return

/-- A branch on a condition. -/
def ifStatement (self : Self) : P Unit := do
  keyword "if"
  anyExpression self
  body self
  many (clauseIf self "elif" (anyExpression self))
  let _ ← clauseIf self "else" (pure ())
  return

/-- A target of a loop. -/
def loopTarget (self : Self) : P Unit := do
  let _ ← operatorIf "*"
  let _ ← self .primary
  return

/-- A loop over a collection. -/
def forStatement (self : Self) : P Unit := do
  expectWord "for"
  many do
    loopTarget self
    if ← operatorIf "," then return (← nextWord) != "in" else return false
  expectWord "in"
  let _ ← expressionList self
  body self
  let _ ← clauseIf self "else" (pure ())
  return

/-- A loop with a condition. -/
def whileStatement (self : Self) : P Unit := do
  keyword "while"
  anyExpression self
  body self
  let _ ← clauseIf self "else" (pure ())
  return

/-- A statement with managed values. -/
def withStatement (self : Self) : P Unit := do
  expectWord "with"
  let _ ← expressionList self
  body self

/-- A handler of errors, if one is next. -/
def handlerIf (self : Self) : P Bool := do
  let s ← source
  if ← blockIsOver then return false
  else if (← nextWord) == "except" then
    if s.spells (← gap).next "except*" then
      take "except*" ((← gap).next + 7)
      anyExpression self
    else
      keyword "except"
      if (← nextOperator) != ":" then
        anyExpression self
        if ← operatorIf "," then anyExpression self
    body self
    return true
  else return false

/-- A statement with handlers of errors. -/
def tryStatement (self : Self) : P Unit := do
  keyword "try"
  body self
  let handled ← handlerIf self
  if handled then
    many (handlerIf self)
    let _ ← clauseIf self "else" (pure ())
  let finished ← clauseIf self "finally" (pure ())
  if !handled && !finished then refuse

/-- The parameters of a type. -/
def typeParameters (self : Self) : P Unit := do
  if (← nextOperator) == "[" then
    bracketed "[" "]" do
      itemsUntil "]" do
        let op ← nextOperator
        if op == "*" || op == "**" then operator op
        anyExpression self
        if ← operatorIf ":" then anyExpression self

/-- The definition of a function. -/
def functionDefinition (self : Self) : P Unit := do
  expectWord "def"
  name
  typeParameters self
  if (← nextOperator) != "(" then refuse
  bracketed "(" ")" (itemsUntil ")" (parameter self true))
  if ← operatorIf "->" then anyExpression self
  body self

/-- The definition of a class. -/
def classDefinition (self : Self) : P Unit := do
  keyword "class"
  name
  typeParameters self
  if (← nextOperator) == "(" then arguments self
  body self

/-- A case of a match statement. -/
def caseClause (self : Self) : P Unit := do
  markStatement
  expectWord "case"
  many do
    let _ ← self .pattern
    if ← operatorIf "," then return (← nextOperator) != ":" else return false
  if ← keywordIf "if" then anyExpression self
  body self

/-- The head of a match statement, after which a line ends. -/
def matchHead (self : Self) : P Unit := do
  keyword "match"
  let _ ← expressionList self
  expect ":"
  if !(← gap).crossed then refuse

/-- The cases of a match statement. -/
def matchCases (self : Self) : P Unit := do
  let g ← gap
  if (← extra).indent < g.indent then
    setExtra fun l => { l with indents := g.indent :: l.indents }
    many do
      if ← blockIsOver then return false
      else
        caseClause self
        return true
    setExtra fun l => { l with indents := l.indents.drop 1 }

/-- Decorators and the definition that they stand before. -/
def decorated (self : Self) : P Unit := do
  many do
    if ← operatorIf "@" then
      setExtra fun l => { l with lineEnds := true }
      anyExpression self
      if !(← lineIsOver) then refuse
      setExtra fun l => { l with lineEnds := false }
      return true
    else return false
  let word ← nextWord
  if word == "class" || word == "def" || word == "async" then
    let _ ← self .statement
    return
  else refuse

/-- The word after the next one. -/
def wordAfter (word : String) : P String :=
  lookAhead do
    keyword word
    nextWord

/-- A statement that starts with `async`. -/
def asyncStatement (self : Self) : P Unit := do
  match ← wordAfter "async" with
  | "def" =>
    node "function_definition" do
      keyword "async"
      functionDefinition self
  | "for" =>
    node "for_statement" do
      keyword "async"
      forStatement self
  | "with" =>
    node "with_statement" do
      keyword "async"
      withStatement self
  | _ => simpleStatements self

/-- A statement. -/
def statement (self : Self) : P Unit := do
  markStatement
  if (← extra).indents.length ≤ 1 then setExtra fun l => { l with outermost := l.statement }
  if (← nextOperator) == "@" then node "decorated_definition" (decorated self)
  else
    match ← nextWord with
    | "if" => node "if_statement" (ifStatement self)
    | "for" => node "for_statement" (forStatement self)
    | "while" => node "while_statement" (whileStatement self)
    | "try" => node "try_statement" (tryStatement self)
    | "with" => node "with_statement" (withStatement self)
    | "def" => node "function_definition" (functionDefinition self)
    | "class" => node "class_definition" (classDefinition self)
    | "async" => asyncStatement self
    | "match" =>
      match ← attempt (lookAhead (matchHead self)) with
      | some _ =>
        node "match_statement" do
          matchHead self
          matchCases self
      | none => simpleStatements self
    | _ => simpleStatements self

/-! ## The whole text -/

/-- The parser of a rule, at most so many rules deep. -/
def run : Nat → Rule → P Shape
  | 0, _ => refuse
  | depth + 1, rule =>
    let self := run depth
    let plain (p : P Unit) : P Shape := do
      p
      return .value
    match rule with
    | .expression => expression self
    | .operand => operand self
    | .primary => primary self
    | .pattern => plain (pattern self)
    | .statement => plain (statement self)
    | .suite => plain (suite self)

/-- All statements of a text. -/
def module : P Unit := do
  let s ← source
  let self := run (8 * s.size + 64)
  many do
    if s.atEnd (← gap).next then return false
    else
      let _ ← self .statement
      return true
  enter

/-- The parser of Python. -/
def treeParser : TreeParser :=
  Grammar.treeParser "module" ⟨[0], false, 0, 0, 0⟩ module

end Grammar.Python

end CloneScan
