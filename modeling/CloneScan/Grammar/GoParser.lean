import CloneScan.Grammar.GoLexer

/-!
# Go

A parser of Go that builds the leaves of the parse tree.  Keywords are keywords only where the
grammar expects them, and a line end is a token only where a statement, a field or a specification
can end.  Rules take the parser of inner rules as an argument, and `run` ties the knot with a bound
on the depth.
-/

namespace CloneScan

namespace Grammar.Go

/-- What the parser keeps track of: whether a line end is a token, whether the head of a statement is
being read, in which a brace opens a block, whether the last head asked for a type, how many blocks
are open, whether a missing token was supplied, and where the outermost declaration starts. -/
structure Layout where
  lineEnds : Bool
  header : Bool
  typed : Bool
  blocks : Nat
  supplied : Bool
  outermost : Nat

/-- A parser of Go. -/
abbrev P := Parser Layout

/-- The rules that refer to each other. -/
inductive Rule where
  | expression
  | operand
  | type
  | signature
  | literal
  | statement
  | block

/-- The parser of inner rules. -/
abbrev Self := Rule → P Unit

/-! ## Tokens -/

/-- The gap before the next token. -/
def gap : P Gap := do
  return gapAt (← source) (← get).place

/-- Whether a line end is the next token. -/
def lineIsOver : P Bool := do
  let g ← gap
  return (g.lineEnd.isSome || (← source).atEnd g.next) && (← extra).lineEnds

/-- Fails at the next token; at the end of the text the whole outermost declaration is in error. -/
def refuse {α : Type} : P α := do
  let g ← gap
  if (← source).atEnd g.next then failAt (← extra).outermost else failAt g.next

/-- Supplies a token that is missing at the end of the text or before a closing brace.  This can be
done once. -/
def supply : P Unit := do
  let s ← source
  let i := (← gap).next
  if (s.atEnd i || s.charAt i == '\x7d') && !(← extra).supplied then
    setExtra fun l => { l with supplied := true }
  else refuse

/-- Moves to the next token, over line ends too. -/
def enter : P Unit := do
  let g ← gap
  for (start, stop) in g.comments do
    pushLeaf "comment" start stop
  modify fun p => { p with place := g.next }

/-- Takes the next token, which ends at an offset, as a leaf. -/
def take (type : String) (stop : Nat) : P Unit := do
  enter
  pushLeaf type (← get).place stop

/-- The next token as an operator; empty when it is none or the line is over. -/
def nextOperator : P String := do
  if ← lineIsOver then return ""
  else
    let s ← source
    let i := (← gap).next
    if s.charAt i == '.' && (s.charAt (i + 1)).isDigit then return ""
    else return (s.firstSpelled i operators).getD ""

/-- The next token as a word; empty when it is none or the line is over. -/
def nextWord : P String := do
  if ← lineIsOver then return "" else return (← source).wordAt (← gap).next

/-- Takes an operator that is next. -/
def operator (w : String) : P Unit := do
  take w ((← gap).next + w.length)

/-- Takes an operator if it is next. -/
def operatorIf (w : String) : P Bool := do
  if (← nextOperator) == w then
    operator w
    return true
  else return false

/-- Takes a keyword if it is next. -/
def keywordIf (w : String) : P Bool := do
  if (← nextWord) == w then
    operator w
    return true
  else return false

/-- Moves over a line end where something has to follow. -/
def cross : P Unit := do
  if ← lineIsOver then
    if (← source).atEnd (← gap).next then refuse else enter

/-- Takes an operator that has to be next. -/
def expect (w : String) : P Unit := do
  cross
  if !(← operatorIf w) then refuse

/-- Takes an operator that closes a bracket, or supplies it. -/
def closeBracket (w : String) : P Unit := do
  if (← lineIsOver) && !(← source).atEnd (← gap).next then enter
  if !(← operatorIf w) then supply

/-- Takes a name that has to be next; any word will do. -/
def name : P Unit := do
  cross
  match (← source).nameEnd? (← gap).next with
  | some stop => take "identifier" stop
  | none => refuse

/-- Whether a name is next. -/
def nameIsNext : P Bool := do
  if ← lineIsOver then return false
  else return ((← source).nameEnd? (← gap).next).isSome

/-- Takes a string if one is next. -/
def stringIf : P Bool := do
  if ← lineIsOver then return false
  else
    match stringAt? (← source) (← gap).next with
    | none => return false
    | some (_, none) => failAt (← gap).next
    | some (type, some stop) =>
      take type stop
      return true

/-- Runs a parser with its own treatment of line ends and braces. -/
def within {α : Type} (lineEnds header : Bool) (p : P α) : P α := do
  let before ← extra
  setExtra fun l => { l with lineEnds, header }
  let a ← p
  setExtra fun l => { l with lineEnds := before.lineEnds, header := before.header }
  return a

/-- Runs a parser between brackets, where line ends do not count. -/
def bracketed (opener closer : String) (p : P Unit) : P Unit := do
  operator opener
  within false false do
    p
    closeBracket closer

/-- Items with commas between them, up to a closing operator; a comma may follow the last. -/
def itemsUntil (closer : String) (item : P Unit) : P Unit :=
  many do
    if (← nextOperator) == closer then return false
    else
      item
      operatorIf ","

/-- Items with a semicolon or a line end behind each, up to a closing operator. -/
def linesUntil (closer : String) (item : P Unit) : P Unit := do
  within true false do
    many do
      let s ← source
      let g ← gap
      if s.spells g.next closer || s.atEnd g.next then return false
      else
        enter
        item
        if ← operatorIf ";" then return true
        else lineIsOver
    closeBracket closer

/-! ## Types -/

/-- Whether something that a type can start with is next. -/
def typeIsNext : P Bool := do
  let op ← nextOperator
  return ["*", "(", "[", "<-"].contains op || (← nameIsNext)

/-- Parameters or type parameters up to a closing bracket: types, each perhaps after a name. -/
def parameters (self : Self) (closer : String) : P Unit :=
  itemsUntil closer do
    let _ ← operatorIf "..."
    self .type
    let op ← nextOperator
    if op != "," && op != closer then
      let _ ← operatorIf "..."
      self .type

/-- The parameters and the result of a function. -/
def signature (self : Self) : P Unit := do
  if (← nextOperator) != "(" then refuse
  bracketed "(" ")" (parameters self ")")
  if (← nextOperator) == "(" then bracketed "(" ")" (parameters self ")")
  else if (← nextOperator) != "\x7b" && (← typeIsNext) then self .type

/-- Arguments of a type or an index: expressions and types, and the colons of slices. -/
def indices (self : Self) : P Unit :=
  itemsUntil "]" do
    many do
      if ← operatorIf ":" then return (← nextOperator) != "]"
      else
        self .expression
        return (← nextOperator) == ":"

/-- A field of a structure. -/
def field (self : Self) : P Unit := do
  if (← nextOperator) == "*" then self .type
  else
    many do
      name
      operatorIf ","
    if ← operatorIf "." then
      name
      if (← nextOperator) == "[" then bracketed "[" "]" (indices self)
    else if ← typeIsNext then
      match ← attempt (self .type) with
      | some _ => pure ()
      | none => bracketed "[" "]" (indices self)
  let _ ← stringIf
  return

/-- A union of types. -/
def union (self : Self) : P Unit :=
  many do
    let _ ← operatorIf "~"
    self .type
    operatorIf "|"

/-- An element of an interface: a method or a union of types. -/
def interfaceElement (self : Self) : P Unit := do
  let method ← attempt do
    name
    self .signature
  if method.isNone then union self

/-- A type. -/
def type (self : Self) : P Unit := do
  cross
  match ← nextOperator with
  | "*" =>
    operator "*"
    self .type
  | "~" => union self
  | "(" => bracketed "(" ")" (self .type)
  | "<-" =>
    operator "<-"
    if !(← keywordIf "chan") then refuse
    self .type
  | "[" =>
    bracketed "[" "]" do
      if (← nextOperator) == "..." then operator "..."
      else if (← nextOperator) != "]" then self .expression
    self .type
  | _ =>
    match ← nextWord with
    | "map" =>
      operator "map"
      if (← nextOperator) != "[" then refuse
      bracketed "[" "]" (self .type)
      self .type
    | "chan" =>
      operator "chan"
      let _ ← operatorIf "<-"
      self .type
    | "func" =>
      operator "func"
      self .signature
    | "struct" =>
      operator "struct"
      cross
      expect "\x7b"
      linesUntil "\x7d" (field self)
    | "interface" =>
      operator "interface"
      cross
      expect "\x7b"
      linesUntil "\x7d" (interfaceElement self)
    | _ =>
      name
      if ← operatorIf "." then name
      if (← nextOperator) == "[" then
        let _ ← attempt do
          bracketed "[" "]" do
            if (← nextOperator) == "]" then refuse
            indices self
        return
  if (← nextOperator) == "|" then
    operator "|"
    union self

/-! ## Expressions -/

/-- Elements of a composite literal, between braces. -/
def literal (self : Self) : P Unit := do
  let part : P Unit := do
    if (← nextOperator) == "\x7b" then self .literal else self .expression
  bracketed "\x7b" "\x7d" do
    itemsUntil "\x7d" do
      part
      if ← operatorIf ":" then part

/-- The arguments of a call. -/
def arguments (self : Self) : P Unit :=
  bracketed "(" ")" do
    itemsUntil ")" do
      self .expression
      let _ ← operatorIf "..."
      return

/-- What an operand is, as far as a brace behind it goes. -/
inductive Base where
  /-- A name, which opens a literal outside of heads of statements. -/
  | named
  /-- A type that is no name, which always opens a literal. -/
  | literalType
  /-- Anything else. -/
  | value
  deriving DecidableEq, Repr

/-- Takes a predeclared constant or a name. -/
def constantOrName : P Base := do
  let word ← nextWord
  if ["nil", "true", "false", "iota"].contains word then
    operator word
    return .value
  else
    name
    return .named

/-- What an operand starts with. -/
def operandBase (self : Self) : P Base := do
  cross
  let s ← source
  if ← stringIf then return .value
  else
    match numberAt? s (← gap).next with
    | some (type, stop) =>
      take type stop
      return .value
    | none =>
      match ← nextOperator with
      | "(" =>
        bracketed "(" ")" (self .expression)
        return .value
      | "[" =>
        self .type
        return .literalType
      | _ =>
        match ← nextWord with
        | "func" =>
          operator "func"
          self .signature
          if (← nextOperator) == "\x7b" then self .block
          return .value
        | "struct" | "map" | "chan" | "interface" =>
          self .type
          return .literalType
        | _ => constantOrName

/-- What follows an operand; tells what it is then, and whether there was anything. -/
def operandStep (self : Self) (base : Base) : P (Base × Bool) := do
  match ← nextOperator with
  | "." =>
    operator "."
    cross
    if (← nextOperator) == "(" then
      bracketed "(" ")" do
        if (← nextWord) == "type" then
          operator "type"
          setExtra fun l => { l with typed := true }
        else self .type
      return (.value, true)
    else
      name
      return (base, true)
  | "[" =>
    bracketed "[" "]" (indices self)
    return (base, true)
  | "(" =>
    arguments self
    return (.value, true)
  | "\x7b" =>
    if base == .literalType || (base == .named && !(← extra).header) then
      self .literal
      return (.value, true)
    else return (base, false)
  | _ => return (base, false)

/-- Whether nothing is left of the statement, over line ends too. -/
def nothingFollows : P Bool := do
  let s ← source
  let i := (← gap).next
  return s.atEnd i || s.charAt i == '\x7d'

/-- An operand with signs before it. -/
def operand (self : Self) : P Unit := do
  if ← nothingFollows then supply
  else
    cross
    let op ← nextOperator
    if op == "<-" && (← lookAhead do operator "<-"; nextWord) == "chan" then self .type
    else if ["+", "-", "!", "^", "*", "&", "<-", "~"].contains op then
      operator op
      self .operand
    else
      let base ← operandBase self
      let _ ← manyFrom base (operandStep self)
      return

/-- The operators between two operands. -/
def binaryOperators : List String :=
  ["*", "/", "%", "<<", ">>", "&", "&^", "+", "-", "|", "^", "==", "!=", "<", "<=", ">", ">=", "&&",
    "||"]

/-- An expression. -/
def expression (self : Self) : P Unit :=
  many do
    self .operand
    let op ← nextOperator
    if binaryOperators.contains op then
      operator op
      return true
    else return false

/-- Expressions with commas between them. -/
def expressionList (self : Self) : P Unit :=
  many do
    self .expression
    operatorIf ","

/-! ## Statements -/

/-- The operators that assign. -/
def assignOperators : List String :=
  ["=", ":=", "+=", "-=", "*=", "/=", "%=", "<<=", ">>=", "&=", "|=", "^=", "&^="]

/-- A simple statement: expressions, an assignment, a step, a send or a range. -/
def simpleStatement (self : Self) : P Unit := do
  if (← nextWord) == "range" then
    operator "range"
    self .expression
  else
    expressionList self
    let op ← nextOperator
    if assignOperators.contains op then
      operator op
      if ← keywordIf "range" then self .expression else expressionList self
    else if op == "++" || op == "--" then operator op
    else if op == "<-" then
      operator op
      self .expression

/-- The parts of the head of a statement, with semicolons between them, up to the block. -/
def header (self : Self) : P Unit :=
  within false true do
    many do
      let op ← nextOperator
      if op == "\x7b" then return false
      else if op == ";" then
        operator ";"
        return true
      else
        simpleStatement self
        return (← nextOperator) == ";"

/-- Takes the block that has to follow. -/
def bodyBlock (self : Self) : P Unit := do
  within false false cross
  if (← within false false nextOperator) != "\x7b" then refuse
  self .block

/-- The statements of a clause, up to the next clause or the end of the body. -/
def clauseStatements (self : Self) : P Unit :=
  within true false do
    many do
      let s ← source
      let g ← gap
      let word := s.wordAt g.next
      if s.atEnd g.next || s.charAt g.next == '\x7d' || word == "case" || word == "default" then
        return false
      else
        enter
        self .statement
        if ← operatorIf ";" then return true else lineIsOver

/-- The clauses of a switch or a select, between braces. -/
def clauses (self : Self) (communication : Bool) : P Unit := do
  let typed := (← extra).typed
  within false false do
    expect "\x7b"
    many do
      match ← nextWord with
      | "case" =>
        operator "case"
        if communication then simpleStatement self
        else
          many do
            self (if typed then .type else .expression)
            operatorIf ","
        expect ":"
        clauseStatements self
        return true
      | "default" =>
        operator "default"
        expect ":"
        clauseStatements self
        return true
      | _ => return false
    expect "\x7d"

/-- A branch on a condition. -/
def ifStatement (self : Self) : P Unit :=
  many do
    operator "if"
    header self
    bodyBlock self
    if ← keywordIf "else" then
      if (← nextWord) == "if" then return true
      else
        bodyBlock self
        return false
    else return false

/-- A specification after a declaring keyword, or a group of them between parentheses. -/
def specifications (item : P Unit) : P Unit := do
  cross
  if (← nextOperator) == "(" then
    operator "("
    linesUntil ")" item
  else item

/-- Names with an optional type and optional values. -/
def valueSpec (self : Self) : P Unit := do
  many do
    name
    operatorIf ","
  if (← nextOperator) != "=" && (← typeIsNext) then self .type
  if ← operatorIf "=" then expressionList self

/-- The name of a type, its parameters and what it stands for. -/
def typeSpec (self : Self) : P Unit := do
  name
  if (← nextOperator) == "[" then
    let generic ← attempt do
      bracketed "[" "]" do
        if !(← nameIsNext) then refuse
        itemsUntil "]" do
          name
          let op ← nextOperator
          if op != "," then
            if op == "]" then refuse
            union self
      let _ ← operatorIf "="
      self .type
    if generic.isNone then self .type
  else
    let _ ← operatorIf "="
    self .type

/-- An import: a name, a dot or a blank before the path. -/
def importSpec : P Unit := do
  if (← nextWord) == "_" then take "blank_identifier" ((← gap).next + 1)
  else if (← nextOperator) == "." then operator "."
  else if ← nameIsNext then name
  if !(← stringIf) then refuse

/-- A declaration of a function or a method. -/
def functionDeclaration (self : Self) : P Unit := do
  operator "func"
  cross
  if (← nextOperator) == "(" then bracketed "(" ")" (parameters self ")")
  name
  if (← nextOperator) == "[" then bracketed "[" "]" (parameters self "]")
  self .signature
  if (← nextOperator) == "\x7b" then self .block

/-- Whether a label is next: a name with a colon behind it. -/
def labelIsNext : P Bool := do
  if !(← nameIsNext) then return false
  else
    lookAhead do
      name
      return (← nextOperator) == ":"

/-- Whether a function type or literal follows the keyword, and not a declared name. -/
def isFunctionLiteral : P Bool :=
  lookAhead do
    operator "func"
    if (← nextOperator) != "(" then return false
    else return (← extra).blocks != 0

/-- A statement. -/
def statement (self : Self) : P Unit := do
  if (← nextOperator) == ";" then operator ";"
  else if (← nextOperator) == "\x7b" then self .block
  else
    let word ← nextWord
    match word with
    | "package" =>
      operator word
      name
    | "import" =>
      operator word
      specifications importSpec
    | "const" | "var" =>
      operator word
      specifications (valueSpec self)
    | "type" =>
      operator word
      specifications (typeSpec self)
    | "func" => if ← isFunctionLiteral then simpleStatement self else functionDeclaration self
    | "if" => ifStatement self
    | "for" =>
      operator word
      header self
      bodyBlock self
    | "switch" =>
      operator word
      setExtra fun l => { l with typed := false }
      header self
      clauses self false
    | "select" =>
      operator word
      clauses self true
    | "return" =>
      operator word
      if !(← lineIsOver) && !(["\x7d", ";"].contains (← nextOperator)) then expressionList self
    | "go" | "defer" =>
      operator word
      self .expression
    | "break" | "continue" | "goto" =>
      operator word
      if ← nameIsNext then name
    | "fallthrough" => operator word
    | _ =>
      if ← labelIsNext then
        name
        operator ":"
        within false false do
          let s ← source
          if s.charAt (← gap).next == '\x7d' then pure () else enter
        if (← nextOperator) != "\x7d" && !(← lineIsOver) then self .statement
      else simpleStatement self

/-- Statements between braces. -/
def block (self : Self) : P Unit := do
  operator "\x7b"
  setExtra fun l => { l with blocks := l.blocks + 1 }
  within true false do
    many do
      let s ← source
      let g ← gap
      if s.atEnd g.next || s.charAt g.next == '\x7d' then return false
      else
        enter
        self .statement
        if ← operatorIf ";" then return true else lineIsOver
    within false false (closeBracket "\x7d")
  setExtra fun l => { l with blocks := l.blocks - 1 }

/-! ## The whole text -/

/-- The parser of a rule, at most so many rules deep. -/
def run : Nat → Rule → P Unit
  | 0, _ => refuse
  | depth + 1, rule =>
    let self := run depth
    match rule with
    | .expression => expression self
    | .operand => operand self
    | .type => type self
    | .signature => signature self
    | .literal => literal self
    | .statement => statement self
    | .block => block self

/-- All declarations of a text. -/
def file : P Unit := do
  let s ← source
  let self := run (8 * s.size + 64)
  many do
    let g ← gap
    if s.atEnd g.next then return false
    else
      enter
      setExtra fun l => { l with outermost := g.next }
      self .statement
      if ← operatorIf ";" then return true
      else if ← lineIsOver then return true
      else refuse
  enter

/-- The parser of Go. -/
def treeParser : TreeParser :=
  Grammar.treeParser "source_file" ⟨true, false, false, 0, false, 0⟩ file

end Grammar.Go

end CloneScan
