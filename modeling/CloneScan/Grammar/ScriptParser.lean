import CloneScan.Grammar.ScriptMarkup
import CloneScan.ScriptTree

/-!
# Scripts

Statements and declarations, and the leaves of a whole script.  The reader notes names, literals and
operators; every other token is found again in the gaps between them.  Rules take the reader of inner
rules as an argument, and `run` ties the knot with a bound on the depth.
-/

namespace CloneScan

namespace Grammar.Script

/-! ## Variables -/

/-- The declaration of a variable.  The flag tells whether an exclamation mark may follow its name. -/
def variableDeclaration (self : Self) (marks : Bool) : P Unit := do
  let shape ← self .binding
  let isName := match shape with
    | .name => true
    | _ => false
  if marks && isName && !(← broken) then
    let _ ← optional "!"
  typeAnnotation self
  if !(← atAny ["in", "of"]) then initializer self

/-- Declarations of variables with their keyword.  The flag tells whether they stand in the head of a
loop. -/
def variableList (self : Self) (inLoop : Bool) : P Unit := do
  let _ ← optional "await"
  advance
  let nameless ←
    if ← nextIs "of" then
      lookAhead do
        advance
        if ← nameIsNext then
          advance
          nextIs ")"
        else return false
    else pure false
  if !nameless then withIn inLoop (separated .variables (variableDeclaration self !inLoop))

/-! ## Imports and exports -/

/-- The module that something comes from. -/
def moduleName (self : Self) : P Unit := do
  if ← atNumber NodeKind.string then take else pass (self .expression)

/-- The attributes of an import behind their keyword, if there are any. -/
def attributesIf (self : Self) : P Unit := do
  if (← atAny ["with", "assert"]) && !(← broken) then
    advance
    importAttributes self

/-- Whether the next token spells `type`. -/
def typeIsNext : P Bool :=
  nextIs "type"

/-- Takes a token back as a gap: forgets the leaves from a number on. -/
def forgetLeaves (count : Nat) : P Unit :=
  modify fun r => { r with leaves := r.leaves.extract 0 count }

/-- A name that is imported or exported, perhaps under another name, perhaps only as a type. -/
def specifier : P Unit := do
  let another : P Unit := do
    if ← optional "as" then anyName
  if ← typeIsNext then
    let count := (← get).leaves.size
    anyName
    if ← nextIs "as" then
      let second ← nextSatisfies (nextIs "as")
      let third ← lookAhead do
        advance
        advance
        nameLikeIsNext
      if second then
        if third then
          -- `type as as x`: the type `as` under the name `x`
          forgetLeaves count
          anyName
          advance
          anyName
        else
          -- `type as as`: `type` under the name `as`
          advance
          anyName
      else if ← nextSatisfies nameLikeIsNext then
        advance
        anyName
      else
        -- `type as`: the type `as`
        forgetLeaves count
        anyName
    else if ← nameLikeIsNext then
      forgetLeaves count
      anyName
      another
  else
    anyName
    another

/-- Names between braces. -/
def specifiers : P Unit :=
  bracketed .specifiers "\x7b" "\x7d" specifier

/-- An import behind its keyword. -/
def importRest (self : Self) : P Unit := do
  want "import"
  let count := (← get).leaves.size
  let isType ← typeIsNext
  let first ← nameIsNext
  if first then name
  let typed ←
    if isType && !(← nextIs "from") then atAny ["*", "\x7b"] <||> nameIsNext else pure false
  let named ←
    if typed then
      forgetLeaves count
      let second ← nameIsNext
      if second then name
      pure second
    else pure first
  if named && !(← atAny [",", "from"]) then
    want "="
    if (← nextIs "require") && (← nextSatisfies (nextIs "(")) then
      modify fun r => { r with isModule := true }
      advance
      want "("
      moduleName self
      want ")"
    else
      let _ ← dottedName false
    endStatement
  else
    modify fun r => { r with isModule := true }
    if named || (← atAny ["*", "\x7b"]) then
      let listed ← if named then optional "," else pure true
      if listed then
        if ← optional "*" then
          want "as"
          name
        else specifiers
      want "from"
    moduleName self
    attributesIf self
    endStatement

/-- An export behind its keyword. -/
def exportRest (self : Self) : P Unit := do
  match (← token).text with
  | "default" | "=" =>
    advance
    pass (withAwait true (self (.assignment true)))
    endStatement
  | "as" =>
    advance
    want "namespace"
    name
    endStatement
  | _ =>
    let _ ← optional "type"
    let sourced ←
      if ← optional "*" then
        if ← optional "as" then anyName
        pure true
      else
        specifiers
        let quoted := (← atNumber NodeKind.string) && !(← broken)
        pure (quoted || (← nextIs "from"))
    if sourced then
      want "from"
      moduleName self
      attributesIf self
    endStatement

/-! ## Declarations -/

/-- The block of a name space. -/
def namespaceBlock (self : Self) : P Unit := do
  if ← expect "\x7b" then
    elements .block (pass (self .statement))
    want "\x7d"

/-- A name space behind the dot in its name. -/
def namespaceRest (self : Self) : P Shape := do
  anyName
  if ← optional "." then self .namespaceRest
  else
    namespaceBlock self
    return .value

/-- A module or a name space. -/
def moduleRest (self : Self) : P Unit := do
  let named ←
    if ← nextIs "global" then
      name
      pure true
    else if ← optional "namespace" then pure false
    else
      want "module"
      if ← atNumber NodeKind.string then
        take
        pure true
      else pure false
  if named then
    if ← nextIs "\x7b" then namespaceBlock self else endStatement
  else
    name
    if ← optional "." then pass (self .namespaceRest) else namespaceBlock self

/-- An enumeration. -/
def enumRest (self : Self) : P Unit := do
  want "enum"
  name
  if ← expect "\x7b" then
    withFlow false false do
      separated .enumMembers do
        propertyName self
        allowIn (initializer self)
    want "\x7d"

/-- The alias of a type. -/
def aliasRest (self : Self) : P Unit := do
  want "type"
  name
  typeParameters self
  want "="
  let intrinsic ←
    if ← nextIs "intrinsic" then
      attempt do
        advance
        return !(← nextIs ".")
    else pure false
  if !intrinsic then pass (self .type)
  endStatement

/-- A declaration with its modifiers. -/
def declaration (self : Self) : P Unit := do
  let found ← modifiers self withDecorators
  if found.contains "export" then modify fun r => { r with isModule := true }
  match (← token).text with
  | "var" | "let" | "const" | "using" | "await" =>
    variableList self false
    endStatement
  | "function" => functionRest self false (found.contains "default") (found.contains "async")
  | "class" => classRest self (found.contains "export")
  | "interface" =>
    advance
    name
    typeParameters self
    heritage self
    typeMembers self
  | "type" => aliasRest self
  | "enum" => enumRest self
  | "global" | "module" | "namespace" => moduleRest self
  | "import" => importRest self
  | "export" =>
    modify fun r => { r with isModule := true }
    advance
    exportRest self
  | _ => blame

/-! ## Statements -/

/-- A condition or another expression between parentheses. -/
def parenthesized (self : Self) : P Unit := do
  want "("
  pass (allowIn (self .expression))
  want ")"

/-- Whether the head of a loop declares variables. -/
def loopDeclares : P Bool := do
  match (← token).text with
  | "var" | "let" | "const" => return true
  | "using" => startsUsing false
  | "await" => startsAwaitUsing false
  | _ => return false

/-- The head of a loop behind its keyword, and its body. -/
def loopRest (self : Self) : P Unit := do
  let awaits ← optional "await"
  want "("
  if !(← nextIs ";") then
    if ← loopDeclares then variableList self true
    else pass (withIn true (self .expression))
  let overElements ← if awaits then expect "of" else optional "of"
  if overElements then pass (allowIn (self (.assignment true)))
  else if ← optional "in" then pass (allowIn (self .expression))
  else
    want ";"
    if !(← atAny [";", ")"]) then pass (allowIn (self .expression))
    want ";"
    if !(← nextIs ")") then pass (allowIn (self .expression))
  want ")"
  pass (self .statement)

/-- A clause of a choice between cases. -/
def clause (self : Self) : P Unit := do
  if ← optional "case" then pass (allowIn (self .expression)) else want "default"
  want ":"
  elements .clauseBody (pass (self .statement))

/-- A statement with blocks for errors. -/
def tryRest (self : Self) : P Unit := do
  want "try"
  block self false
  let caught ← optional "catch"
  if caught then
    if ← optional "(" then
      variableDeclaration self false
      want ")"
    block self false
  if !caught || (← nextIs "finally") then
    want "finally"
    block self false

/-- An expression that is a statement, or a label with its statement. -/
def expressionStatement (self : Self) : P Unit := do
  match ← allowIn (self .expression) with
  | .name => if ← optional ":" then pass (self .statement) else endStatement
  | _ => endStatement

/-- Whether `let` starts a declaration. -/
def letDeclares : P Bool :=
  nextSatisfies (atAny ["\x7b", "["] <||> boundNameIsNext)

/-- The words that may start a declaration. -/
def declarationWords : List String :=
  ["async", "interface", "type", "module", "namespace", "declare", "const", "enum", "export", "import",
    "private", "protected", "public", "abstract", "accessor", "static", "readonly", "global"]

/-- A statement. -/
def statementBody (self : Self) : P Unit := do
  let w := (← token).text
  match w with
  | ";" => advance
  | "\x7b" => block self false
  | "var" =>
    variableList self false
    endStatement
  | "let" =>
    if ← letDeclares then
      variableList self false
      endStatement
    else expressionStatement self
  | "await" =>
    if ← startsAwaitUsing true then
      variableList self false
      endStatement
    else expressionStatement self
  | "using" =>
    if ← startsUsing true then
      variableList self false
      endStatement
    else expressionStatement self
  | "function" => functionRest self false false false
  | "class" => classRest self false
  | "if" =>
    advance
    parenthesized self
    pass (self .statement)
    if ← optional "else" then pass (self .statement)
  | "do" =>
    advance
    pass (self .statement)
    want "while"
    parenthesized self
    let _ ← optional ";"
  | "while" | "with" =>
    advance
    parenthesized self
    pass (self .statement)
  | "for" =>
    advance
    loopRest self
  | "continue" | "break" =>
    advance
    if !(← canEnd) then name
    endStatement
  | "return" =>
    advance
    if !(← canEnd) then pass (allowIn (self .expression))
    endStatement
  | "switch" =>
    advance
    parenthesized self
    want "\x7b"
    elements .clauses (clause self)
    want "\x7d"
  | "throw" =>
    advance
    if ← broken then missing NodeKind.identifier else pass (allowIn (self .expression))
    endStatement
  | "try" | "catch" | "finally" => tryRest self
  | "debugger" =>
    advance
    endStatement
  | "@" => declaration self
  | _ =>
    let declares ← if declarationWords.contains w then startsDeclaration else pure false
    if declares then declaration self else expressionStatement self

/-- A statement. -/
def statement (self : Self) : P Shape := do
  statementBody self
  return .value

/-! ## Whole scripts -/

/-- The reader of each rule, with so much depth left. -/
def run : Nat → Rule → P Shape
  | 0, _ => do
    advance
    return .value
  | depth + 1, rule =>
    match rule with
    | .statement => statement (run depth)
    | .expression => expression (run depth)
    | .assignment typed => assignment (run depth) typed
    | .binary => binary (run depth)
    | .unary => unary (run depth)
    | .leftHand => leftHand (run depth)
    | .binding => binding (run depth)
    | .type => type (run depth)
    | .typeOperator => typeOperator (run depth)
    | .plainType => plainType (run depth)
    | .namespaceRest => namespaceRest (run depth)
    | .element inExpression operand => element (run depth) inExpression operand

/-- A whole script. -/
def script : P Unit := do
  let self := run (16 * (← source).size + 64)
  elements .script (pass (self .statement))

/-- The reading of a script, with a meaning of `await` outside of functions. -/
def readScript (setting : Setting) (inAwait : Bool) : Reading :=
  let first := lexemeFrom setting.source setting.markup 0
  let start : Reading := ⟨first, #[], [], false, inAwait, false, false, false, 0, [], false, false⟩
  ((script.run setting).run start).2

/-- The tokens between two offsets. -/
def gapTokens (s : Source) (stop : Nat) : Nat → Nat → List ScriptTree
  | 0, _ => []
  | fuel + 1, i =>
    if stop ≤ i then []
    else
      let l := lexemeFrom s false i
      if l.stop ≤ stop && l.number != NodeKind.endOfFile then
        .node (.token l.number) l.start l.stop [] :: gapTokens s stop fuel l.stop
      else []

/-- Leaves from an offset on, with the tokens between them. -/
def fillGaps (s : Source) : Nat → List Leaf → List ScriptTree
  | i, [] => gapTokens s s.size (s.size + 1) i
  | i, leaf :: rest =>
    gapTokens s leaf.full (s.size + 1) i ++
      .node leaf.kind leaf.start leaf.stop [] :: fillGaps s (max i leaf.stop) rest

/-- The leaves of a script.  In a module, `await` outside of functions is an operator. -/
def leaves (dialect : Dialect) (t : Text) : List ScriptTree :=
  let typed := dialect == .ts || dialect == .tsx
  let setting : Setting := ⟨Source.ofText t, dialect.allowsMarkup, typed⟩
  let first := readScript setting false
  let reading :=
    if first.isModule && first.awaitName then readScript setting true else first
  fillGaps setting.source 0 reading.leaves.toList

end Grammar.Script

end CloneScan
