import CloneScan.Grammar.ScriptReader

/-!
# What the parts of a script start with

Whether a statement, a declaration, an expression, a type or a member can start at the next token, and
the lists that are read by these tests.
-/

namespace CloneScan

namespace Grammar.Script

/-! ## Modifiers -/

/-- The words that can modify a declaration or a member. -/
def modifierWords : List String :=
  ["abstract", "accessor", "async", "const", "declare", "default", "export", "in", "public",
    "private", "protected", "readonly", "static", "out", "override"]

/-- Whether a word that can modify is next. -/
def modifierIsNext : P Bool :=
  atAny modifierWords

/-- Whether the next token can follow a modifier. -/
def canFollowModifier : P Bool :=
  atAny ["[", "\x7b", "*", "..."] <||> plainPropertyIsNext

/-- Whether the next token can follow `export` as a modifier. -/
def canFollowExport : P Bool := do
  if ← nextIs "@" then return true
  else if ← atAny ["*", "as", "\x7b"] then return false
  else canFollowModifier

/-- Whether the token behind the next one stands on its line and has a spelling. -/
def nextIsOnLine (w : String) : P Bool :=
  nextSatisfies do return (← token).text == w && !(← broken)

/-- Whether a declaration that can be a default is next. -/
def canFollowDefault : P Bool := do
  if ← atAny ["class", "function", "interface", "@"] then return true
  else if ← nextIs "abstract" then nextIsOnLine "class"
  else if ← nextIs "async" then nextIsOnLine "function"
  else return false

/-- Moves over a modifier and tells whether what follows allows it to be one. -/
def passModifier : P Bool := do
  match (← token).text with
  | "const" =>
    advance
    nextIs "enum"
  | "export" =>
    advance
    if ← nextIs "default" then nextSatisfies canFollowDefault
    else if ← nextIs "type" then nextSatisfies canFollowExport
    else canFollowExport
  | "default" =>
    advance
    canFollowDefault
  | "static" | "get" | "set" =>
    advance
    canFollowModifier
  | _ =>
    advance
    if ← broken then return false else canFollowModifier

/-- Moves over a word if it is a modifier here. -/
def contextualModifier (w : String) : P Bool := do
  if ← nextIs w then attempt passModifier else return false

/-! ## Expressions -/

/-- The operators that stand between two operands. -/
def binaryOperators : List String :=
  ["??", "||", "&&", "|", "^", "&", "==", "!=", "===", "!==", "<", ">", "<=", ">=", "instanceof", "in",
    "as", "satisfies", "<<", ">>", ">>>", "+", "-", "*", "/", "%", "**"]

/-- The operators that assign. -/
def assignmentOperators : List String :=
  ["=", "+=", "-=", "*=", "**=", "/=", "%=", "<<=", ">>=", ">>>=", "&=", "|=", "||=", "&&=", "??=",
    "^="]

/-- Whether an operator that stands between operands is next. -/
def binaryOperatorIsNext : P Bool := do
  if (← get).noIn && (← nextIs "in") then return false else atAny binaryOperators

/-- Whether the start of a template is next. -/
def templateIsNext : P Bool :=
  atNumber NodeKind.template <||> atNumber NodeKind.templateHead

/-- Whether an operand that can be called can start here. -/
def startsLeftHand : P Bool := do
  let l ← token
  if ["this", "super", "null", "true", "false", "(", "[", "\x7b", "function", "class", "new", "/",
      "/="].contains l.text then return true
  else if l.number == NodeKind.identifier || l.number == NodeKind.numeric ||
      l.number == NodeKind.bigNumeric || l.number == NodeKind.string then return true
  else if l.text == "import" then nextSatisfies (atAny ["(", "<", "."])
  else templateIsNext <||> nameIsNext

/-- Whether an expression can start here.  An operator counts, because an operand may be missing
before it. -/
def startsExpression : P Bool := do
  if ← startsLeftHand then return true
  else if ← atAny ["+", "-", "~", "!", "delete", "typeof", "void", "++", "--", "<", "await", "yield",
      "@"] then return true
  else if ← atNumber NodeKind.privateIdentifier then return true
  else binaryOperatorIsNext <||> nameIsNext

/-- Whether a name, a keyword or a literal is next on the same line. -/
def valueOnLine : P Bool := do
  let l ← token
  return (l.isNameLike || l.number == NodeKind.numeric || l.number == NodeKind.bigNumeric ||
    l.number == NodeKind.string) && !l.broken

/-! ## Bindings, parameters and types -/

/-- Whether a bound name or a pattern is next. -/
def startsBinding : P Bool :=
  atAny ["\x7b", "["] <||> atNumber NodeKind.privateIdentifier <||> boundNameIsNext

/-- The words and marks that always start a type. -/
def typeStarts : List String :=
  ["any", "unknown", "string", "number", "bigint", "boolean", "readonly", "symbol", "unique", "void",
    "undefined", "null", "this", "typeof", "never", "\x7b", "[", "<", "|", "&", "new", "true", "false",
    "object", "*", "?", "!", "...", "infer", "import", "asserts"]

/-- Whether a number is next. -/
def numberIsNext : P Bool :=
  atNumber NodeKind.numeric <||> atNumber NodeKind.bigNumeric

/-- Whether a type can start here.  The flag tells whether the type would be the start of a
parameter; the bound is on the parentheses that have to be looked into. -/
def startsTypeWithin : Nat → Bool → P Bool
  | 0, _ => return false
  | fuel + 1, inParameter => do
    if ← atAny typeStarts then return true
    else if ← numberIsNext <||> atNumber NodeKind.string <||> templateIsNext then return true
    else
      match (← token).text with
      | "function" => return !inParameter
      | "-" => if inParameter then return false else nextSatisfies numberIsNext
      | "(" =>
        if inParameter then return false
        else
          nextSatisfies do
            if ← atAny [")", "...", "@"] then return true
            else
              startsBinding <||> modifierIsNext <||> startsTypeWithin fuel true <||>
                startsTypeWithin fuel false
      | _ => nameIsNext

/-- Whether a type can start here. -/
def startsType : P Bool := do
  startsTypeWithin ((← source).size + 1) false

/-- Whether a parameter can start here. -/
def startsParameter : P Bool := do
  if ← atAny ["...", "@"] then return true
  else startsBinding <||> modifierIsNext <||> startsTypeWithin 2 true

/-! ## Declarations and statements -/

/-- Whether a bound name or an object pattern follows on the same line. -/
def bindingOnLine : P Bool := do
  if ← broken then return false else nextIs "\x7b" <||> boundNameIsNext

/-- Whether `using` starts a declaration.  The flag tells whether `of` may be the name. -/
def startsUsing (allowOf : Bool) : P Bool :=
  nextSatisfies do
    if !allowOf && (← nextIs "of") then return false else bindingOnLine

/-- Whether `await` starts a declaration with `using`. -/
def startsAwaitUsing (allowOf : Bool) : P Bool :=
  nextSatisfies do
    if ← nextIs "using" then startsUsing allowOf else return false

/-- Reads ahead and tells whether a declaration stands here. -/
def declares : Nat → P Bool
  | 0 => return false
  | fuel + 1 => do
    match (← token).text with
    | "var" | "let" | "const" | "function" | "class" | "enum" => return true
    | "using" => startsUsing true
    | "await" => startsAwaitUsing true
    | "interface" | "type" =>
      advance
      if ← broken then return false else nameIsNext
    | "module" | "namespace" =>
      advance
      if ← broken then return false else nameIsNext <||> atNumber NodeKind.string
    | "abstract" | "accessor" | "async" | "declare" | "private" | "protected" | "public" |
      "readonly" =>
      let previous := (← token).text
      advance
      if ← broken then return false
      else if previous == "declare" && (← nextIs "type") then return true
      else declares fuel
    | "global" =>
      advance
      atAny ["\x7b", "export"] <||> atNumber NodeKind.identifier
    | "import" =>
      advance
      atAny ["*", "\x7b"] <||> atNumber NodeKind.string <||> nameLikeIsNext
    | "export" =>
      advance
      let follows : P Bool := atAny ["=", "*", "\x7b", "default", "as", "@"]
      let found ← if ← nextIs "type" then nextSatisfies follows else follows
      if found then return true else declares fuel
    | "static" =>
      advance
      declares fuel
    | _ => return false

/-- Whether a declaration starts here. -/
def startsDeclaration : P Bool := do
  lookAhead (declares ((← source).size + 1))

/-- Whether a statement starts here. -/
def startsStatement : P Bool := do
  match (← token).text with
  | "@" | ";" | "\x7b" | "var" | "let" | "using" | "function" | "class" | "enum" | "if" | "do" |
    "while" | "for" | "continue" | "break" | "return" | "with" | "switch" | "throw" | "try" |
    "debugger" | "catch" | "finally" => return true
  | "import" => startsDeclaration <||> nextSatisfies (atAny ["(", "<", "."])
  | "const" | "export" => startsDeclaration
  | "async" | "declare" | "interface" | "module" | "namespace" | "type" | "global" => return true
  | "accessor" | "public" | "private" | "protected" | "static" | "readonly" =>
    if ← startsDeclaration then return true
    else
      nextSatisfies do
        let l ← token
        return !(l.isNameLike && !l.broken)
  | _ => startsExpression

/-- Whether an expression that is a statement starts here. -/
def startsExpressionStatement : P Bool := do
  if ← atAny ["\x7b", "function", "class", "@"] then return false else startsExpression

/-! ## Members -/

/-- Reads ahead over modifiers and tells whether there were any. -/
def passModifiers : P Bool := do
  let any ← modifierIsNext
  many do
    if ← modifierIsNext then
      advance
      return true
    else return false
  return any

/-- Whether a member of a type starts here. -/
def startsTypeMember : P Bool := do
  if ← atAny ["(", "<", "get", "set"] then return true
  else
    lookAhead do
      let modified ← passModifiers
      if ← nextIs "[" then return true
      else
        let named ← plainPropertyIsNext
        if named then advance
        if modified || named then atAny ["(", "<", "?", ":", ","] <||> canEnd else return false

/-- The modifiers that only members of classes have. -/
def memberModifiers : List String :=
  ["public", "private", "protected", "readonly", "override", "static", "accessor"]

/-- Whether a member of a class starts here. -/
def startsClassMember : P Bool := do
  if ← nextIs "@" then return true
  else
    lookAhead do
      let last ← lookAhead do
        many do
          if (← modifierIsNext) && !(← atAny memberModifiers) then
            advance
            return true
          else return false
        token
      if memberModifiers.contains last.text then return true
      else
        let before ← token
        let modified ← passModifiers
        if ← nextIs "*" then return true
        else
          let here ← token
          let named ← plainPropertyIsNext
          if named then advance
          if ← nextIs "[" then return true
          else if !named && !modified then return false
          else
            let id := if named then here else before
            if !id.isWord || id.text == "get" || id.text == "set" then return true
            else atAny ["(", "<", "!", ":", "=", "?"] <||> canEnd

/-- Whether the word `extends` or `implements` starts a clause rather than names something. -/
def heritageIsNext : P Bool :=
  atAny ["extends", "implements"]

/-- Whether an object literal can be what is extended. -/
def objectIsExtended : P Bool :=
  lookAhead do
    advance
    if ← nextIs "\x7d" then
      advance
      atAny [",", "\x7b", "extends", "implements"]
    else return true

/-! ## Lists -/

/-- Whether an element of a list starts here.  The flag tells whether a token that does not fit is
being weighed. -/
def startsElement (kind : ListKind) (weighing : Bool) : P Bool := do
  match kind with
  | .script | .block | .clauseBody =>
    if weighing && (← nextIs ";") then return false else startsStatement
  | .clauses => atAny ["case", "default"]
  | .typeMembers => startsTypeMember
  | .classMembers =>
    if ← startsClassMember then return true else return !weighing && (← nextIs ";")
  | .enumMembers => nextIs "[" <||> plainPropertyIsNext
  | .objectMembers => atAny ["[", "*", "...", "."] <||> plainPropertyIsNext
  | .objectBinding => atAny ["[", "..."] <||> plainPropertyIsNext
  | .importAttributes => atNumber NodeKind.string <||> nameLikeIsNext
  | .heritageTypes =>
    if ← nextIs "\x7b" then objectIsExtended
    else
      let fits ← if weighing then nameIsNext else startsLeftHand
      if !fits then return false
      else if ← heritageIsNext then
        return !(← nextSatisfies startsExpression)
      else return true
  | .variables => startsBinding
  | .arrayBinding => atAny [",", "..."] <||> startsBinding
  | .typeParameters => atAny ["in", "const"] <||> nameIsNext
  | .arrayMembers => atAny [",", ".", "..."] <||> startsExpression
  | .arguments => nextIs "..." <||> startsExpression
  | .parameters => startsParameter
  | .typeArguments | .tupleTypes => nextIs "," <||> startsType
  | .heritage => heritageIsNext
  | .specifiers =>
    if ← nextIs "from" then
      if ← nextSatisfies (atNumber NodeKind.string) then return false else return true
    else nameLikeIsNext
  | .attributes => nextIs "\x7b" <||> nameLikeIsNext
  | .children => return true

/-- Whether a list ends here. -/
def endsList (kind : ListKind) : P Bool := do
  if ← atNumber NodeKind.endOfFile then return true
  else
    match kind with
    | .script => return false
    | .block | .clauses | .typeMembers | .classMembers | .enumMembers | .objectMembers |
      .objectBinding | .specifiers | .importAttributes => nextIs "\x7d"
    | .clauseBody => atAny ["\x7d", "case", "default"]
    | .heritageTypes => atAny ["\x7b", "extends", "implements"]
    | .variables =>
      if ← canEnd then return true else atAny ["in", "of", "=>"]
    | .typeParameters => atAny [">", "(", "\x7b", "extends", "implements"]
    | .arguments => atAny [")", ";"]
    | .arrayMembers | .tupleTypes | .arrayBinding => nextIs "]"
    | .parameters => atAny [")", "]"]
    | .typeArguments => return !(← nextIs ",")
    | .heritage => atAny ["\x7b", "\x7d"]
    | .attributes => atAny [">", "/"]
    | .children => nextIs "</"

/-- Whether a list that is open could go on or end here. -/
def someListGoesOn : P Bool := do
  let lists := (← get).lists
  lists.anyM fun kind => startsElement kind true <||> endsList kind

/-- Ends a list at a token that does not fit, or passes over that token.  Tells whether the list goes
on. -/
def passOrEnd : P Bool := do
  blame
  if ← someListGoesOn then return false
  else
    advance
    return true

/-- Runs a reader of a list. -/
def insideList {α : Type} (kind : ListKind) (p : P α) : P α := do
  let before := (← get).lists
  modify fun r => { r with lists := if before.contains kind then before else kind :: before }
  let a ← p
  modify fun r => { r with lists := before }
  return a

/-- Elements one after the other. -/
def elements (kind : ListKind) (element : P Unit) : P Unit :=
  insideList kind do
    many do
      if ← endsList kind then return false
      else if ← startsElement kind false then
        element
        return true
      else passOrEnd

/-- How a list with commas goes on: with another element, not at all, or not at all because an element
could not be read. -/
inductive Course where
  | more
  | done
  | failed
  deriving DecidableEq, Repr

/-- One element of a list with commas, with what follows it. -/
def separatedStep (kind : ListKind) (semicolons : Bool) (element : P Bool) : P Course := do
  if ← startsElement kind false then
    let start := (← token).full
    if !(← element) then return .failed
    else if ← optional "," then return .more
    else if ← endsList kind then return .done
    else
      blame
      if semicolons && (← nextIs ";") && !(← broken) then advance
      if (← token).full == start then advance
      return .more
  else if ← endsList kind then return .done
  else if ← passOrEnd then return .more
  else return .done

/-- Elements with commas between them, at most `fuel` of them.  Tells whether all could be read. -/
def separatedUpTo (kind : ListKind) (semicolons : Bool) (element : P Bool) : Nat → P Bool
  | 0 => return true
  | fuel + 1 => do
    match ← separatedStep kind semicolons element with
    | .more => separatedUpTo kind semicolons element fuel
    | .done => return true
    | .failed => return false

/-- Elements with commas between them, each of which may fail.  Tells whether all could be read. -/
def separated? (kind : ListKind) (element : P Bool) : P Bool :=
  insideList kind do
    separatedUpTo kind false element (2 * (← source).size + 8)

/-- Elements with commas between them. -/
def separated (kind : ListKind) (element : P Unit) : P Unit := do
  let _ ← separated? kind do
    element
    return true
  return

/-- Elements with commas between them, for which a semicolon may stand. -/
def separatedLoosely (kind : ListKind) (element : P Unit) : P Unit :=
  insideList kind do
    let whole : P Bool := do
      element
      return true
    let _ ← separatedUpTo kind true whole (2 * (← source).size + 8)
    return

/-- Elements with commas between two marks. -/
def bracketed (kind : ListKind) (opener closer : String) (element : P Unit) : P Unit := do
  if ← expect opener then
    separated kind element
    want closer

end Grammar.Script

end CloneScan
