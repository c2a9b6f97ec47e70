import CloneScan.Grammar.ScriptClass

/-!
# Expressions

Expressions in scripts, with arrow functions told from what they look like by reading ahead.  The order
of operators does not matter for leaves, so operands and operators stand in one row.
-/

namespace CloneScan

namespace Grammar.Script

/-! ## Literals -/

/-- A template behind the expression that it is a tag of, or by itself. -/
def template (self : Self) : P Unit := do
  let head ← atNumber NodeKind.templateHead
  take
  if head then templateSpans (pass (allowIn (self .expression)))

/-- An element of an array or an argument. -/
def spreadOrValue (self : Self) : P Unit := do
  if ← optional "..." then pass (self (.assignment true))
  else if !(← nextIs ",") then pass (self (.assignment true))

/-- A member of an object. -/
def objectMember (self : Self) : P Unit := do
  if ← optional "..." then pass (self (.assignment true))
  else
    let found ← modifiers self withDecorators
    if ← contextualModifier "get" then accessor self false
    else if ← contextualModifier "set" then accessor self false
    else
      let generator ← optional "*"
      let named ← nameIsNext
      propertyName self
      let _ ← optional "?"
      let _ ← optional "!"
      if generator || (← atAny ["(", "<"]) then methodRest self generator (found.contains "async")
      else if named && !(← nextIs ":") then
        if ← optional "=" then pass (allowIn (self (.assignment true)))
      else
        want ":"
        pass (allowIn (self (.assignment true)))

/-- Arguments of a call. -/
def arguments (self : Self) : P Unit := do
  want "("
  withIn false (withDecorator false (separated .arguments (spreadOrValue self)))
  want ")"

/-! ## Members and calls -/

/-- Whether the token behind arguments for type parameters shows that they were that. -/
def canFollowTypeArguments : P Bool := do
  if (← nextIs "(") || (← templateIsNext) then return true
  else if ← atAny ["<", ">", "+", "-"] then return false
  else if ← broken then return true
  else
    let operator ← binaryOperatorIsNext
    return operator || !(← startsExpression)

/-- Arguments for type parameters among expressions, if that is what stands here. -/
def typeArgumentsIf (self : Self) : P Bool := do
  if !(← read).types || !(← atAny ["<", "<<"]) then return false
  else
    attempt do
      if ← nextIs "<<" then setToken ((← token).narrow "<")
      if ← optional "<" then
        separated .typeArguments (pass (self .type))
        setToken ((← token).widenGreater (← source))
        if ← optional ">" then canFollowTypeArguments else return false
      else return false

/-- What follows an operand: properties, indices, tagged templates and marks. -/
def memberRest (self : Self) (chains : Bool) (shape : Shape) : P Shape :=
  manyFrom shape fun shape => do
    let chained ←
      if chains && (← nextIs "?.") then
        nextSatisfies do
          let l ← token
          return l.isNameLike || l.text == "[" || (← templateIsNext)
      else pure false
    if chained then advance
    let property ← if chained then nameLikeIsNext else optional "."
    if property then
      nameBehindDot true
      return (.leftHand, true)
    else if (← nextIs "[") && (chained || !(← get).inDecorator) then
      advance
      if ← nextIs "]" then missing NodeKind.identifier
      else pass (allowIn (self .expression))
      want "]"
      return (.leftHand, true)
    else if ← templateIsNext then
      template self
      return (.leftHand, true)
    else if chained then return (shape, false)
    else if (← nextIs "!") && !(← broken) then
      advance
      return (.leftHand, true)
    else if ← typeArgumentsIf self then return (.leftHand, true)
    else return (shape, false)

/-- What follows an operand, with calls. -/
def callRest (self : Self) (shape : Shape) : P Shape :=
  manyFrom shape fun shape => do
    let shape ← memberRest self true shape
    let chained ← optional "?."
    let typed ← if chained then typeArgumentsIf self else pure false
    if chained && (← templateIsNext) then
      template self
      return (.leftHand, true)
    else if typed || (← nextIs "(") then
      arguments self
      return (.leftHand, true)
    else if chained then
      missing NodeKind.identifier
      return (.leftHand, false)
    else return (shape, false)

/-! ## Operands -/

/-- An operand behind `new`. -/
def newRest (self : Self) (primary : P Shape) : P Shape := do
  want "new"
  if ← optional "." then
    anyName
    return .leftHand
  else
    let first ← primary
    let _ ← memberRest self false first
    if ← nextIs "(" then arguments self
    return .leftHand

/-- An operand without what follows it, with a bound on the number of `new` before it. -/
def primary (self : Self) : Nat → P Shape
  | 0 => do
    missing NodeKind.identifier
    return .name
  | fuel + 1 => do
    let l ← token
    let identifier : P Shape := do
      if l.text == "await" then modify fun r => { r with awaitName := true }
      name
      return .name
    if l.number == NodeKind.numeric || l.number == NodeKind.bigNumeric ||
        l.number == NodeKind.string || l.number == NodeKind.privateIdentifier then
      take
      return .leftHand
    else if ← templateIsNext then
      template self
      return .leftHand
    else
      match l.text with
      | "this" | "super" | "null" | "true" | "false" =>
        advance
        return .leftHand
      | "(" =>
        advance
        pass (allowIn (self .expression))
        want ")"
        return .leftHand
      | "[" =>
        advance
        separated .arrayMembers (spreadOrValue self)
        want "]"
        return .leftHand
      | "\x7b" =>
        advance
        separatedLoosely .objectMembers (objectMember self)
        want "\x7d"
        return .leftHand
      | "async" =>
        if ← nextIsOnLine "function" then
          advance
          withDecorator false (functionRest self true false true)
          return .leftHand
        else identifier
      | "function" =>
        withDecorator false (functionRest self true false false)
        return .leftHand
      | "@" =>
        let _ ← modifiers self withDecorators
        if ← nextIs "class" then classRest self false
        return .leftHand
      | "class" =>
        classRest self false
        return .leftHand
      | "new" => newRest self (primary self fuel)
      | "/" | "/=" =>
        setToken (l.asRegex (← source))
        take
        return .leftHand
      | _ => identifier

/-- An operand without what follows it. -/
def operand (self : Self) : P Shape := do
  primary self ((← source).size + 1)

/-- `super` with what has to follow it. -/
def superOperand (self : Self) : P Shape := do
  advance
  if ← nextIs "<" then
    let _ ← typeArgumentsIf self
  if ← atAny ["(", ".", "["] then return .leftHand
  else
    blame
    nameBehindDot true
    return .leftHand

/-- An operand with all that follows it. -/
def leftHand (self : Self) : P Shape := do
  let first ←
    match (← token).text with
    | "import" =>
      if ← nextSatisfies (atAny ["(", "<"]) then
        advance
        pure .leftHand
      else if ← nextSatisfies (nextIs ".") then
        advance
        advance
        modify fun r => { r with isModule := true }
        anyName
        pure .leftHand
      else memberRest self true (← operand self)
    | "super" => superOperand self
    | _ => memberRest self true (← operand self)
  callRest self first

/-- An operand with a sign that counts it up or down. -/
def update (self : Self) : P Shape := do
  if ← atAny ["++", "--"] then
    advance
    pass (self .leftHand)
    return .value
  else
    let element ←
      if (← read).markup && (← nextIs "<") then
        nextSatisfies do return (← token).isNameLike || (← nextIs ">")
      else pure false
    if element then self (.element true false)
    else
      let shape ← self .leftHand
      if (← atAny ["++", "--"]) && !(← broken) then
        advance
        return .value
      else return shape

/-- Whether `await` is an operator here. -/
def awaitIsOperator : P Bool := do
  if ← nextIs "await" then
    if (← get).inAwait then return true else nextSatisfies valueOnLine
  else return false

/-- An operand with the operators before it. -/
def unary (self : Self) : P Shape := do
  match (← token).text with
  | "+" | "-" | "~" | "!" | "delete" | "typeof" | "void" =>
    advance
    pass (self .unary)
    return .value
  | "<" =>
    if (← read).markup then update self
    else
      advance
      pass (self .type)
      want ">"
      pass (self .unary)
      return .value
  | "await" =>
    if ← awaitIsOperator then
      advance
      pass (self .unary)
      return .value
    else update self
  | _ => update self

/-- Operands with operators between them. -/
def binary (self : Self) : P Shape := do
  let first ← self .unary
  manyFrom first fun shape => do
    setToken ((← token).widenGreater (← source))
    if ← atAny ["as", "satisfies"] then
      if ← broken then return (shape, false)
      else
        advance
        pass (self .type)
        return (.value, true)
    else if ← binaryOperatorIsNext then
      take
      pass (self .unary)
      return (.value, true)
    else return (shape, false)

/-! ## Arrow functions -/

/-- Whether an arrow function stands at parentheses. -/
inductive Verdict where
  | yes
  | no
  | perhaps
  deriving DecidableEq, Repr

/-- Whether the parentheses that are next are those of an arrow function. -/
def parensVerdict : P Verdict := do
  advance
  if ← optional ")" then
    if ← atAny ["=>", ":", "\x7b"] then return .yes else return .no
  else if ← atAny ["[", "\x7b"] then return .perhaps
  else if ← nextIs "..." then return .yes
  else
    let modified ←
      if (← modifierIsNext) && !(← nextIs "async") then nextSatisfies nameIsNext else pure false
    if modified then
      advance
      if ← nextIs "as" then return .no else return .yes
    else if !(← nextIs "this") && !(← nameIsNext) then return .no
    else
      advance
      if ← nextIs ":" then return .yes
      else if ← optional "?" then
        if ← atAny [":", ",", "=", ")"] then return .yes else return .no
      else if ← atAny [",", "=", ")"] then return .perhaps
      else return .no

/-- Whether the type parameters that are next are those of an arrow function. -/
def anglesVerdict : P Verdict := do
  advance
  let named ← nameIsNext
  if !named && !(← nextIs "const") then return .no
  else if (← read).markup then
    let _ ← optional "const"
    advance
    if ← nextIs "extends" then
      advance
      if ← atAny ["=", ">", "/"] then return .no else return .yes
    else if ← atAny [",", "="] then return .yes
    else return .no
  else return .perhaps

/-- Whether an arrow function with parentheses starts here. -/
def arrowVerdict : P Verdict := do
  match (← token).text with
  | "(" => lookAhead parensVerdict
  | "<" => lookAhead anglesVerdict
  | "async" =>
    lookAhead do
      advance
      if ← broken then return .no
      else
        match (← token).text with
        | "(" => parensVerdict
        | "<" => anglesVerdict
        | _ => return .no
  | "=>" => return .yes
  | _ => return .no

/-- The body of an arrow function. -/
def arrowBody (self : Self) (isAsync typed : Bool) : P Unit := do
  if ← nextIs "\x7b" then functionBlock self false isAsync false
  else
    let statement ←
      if ← atAny [";", "function", "class"] then pure false
      else if ← startsStatement then pure !(← startsExpressionStatement)
      else pure false
    if statement then functionBlock self false isAsync true
    else pass (withAwait isAsync (self (.assignment typed)))

/-- Takes the modifier of an arrow function.  Tells whether it was there. -/
def arrowModifier : P Bool :=
  optional "async"

/-- An arrow function with parentheses.  The first flag tells whether it is certain to be one; if not,
the reader may fail.  The second tells whether it may have the type of its result written. -/
def arrowFunction (self : Self) (certain typed : Bool) : P Bool := do
  let isAsync ← arrowModifier
  typeParameters self
  let opened ← expect "("
  let listed ←
    if opened then
      let read ← parameterList self false isAsync !certain
      if !read then pure false
      else
        let closed ← expect ")"
        pure (closed || certain)
    else pure certain
  if !listed then return false
  else
    let colon ← nextIs ":"
    let result ← returnType self ":" false
    let blocked :=
      match result with
      | some .missing => !certain
      | _ => false
    let bodyFollows ← atAny ["=>", "\x7b"]
    if blocked || (!certain && !bodyFollows) then return false
    else
      let _ ← demand "=>"
      if bodyFollows then arrowBody self isAsync typed else name
      if !typed && colon then nextIs ":" else return true

/-- An arrow function that may stand here, read at most once at each place. -/
def arrowFunctionIf (self : Self) (typed : Bool) : P Bool := do
  let place := (← token).start
  if (← get).noArrow.contains place then return false
  else if ← attempt (arrowFunction self false typed) then return true
  else
    modify fun r => { r with noArrow := place :: r.noArrow }
    return false

/-- An arrow function behind its only parameter. -/
def simpleArrowRest (self : Self) (isAsync typed : Bool) : P Unit := do
  let _ ← demand "=>"
  arrowBody self isAsync typed

/-- Whether `async` and a name start an arrow function. -/
def startsAsyncArrow (self : Self) : P Bool := do
  if ← nextIs "async" then
    lookAhead do
      advance
      if (← broken) || (← nextIs "=>") then return false
      else
        match ← self .binary with
        | .name => return !(← broken) && (← nextIs "=>")
        | _ => return false
  else return false

/-! ## Assignments -/

/-- Whether `yield` is an operator here. -/
def yieldIsOperator : P Bool := do
  if ← nextIs "yield" then
    if (← get).inYield then return true else nextSatisfies valueOnLine
  else return false

/-- The rest of a conditional expression, if there is one. -/
def conditionalRest (self : Self) (shape : Shape) (typed : Bool) : P Shape := do
  if ← optional "?" then
    pass (withIn false (withDecorator false (self (.assignment false))))
    if ← demand ":" then pass (self (.assignment typed))
    else missing NodeKind.identifier
    return .value
  else return shape

/-- An expression without commas. -/
def assignment (self : Self) (typed : Bool) : P Shape := do
  if ← yieldIsOperator then
    advance
    let more ← if ← broken then pure false else nextIs "*" <||> startsExpression
    if more then
      let _ ← optional "*"
      pass (self (.assignment typed))
    return .value
  else
    let arrow ←
      match ← arrowVerdict with
      | .yes => arrowFunction self true true
      | .perhaps => arrowFunctionIf self typed
      | .no => pure false
    if arrow then return .value
    else if ← startsAsyncArrow self then
      advance
      pass (self .binary)
      simpleArrowRest self true typed
      return .value
    else
      let shape ← self .binary
      let isName := match shape with
        | .name => true
        | _ => false
      let isLeftHand := match shape with
        | .name | .leftHand | .element .. => true
        | _ => false
      if isName && (← nextIs "=>") then
        simpleArrowRest self false typed
        return .value
      else
        setToken ((← token).widenGreater (← source))
        if isLeftHand && (← atAny assignmentOperators) then
          take
          pass (self (.assignment typed))
          return .value
        else conditionalRest self shape typed

/-- An expression. -/
def expression (self : Self) : P Shape :=
  withDecorator false do
    let first ← self (.assignment true)
    let more ← nextIs ","
    many do
      if ← optional "," then
        pass (self (.assignment true))
        return true
      else return false
    return if more then .value else first

end Grammar.Script

end CloneScan
