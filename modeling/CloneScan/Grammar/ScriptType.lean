import CloneScan.Grammar.ScriptSignature

/-!
# Types

Types in scripts.  A question mark, an exclamation mark or an asterisk that makes a type belongs to the
types of documentation comments: what it makes is no code.
-/

namespace CloneScan

namespace Grammar.Script

/-- Makes documentation of all that was read since an offset, at which there were so many leaves. -/
def asDocumentation (full start count : Nat) : P Unit := do
  let stop := (← token).full
  modify fun r =>
    { r with leaves := (r.leaves.extract 0 count).push ⟨.documentation, full, start, stop⟩ }

/-- Runs a reader and makes documentation of what it reads. -/
def documentation (p : P Unit) : P Unit := do
  let l ← token
  let count := (← get).leaves.size
  p
  asDocumentation l.full l.start count

/-! ## Names -/

/-- The name behind a dot.  A keyword on the next line that starts something else is not taken. -/
def nameBehindDot (privates : Bool) : P Unit := do
  let l ← token
  let astray ←
    if l.broken && l.isNameLike then
      nextSatisfies do
        let next ← token
        return next.isNameLike && !next.broken
    else pure false
  if astray then missing NodeKind.identifier
  else if l.number == NodeKind.privateIdentifier then
    take
    if !privates then missing NodeKind.identifier
  else anyName

/-- Names with dots between them; the flag tells whether keywords may be among them.  Tells whether
the first was there. -/
def dottedName (keywords : Bool) : P Bool := do
  let found ← takeName (← if keywords then nameLikeIsNext else nameIsNext)
  many do
    if ← optional "." then
      if ← nextIs "<" then return false
      else
        nameBehindDot false
        return true
    else return false
  return found

/-- Arguments for type parameters on the same line, if there are any. -/
def typeArgumentsOnLine (self : Self) : P Unit := do
  if !(← broken) then
    if ← nextIs "<<" then setToken ((← token).narrow "<")
    typeArguments self

/-- A type by its name. -/
def typeReference (self : Self) : P Shape := do
  let found ← dottedName true
  typeArgumentsOnLine self
  return if found then .value else .missing

/-! ## Types with members -/

/-- A member of a type. -/
def typeMember (self : Self) : P Unit := do
  let callable : P Unit := do
    typeParameters self
    let _ ← parameters self false false
    let _ ← returnType self ":" true
    endTypeMember
  if ← atAny ["(", "<"] then callable
  else if (← nextIs "new") && (← nextSatisfies (atAny ["(", "<"])) then
    advance
    callable
  else
    let _ ← modifiers self noDecorators
    if ← contextualModifier "get" then accessor self true
    else if ← contextualModifier "set" then accessor self true
    else if ← startsIndexSignature then indexSignature self
    else
      propertyName self
      let _ ← optional "?"
      if ← atAny ["(", "<"] then callable
      else
        typeAnnotation self
        initializer self
        endTypeMember

/-- The members of a type between braces. -/
def typeMembers (self : Self) : P Unit := do
  if ← expect "\x7b" then
    elements .typeMembers (typeMember self)
    want "\x7d"

/-- Whether a mapped type stands here. -/
def startsMappedType : P Bool :=
  lookAhead do
    advance
    if ← atAny ["+", "-"] then
      advance
      nextIs "readonly"
    else
      let _ ← optional "readonly"
      if ← optional "[" then
        if ← nameIsNext then
          advance
          nextIs "in"
        else return false
      else return false

/-- A mapped type. -/
def mappedType (self : Self) : P Unit := do
  want "\x7b"
  if ← atAny ["+", "-"] then
    advance
    want "readonly"
  else
    let _ ← optional "readonly"
    pure ()
  want "["
  anyName
  want "in"
  pass (self .type)
  if ← optional "as" then pass (self .type)
  want "]"
  if ← atAny ["+", "-"] then
    advance
    want "?"
  else
    let _ ← optional "?"
    pure ()
  typeAnnotation self
  endStatement
  elements .typeMembers (typeMember self)
  want "\x7d"

/-! ## Tuples -/

/-- Whether an element of a tuple has a name. -/
def startsNamedElement : P Bool :=
  lookAhead do
    let _ ← optional "..."
    if ← nameLikeIsNext then
      advance
      let _ ← optional "?"
      nextIs ":"
    else return false

/-- The type of an element of a tuple.  A question mark behind it makes the element optional. -/
def elementType (self : Self) : P Unit := do
  if ← optional "..." then pass (self .type)
  else
    match ← self .type with
    | .nullable leaves => modify fun r => { r with leaves }
    | _ => return

/-- An element of a tuple. -/
def tupleElement (self : Self) : P Unit := do
  if ← startsNamedElement then
    let _ ← optional "..."
    anyName
    let _ ← optional "?"
    want ":"
  elementType self

/-! ## Functions -/

/-- Moves over the start of a parameter and tells whether there was one. -/
def passParameterStart (self : Self) : P Bool := do
  if ← modifierIsNext then
    let _ ← modifiers self noDecorators
  if (← nextIs "this") || (← nameIsNext) then
    advance
    return true
  else if ← atAny ["[", "\x7b"] then
    let before := (← get).errors
    pass (self .binding)
    return (← get).errors == before
  else return false

/-- Whether parentheses start the type of a function. -/
def parensStartFunction (self : Self) : P Bool :=
  lookAhead do
    advance
    if ← atAny [")", "..."] then return true
    else if ← passParameterStart self then
      if ← atAny [":", ",", "?", "="] then return true
      else if ← optional ")" then nextIs "=>"
      else return false
    else return false

/-- Whether the type of a function or a constructor stands here. -/
def startsFunctionType (self : Self) : P Bool := do
  match (← token).text with
  | "<" | "new" => return true
  | "(" => parensStartFunction self
  | "abstract" => nextSatisfies (nextIs "new")
  | _ => return false

/-- The type of a function or a constructor. -/
def functionType (self : Self) : P Shape := do
  let _ ← optional "abstract"
  let _ ← optional "new"
  typeParameters self
  let present ← parameters self false false
  let result ← returnType self "=>" false
  match present, result with
  | true, some .missing | false, _ => return .missing
  | _, _ => return .value

/-! ## Literals and the rest -/

/-- The spans of a template after its head. -/
def templateSpans (inner : P Unit) : P Unit :=
  many do
    inner
    if ← nextIs "\x7d" then
      setToken ((← token).asTemplate (← source))
      let middle ← atNumber NodeKind.templateMiddle
      take
      return middle
    else
      missing NodeKind.templateTail
      return false

/-- The attributes of an import, between braces. -/
def importAttributes (self : Self) : P Unit := do
  if ← expect "\x7b" then
    separatedLoosely .importAttributes do
      if ← nameLikeIsNext then anyName
      else if ← atNumber NodeKind.string then take
      else missing NodeKind.string
      want ":"
      pass (self (.assignment true))
    want "\x7d"

/-- The type of a module. -/
def importType (self : Self) : P Unit := do
  let _ ← optional "typeof"
  want "import"
  want "("
  pass (self .type)
  if ← optional "," then
    want "\x7b"
    if ← atAny ["with", "assert"] then advance else want "with"
    want ":"
    importAttributes self
    want "\x7d"
  want ")"
  if ← optional "." then
    let _ ← dottedName true
  typeArgumentsOnLine self

/-- A type of documentation comments that a question mark starts. -/
def questionType (self : Self) : P Unit :=
  documentation do
    advance
    if !(← atAny [",", "\x7d", ")", ">", "=", "|"]) then pass (self .type)

/-- The keywords that are types by themselves. -/
def typeWords : List String :=
  ["any", "unknown", "string", "number", "bigint", "symbol", "boolean", "undefined", "never",
    "object"]

/-- A type without operators. -/
def plainType (self : Self) : P Shape := do
  let l ← token
  let text := l.text
  let literal := l.number == NodeKind.template || l.number == NodeKind.string ||
    l.number == NodeKind.numeric || l.number == NodeKind.bigNumeric
  if literal then
    take
    return .value
  else if l.number == NodeKind.templateHead then
    take
    templateSpans (pass (self .type))
    return .value
  else if typeWords.contains text then
    let whole ← attempt do
      advance
      return !(← nextIs ".")
    if whole then return .value else typeReference self
  else
    match text with
    | "*=" =>
      setToken (l.narrow "*")
      documentation advance
      return .value
    | "*" =>
      documentation advance
      return .value
    | "??" =>
      setToken (l.narrow "?")
      questionType self
      return .value
    | "?" =>
      questionType self
      return .value
    | "!" =>
      documentation do
        advance
        pass (self .plainType)
      return .value
    | "function" =>
      if ← nextSatisfies (nextIs "(") then
        documentation do
          advance
          let _ ← parameters self false false
          resultAnnotation self
        return .value
      else typeReference self
    | "true" | "false" | "null" | "void" =>
      advance
      return .value
    | "-" =>
      if ← nextSatisfies numberIsNext then
        advance
        take
        return .value
      else typeReference self
    | "this" =>
      advance
      if (← nextIs "is") && !(← broken) then
        advance
        pass (self .type)
      return .value
    | "typeof" =>
      if ← nextSatisfies (nextIs "import") then importType self
      else
        advance
        let _ ← dottedName true
        if !(← broken) then typeArguments self
      return .value
    | "\x7b" =>
      if ← startsMappedType then mappedType self else typeMembers self
      return .value
    | "[" =>
      bracketed .tupleTypes "[" "]" (tupleElement self)
      return .value
    | "(" =>
      advance
      let inner ← self .type
      want ")"
      match inner with
      | .missing => return .missing
      | _ => return .value
    | "import" =>
      importType self
      return .value
    | "asserts" =>
      let claims ← nextSatisfies do
        if ← broken then return false else nextIs "this" <||> nameIsNext
      if claims then
        advance
        if !(← optional "this") then name
        if ← optional "is" then pass (self .type)
        return .value
      else typeReference self
    | _ => typeReference self

/-- A type with the brackets and marks behind it. -/
def postfixType (self : Self) : P Shape := do
  let l ← token
  let count := (← get).leaves.size
  let first ← plainType self
  manyFrom first fun shape => do
    if ← broken then return (shape, false)
    else
      match (← token).text with
      | "!" =>
        advance
        asDocumentation l.full l.start count
        return (.value, true)
      | "?" =>
        if ← nextSatisfies startsType then return (shape, false)
        else
          let leaves := (← get).leaves
          advance
          asDocumentation l.full l.start count
          return (.nullable leaves, true)
      | "[" =>
        advance
        if ← startsType then pass (self .type)
        want "]"
        return (.value, true)
      | _ => return (shape, false)

/-- A type with the operators before it. -/
def typeOperator (self : Self) : P Shape := do
  match (← token).text with
  | "keyof" | "unique" | "readonly" =>
    advance
    pass (self .typeOperator)
    return .value
  | "infer" =>
    advance
    name
    let _ ← attempt do
      if ← optional "extends" then
        pass (withConditional true (self .type))
        return (← get).noConditional || !(← nextIs "?")
      else return false
    return .value
  | _ => withConditional false (postfixType self)

/-- Types with an operator between them, which may also stand before the first. -/
def joinedTypes (self : Self) (mark : String) (part : P Shape) : P Shape := do
  let whole : P Shape := do
    if ← startsFunctionType self then functionType self else part
  let leading ← optional mark
  let first ← if leading then whole else part
  let more ← nextIs mark
  many do
    if ← optional mark then
      pass whole
      return true
    else return false
  return if more || leading then .value else first

/-- A type.  A condition may follow it on the same line. -/
def type (self : Self) : P Shape :=
  withFlow false false do
    if ← startsFunctionType self then functionType self
    else
      let first ← joinedTypes self "|" (joinedTypes self "&" (typeOperator self))
      if !(← get).noConditional && !(← broken) && (← nextIs "extends") then
        advance
        pass (withConditional true (self .type))
        want "?"
        pass (withConditional false (self .type))
        want ":"
        pass (withConditional false (self .type))
        return .value
      else return first

end Grammar.Script

end CloneScan
