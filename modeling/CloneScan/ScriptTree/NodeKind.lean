import CloneScan.Token

/-!
# Kinds of script nodes

Token kinds are numbered; the number decides whether a kind is a literal, punctuation or a keyword.
A few numbers are known under a second name, which is the one that messages show.
-/

namespace CloneScan

/-- The kind of a node of a script tree. -/
inductive NodeKind where
  /-- A token, by its number. -/
  | token (number : Nat)
  /-- The list of the children of another node. -/
  | list
  /-- A part of a documentation comment. -/
  | documentation
  /-- Any other node. -/
  | other
  deriving DecidableEq, Repr, Inhabited

namespace NodeKind

/-- The names of the kinds from the first on, up to the start of the punctuation. -/
def leadingNames : List String :=
  ["Unknown", "EndOfFileToken", "SingleLineCommentTrivia", "MultiLineCommentTrivia",
    "NewLineTrivia", "WhitespaceTrivia", "ShebangTrivia", "ConflictMarkerTrivia",
    "NonTextFileMarkerTrivia", "NumericLiteral", "BigIntLiteral", "StringLiteral", "JsxText",
    "JsxTextAllWhiteSpaces", "RegularExpressionLiteral", "NoSubstitutionTemplateLiteral",
    "TemplateHead", "TemplateMiddle", "TemplateTail"]

/-- The names of the punctuation, without their common ending. -/
def punctuationNames : List String :=
  ["OpenBrace", "CloseBrace", "OpenParen", "CloseParen", "OpenBracket", "CloseBracket", "Dot",
    "DotDotDot", "Semicolon", "Comma", "QuestionDot", "LessThan", "LessThanSlash", "GreaterThan",
    "LessThanEquals", "GreaterThanEquals", "EqualsEquals", "ExclamationEquals",
    "EqualsEqualsEquals", "ExclamationEqualsEquals", "EqualsGreaterThan", "Plus", "Minus",
    "Asterisk", "AsteriskAsterisk", "Slash", "Percent", "PlusPlus", "MinusMinus",
    "LessThanLessThan", "GreaterThanGreaterThan", "GreaterThanGreaterThanGreaterThan",
    "Ampersand", "Bar", "Caret", "Exclamation", "Tilde", "AmpersandAmpersand", "BarBar",
    "Question", "Colon", "At", "QuestionQuestion", "Backtick", "Hash", "Equals", "PlusEquals",
    "MinusEquals", "AsteriskEquals", "AsteriskAsteriskEquals", "SlashEquals", "PercentEquals",
    "LessThanLessThanEquals", "GreaterThanGreaterThanEquals",
    "GreaterThanGreaterThanGreaterThanEquals", "AmpersandEquals", "BarEquals", "BarBarEquals",
    "AmpersandAmpersandEquals", "QuestionQuestionEquals", "CaretEquals"]

/-- The names of the keywords, without their common ending. -/
def keywordNames : List String :=
  ["Break", "Case", "Catch", "Class", "Const", "Continue", "Debugger", "Default", "Delete", "Do",
    "Else", "Enum", "Export", "Extends", "False", "Finally", "For", "Function", "If", "Import",
    "In", "InstanceOf", "New", "Null", "Return", "Super", "Switch", "This", "Throw", "True", "Try",
    "TypeOf", "Var", "Void", "While", "With", "Implements", "Interface", "Let", "Package",
    "Private", "Protected", "Public", "Static", "Yield", "Abstract", "Accessor", "As", "Asserts",
    "Assert", "Any", "Async", "Await", "Boolean", "Constructor", "Declare", "Get", "Infer",
    "Intrinsic", "Is", "KeyOf", "Module", "Namespace", "Never", "Out", "Readonly", "Require",
    "Number", "Object", "Satisfies", "Set", "String", "Symbol", "Type", "Undefined", "Unique",
    "Unknown", "Using", "From", "Global", "BigInt", "Override", "Of"]

/-- The names of the token kinds in the order of their numbers. -/
def tokenNames : List String :=
  leadingNames ++ punctuationNames.map (· ++ "Token") ++
    ["Identifier", "PrivateIdentifier", "JSDocCommentTextToken"] ++
    keywordNames.map (· ++ "Keyword")

/-- The second names of numbers.  Where a number has several, the first of them here is shown. -/
def secondNames : List (String × Nat) :=
  [("FirstToken", 0), ("FirstTriviaToken", 2), ("LastTriviaToken", 7), ("FirstLiteralToken", 9),
    ("FirstTemplateToken", 15), ("LastLiteralToken", 15), ("LastTemplateToken", 18),
    ("FirstPunctuation", 19), ("FirstBinaryOperator", 30), ("FirstAssignment", 64),
    ("FirstCompoundAssignment", 65), ("LastBinaryOperator", 79), ("LastAssignment", 79),
    ("LastCompoundAssignment", 79), ("LastPunctuation", 79), ("FirstKeyword", 83),
    ("FirstReservedWord", 83), ("LastReservedWord", 118), ("FirstFutureReservedWord", 119),
    ("LastFutureReservedWord", 127), ("FirstContextualKeyword", 128),
    ("LastContextualKeyword", 165), ("LastKeyword", 165), ("LastToken", 165)]

/-- The names of documentation kinds that do not start with the usual letters. -/
def documentationNames : List String :=
  ["FirstJSDocNode", "LastJSDocNode", "FirstJSDocTagNode", "LastJSDocTagNode"]

/-- The kind of a name. -/
def ofName (name : String) : NodeKind :=
  match tokenNames.idxOf? name with
  | some n => .token n
  | none =>
    match secondNames.find? fun e => e.1 == name with
    | some e => .token e.2
    | none =>
      if name == "SyntaxList" then .list
      else if name.startsWith "JSDoc" || documentationNames.contains name then .documentation
      else .other

/-- The name that messages show for the kind of a number. -/
def shownName (number : Nat) : Text :=
  match secondNames.find? fun e => e.2 == number with
  | some e => Text.ofString e.1
  | none => Text.ofString ((tokenNames[number]?).getD "")

/-- The number of a character that no token starts with. -/
def unknown : Nat := 0

/-- The number of the end of the file. -/
def endOfFile : Nat := 1

/-- The number of the mark of a file that is no text. -/
def nonText : Nat := 8

/-- The number of a numeric literal. -/
def numeric : Nat := 9

/-- The number of a literal for a whole number of any size. -/
def bigNumeric : Nat := 10

/-- The number of a string. -/
def string : Nat := 11

/-- The number of text between markup. -/
def markupText : Nat := 12

/-- The number of blank text between markup that crosses a line end. -/
def markupBlank : Nat := 13

/-- The number of a regular expression. -/
def regex : Nat := 14

/-- The number of a template without substitutions. -/
def template : Nat := 15

/-- The number of the part of a template up to its first substitution. -/
def templateHead : Nat := 16

/-- The number of the part of a template between two substitutions. -/
def templateMiddle : Nat := 17

/-- The number of the part of a template behind its last substitution. -/
def templateTail : Nat := 18

/-- The number of the first punctuation. -/
def firstPunctuation : Nat := 19

/-- The number of an identifier. -/
def identifier : Nat := 80

/-- The number of an identifier behind a hash sign. -/
def privateIdentifier : Nat := 81

/-- The number of the first keyword. -/
def firstKeyword : Nat := 83

/-- The number of the last keyword that is never an identifier. -/
def lastReserved : Nat := 118

/-- The class of the tokens of a kind. -/
def tokenClass (kind : NodeKind) : TokenClass :=
  match kind with
  | .token n =>
    if n == identifier || n == privateIdentifier then .identifier
    else if n == numeric || n == bigNumeric then .number
    else if n == string || n == markupText || (regex ≤ n && n ≤ templateTail) then .string
    else if firstKeyword ≤ n then .keyword
    else .symbol
  | _ => .symbol

end NodeKind

end CloneScan
