import CloneScan.Text

/-!
# Tokens

A token is a significant piece of source text: comments and blanks have none.  It keeps its text
and a normalized form in which every identifier, string and number looks alike, so that copies with
other names can be matched.
-/

namespace CloneScan

/-- The four kinds of tokens. -/
inductive TokenKind where
  | identifier
  | literal
  | keyword
  | symbol
  deriving DecidableEq, Repr

namespace TokenKind

/-- Every kind. -/
def all : List TokenKind :=
  [.identifier, .literal, .keyword, .symbol]

/-- The name of a kind. -/
def name : TokenKind → Text
  | .identifier => Text.ofString "identifier"
  | .literal => Text.ofString "literal"
  | .keyword => Text.ofString "keyword"
  | .symbol => Text.ofString "symbol"

/-- The kind of a name. -/
def ofName? (t : Text) : Option TokenKind :=
  all.find? (fun k => k.name == t)

end TokenKind

/-- The class that decides how a token is normalized. -/
inductive TokenClass where
  | identifier
  | string
  | number
  | keyword
  | symbol
  deriving DecidableEq, Repr

namespace TokenClass

/-- The kind of the tokens of a class. -/
def kind : TokenClass → TokenKind
  | .identifier => .identifier
  | .string => .literal
  | .number => .literal
  | .keyword => .keyword
  | .symbol => .symbol

/-- The normalized form of a token of a class. -/
def normalize (c : TokenClass) (text : Text) : Text :=
  match c with
  | .identifier => Text.ofString "$id"
  | .string => Text.ofString "$str"
  | .number => Text.ofString "$num"
  | .keyword => text
  | .symbol => text

end TokenClass

/-- A place in a source text, both numbers counted from zero. -/
structure Position where
  line : Nat
  column : Nat
  deriving DecidableEq, Repr

/-- A token with its place; lines and columns count from one and the end column is exclusive. -/
structure Token where
  text : Text
  normalized : Text
  kind : TokenKind
  startLine : Nat
  startColumn : Nat
  endLine : Nat
  endColumn : Nat
  deriving DecidableEq, Repr

namespace Token

/-- The token of a class between two places. -/
def make (text : Text) (c : TokenClass) (start stop : Position) : Token where
  text := text
  normalized := c.normalize text
  kind := c.kind
  startLine := start.line + 1
  startColumn := start.column + 1
  endLine := stop.line + 1
  endColumn := stop.column + 1

/-- The text under which a token is compared: its own or its normalized one. -/
def key (normalize : Bool) (t : Token) : Text :=
  if normalize then t.normalized else t.text

end Token

/-- The compare keys of a token stream. -/
def tokenKeys (tokens : List Token) (normalize : Bool) : List Text :=
  tokens.map (Token.key normalize)

end CloneScan
