import CloneScan.Error
import CloneScan.Text.LineTable

/-!
# Parse trees

A parse tree whose nodes have a type and a range, and the tokens of its leaves.  Comments and
documentation strings carry no code and are left out; some types of nodes are taken whole.  A node
of the error type makes the text one without tokens.
-/

namespace CloneScan

/-- A place in a source text: the index of its unit, its row and its column. -/
structure TreePoint where
  index : Nat
  row : Nat
  column : Nat
  deriving DecidableEq, Repr, Inhabited

/-- The place as a position. -/
def TreePoint.position (p : TreePoint) : Position :=
  ⟨p.row, p.column⟩

/-- A parse tree. -/
inductive ParseTree where
  | node (type : String) (start stop : TreePoint) (children : List ParseTree)

namespace ParseTree

instance : Inhabited ParseTree := ⟨.node "" default default []⟩

/-- The type of a node. -/
def type : ParseTree → String
  | .node type .. => type

/-- The first place of a node. -/
def start : ParseTree → TreePoint
  | .node _ start .. => start

/-- The place behind a node. -/
def stop : ParseTree → TreePoint
  | .node _ _ stop _ => stop

/-- The children of a node. -/
def children : ParseTree → List ParseTree
  | .node _ _ _ children => children

end ParseTree

/-- How the node types of a grammar are classified. -/
structure GrammarClasses where
  language : Language
  identifiers : List String
  strings : List String
  numbers : List String
  /-- The types that are taken whole. -/
  atoms : List String
  comments : List String
  /-- The types whose body may start with a documentation string. -/
  documented : List String

namespace GrammarClasses

/-- The classes of Python. -/
def python : GrammarClasses where
  language := .python
  identifiers := ["identifier"]
  strings := ["string"]
  numbers := ["integer", "float"]
  atoms := ["string"]
  comments := ["comment"]
  documented := ["function_definition", "class_definition"]

/-- The classes of Go. -/
def go : GrammarClasses where
  language := .go
  identifiers :=
    ["identifier", "field_identifier", "type_identifier", "package_identifier", "label_name"]
  strings := ["interpreted_string_literal", "raw_string_literal", "rune_literal"]
  numbers := ["int_literal", "float_literal", "imaginary_literal"]
  atoms := ["interpreted_string_literal", "raw_string_literal", "rune_literal"]
  comments := ["comment"]
  documented := []

/-- The types of Ruby that are written between delimiters. -/
def rubyStrings : List String :=
  ["string", "subshell", "character", "regex", "simple_symbol", "delimited_symbol",
    "heredoc_body", "string_array", "symbol_array"]

/-- The classes of Ruby. -/
def ruby : GrammarClasses where
  language := .ruby
  identifiers :=
    ["identifier", "constant", "instance_variable", "class_variable", "global_variable"]
  strings := rubyStrings
  numbers := ["integer", "float", "rational", "complex"]
  atoms := rubyStrings
  comments := ["comment"]
  documented := []

/-- The classes of a language that has them. -/
def of? : Language → Option GrammarClasses
  | .python => some python
  | .go => some go
  | .ruby => some ruby
  | .typescript | .javascript => none

/-- Whether a text is a word of letters and underscores. -/
def isWord (t : Text) : Bool :=
  !t.isEmpty && t.all fun u => Text.isUpper u || Text.isLower u || u == 0x5F

/-- The class of a leaf: a leaf whose type is its own text and a word is a keyword. -/
def classOf (g : GrammarClasses) (type : String) (text : Text) : TokenClass :=
  if g.identifiers.contains type then .identifier
  else if g.numbers.contains type then .number
  else if g.strings.contains type then .string
  else if Text.ofString type == text && isWord text then .keyword
  else .symbol

end GrammarClasses

namespace ParseTree

/-- What a node has to know of the nodes above it: the type and children of its parent, and the
type of the parent's parent. -/
structure Above where
  type : String
  children : List ParseTree
  owner : Option String

/-- Whether a statement is the documentation string of the body that it stands in: a single string
that is the first statement of a module, or of the block of a documented definition. -/
def isDocumentation (g : GrammarClasses) (above : Option Above) (type : String) (start : TreePoint)
    (children : List ParseTree) : Bool :=
  type == "expression_statement" && children.length == 1 &&
    children.all (fun c => c.type == "string") && !g.documented.isEmpty &&
    match above with
    | none => false
    | some above =>
      (above.type == "module" ||
        (above.type == "block" &&
          match above.owner with
          | none => false
          | some owner => g.documented.contains owner)) &&
        match above.children.find? fun c => c.type != "comment" with
        | none => false
        | some first => first.start.index == start.index

mutual

/-- The tokens of a tree in the order of the text, before those that are already known. -/
def collect (g : GrammarClasses) (content : Array UInt16) (above : Option Above) :
    ParseTree → Except Failure (List Token)
  | .node type start stop children =>
    if type == "ERROR" then .error (.tokenize (.syntaxError g.language) (some (start.row + 1)))
    else if g.comments.contains type || isDocumentation g above type start children then .ok []
    else if !children.isEmpty && !g.atoms.contains type then
      collectAll g content (some ⟨type, children, above.map (·.type)⟩) children
    else if stop.index ≤ start.index then .ok []
    else
      let text : Text := (content.extract start.index stop.index).toList
      if text.allBlank then .ok []
      else .ok [Token.make text (g.classOf type text) start.position stop.position]

/-- The tokens of trees that follow each other. -/
def collectAll (g : GrammarClasses) (content : Array UInt16) (above : Option Above) :
    List ParseTree → Except Failure (List Token)
  | [] => .ok []
  | t :: rest =>
    match collect g content above t with
    | .error f => .error f
    | .ok tokens =>
      match collectAll g content above rest with
      | .error f => .error f
      | .ok more => .ok (tokens ++ more)

end

/-- The tokens of the tree of a text. -/
def tokens (t : ParseTree) (g : GrammarClasses) (content : Text) : Except Failure (List Token) :=
  collect g content.toArray none t

/-- The places of a tree are those that a line table has for their indices. -/
inductive Follows (table : LineTable) : ParseTree → Prop
  | node {type : String} {start stop : TreePoint} {children : List ParseTree}
      (hstart : start.position = table.position start.index)
      (hstop : stop.position = table.position stop.index)
      (hchildren : ∀ c ∈ children, Follows table c) : Follows table (.node type start stop children)

end ParseTree

/-- A parser of a language, which may fail with a message.  Its trees follow the rows of their
text. -/
structure TreeParser where
  parse : Text → Except Text ParseTree
  follows : ∀ {source : Text} {tree : ParseTree}, parse source = .ok tree →
    tree.Follows (LineTable.ofRows source)

/-- The tokens of a text that is parsed. -/
def TreeParser.tokens (p : TreeParser) (g : GrammarClasses) (content : Text) :
    Except Failure (List Token) :=
  match p.parse content with
  | .error message => .error (.tokenize (.parserFailed g.language message) none)
  | .ok tree => tree.tokens g content

end CloneScan
