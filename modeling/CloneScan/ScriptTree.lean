import CloneScan.Error
import CloneScan.ScriptTree.NodeKind
import CloneScan.Text.LineTable

/-!
# Script trees

The tree of a script and the tokens of its leaves.  Documentation comments are left out.  A leaf
without width, of a token kind, stands where the parser missed something, and makes the text one
without tokens.
-/

namespace CloneScan

/-- A script tree; ranges are offsets in the text. -/
inductive ScriptTree where
  | node (kind : NodeKind) (start stop : Nat) (children : List ScriptTree)

namespace ScriptTree

instance : Inhabited ScriptTree := ⟨.node .other 0 0 []⟩

/-- The tokens of a leaf. -/
def leafTokens (content : Array UInt16) (table : LineTable) (kind : NodeKind) (start stop : Nat) :
    Except Failure (List Token) :=
  if kind == .list || kind == .token NodeKind.endOfFile then .ok []
  else if stop ≤ start then
    match kind with
    | .token n =>
      .error (.tokenize (.missingPiece (NodeKind.shownName n))
        (some ((table.position start).line + 1)))
    | _ => .ok []
  else
    let text : Text := (content.extract start stop).toList
    if text.allBlank then .ok []
    else .ok [Token.make text kind.tokenClass (table.position start) (table.position stop)]

mutual

/-- The tokens of a tree in the order of the text. -/
def collect (content : Array UInt16) (table : LineTable) :
    ScriptTree → Except Failure (List Token)
  | .node kind start stop children =>
    if kind == .documentation then .ok []
    else if children.isEmpty then leafTokens content table kind start stop
    else collectAll content table children

/-- The tokens of trees that follow each other. -/
def collectAll (content : Array UInt16) (table : LineTable) :
    List ScriptTree → Except Failure (List Token)
  | [] => .ok []
  | t :: rest =>
    match collect content table t with
    | .error f => .error f
    | .ok tokens =>
      match collectAll content table rest with
      | .error f => .error f
      | .ok more => .ok (tokens ++ more)

end

/-- The tokens of the trees of a text. -/
def tokens (trees : List ScriptTree) (content : Text) : Except Failure (List Token) :=
  collectAll content.toArray (LineTable.ofText content) trees

end ScriptTree

end CloneScan
