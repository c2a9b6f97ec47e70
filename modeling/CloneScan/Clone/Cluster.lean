import CloneScan.Clone.Block
import CloneScan.Fingerprint
import CloneScan.Token
import CloneScan.Violation

/-!
# Clusters of duplicated code

A cluster is a duplicated block in terms of files, lines and tokens: the tokens of its first
occurrence and the place of each occurrence.
-/

namespace CloneScan

/-- A file whose tokens take part in matching. -/
structure IndexedFile where
  path : Text
  tokens : Array Token
  keys : Array Text
  hashes : List Nat

/-- One place of a duplicated block; token indices are inclusive. -/
structure Occurrence where
  location : Location
  startToken : Nat
  endToken : Nat
  deriving DecidableEq, Repr

/-- A duplicated block with the tokens of its first occurrence. -/
structure Cluster where
  tokens : List Token
  tokenCount : Nat
  occurrences : List Occurrence
  deriving DecidableEq, Repr

namespace Cluster

/-- The first line of a token, and zero where there is none. -/
def firstLine (f : IndexedFile) (index : Nat) : Int :=
  match f.tokens[index]? with
  | some t => (t.startLine : Int)
  | none => 0

/-- The last line of a token, and zero where there is none. -/
def lastLine (f : IndexedFile) (index : Nat) : Int :=
  match f.tokens[index]? with
  | some t => (t.endLine : Int)
  | none => 0

/-- The lines of a member of a block. -/
def locate (files : Array IndexedFile) (m : Member) : Location :=
  match files[m.file]? with
  | some f => ⟨f.path, firstLine f m.start, lastLine f m.stop⟩
  | none => ⟨[], 0, 0⟩

/-- The tokens of a member of a block. -/
def tokensOf (files : Array IndexedFile) (m : Member) : List Token :=
  match files[m.file]? with
  | some f => (f.tokens.toList.drop m.start).take (m.stop + 1 - m.start)
  | none => []

/-- The cluster of a block. -/
def ofBlock (files : Array IndexedFile) (b : Block) : Cluster where
  tokens :=
    match b.members with
    | [] => []
    | first :: _ => tokensOf files first
  tokenCount := b.length
  occurrences := b.members.map fun m => ⟨locate files m, m.start, m.stop⟩

end Cluster

/-- Every maximal duplicated block across the files, without the occurrences that `keep` rejects. -/
def findClusters (files : List IndexedFile) (window : Nat) (keep : Location → Bool) :
    List Cluster :=
  let indexed := files.toArray
  let keyed := indexed.map fun f => (⟨f.keys, f.hashes⟩ : KeyedFile)
  (Clone.findBlocks keyed window fun m => keep (Cluster.locate indexed m)).map
    (Cluster.ofBlock indexed)

end CloneScan
