import CloneScan.Tokenize
import Mathlib.Control.Monad.Basic
import Mathlib.Data.List.Basic

/-!
# Blank text between markup

The leaf of a blank text between markup starts behind its blanks, so it has no width, and the walk
over a script tree takes it for a place where the parser missed something.  The walk over a tree is
the walk over the leaves that it reaches; inserting blank leaves anywhere in a tree changes nothing
when none of them is reached, and otherwise the walk ends at the first blank leaf at the latest.
-/

theorem CloneScan.Text.toList_extract (content : Text) (start stop : Nat) :
    (content.toArray.extract start stop).toList = content.slice start stop := by
  simp [Text.slice, List.extract_eq_take_drop]

namespace CloneScan.ScriptTree

/-- A leaf of a script tree. -/
structure Leaf where
  kind : NodeKind
  start : Nat
  stop : Nat
  deriving DecidableEq, Repr

/-- The leaves that the walk over trees reaches: those that are in no documentation comment. -/
def reached : List ScriptTree → List Leaf
  | [] => []
  | .node kind start stop children :: rest =>
    (if kind == .documentation then []
      else if children.isEmpty then [⟨kind, start, stop⟩]
      else reached children) ++ reached rest

namespace Leaf

/-- The leaf of a blank text between markup. -/
def IsBlankMarkup (leaf : Leaf) : Prop :=
  (leaf.kind = .token NodeKind.markupText ∨ leaf.kind = .token NodeKind.markupBlank) ∧
    leaf.start = leaf.stop

instance : DecidablePred IsBlankMarkup := fun leaf =>
  inferInstanceAs (Decidable ((_ ∨ _) ∧ leaf.start = leaf.stop))

def toTree (leaf : Leaf) : ScriptTree :=
  .node leaf.kind leaf.start leaf.stop []

def tokens (content : Array UInt16) (table : LineTable) (leaf : Leaf) :
    Except Failure (List Token) :=
  leafTokens content table leaf.kind leaf.start leaf.stop

/-- The failure that reports a leaf as missing. -/
def missing (table : LineTable) (leaf : Leaf) : Failure :=
  let name :=
    match leaf.kind with
    | .token n => NodeKind.shownName n
    | _ => []
  .tokenize (.missingPiece name) (some ((table.position leaf.start).line + 1))

end Leaf

/-- The second trees are the first with leaves of blank markup text inserted, in the list itself and
in the lists of children at any depth. -/
inductive Inserted : List ScriptTree → List ScriptTree → Prop
  | nil : Inserted [] []
  | keep {kind : NodeKind} {start stop : Nat} {children children' rest rest' : List ScriptTree} :
      Inserted children children' → Inserted rest rest' →
      Inserted (.node kind start stop children :: rest) (.node kind start stop children' :: rest')
  | insert {leaf : Leaf} {trees trees' : List ScriptTree} :
      leaf.IsBlankMarkup → Inserted trees trees' → Inserted trees (leaf.toTree :: trees')

/-- The tokens of leaves that follow each other, up to the first failure. -/
def walk (content : Array UInt16) (table : LineTable) (leaves : List Leaf) :
    Except Failure (List Token) := do
  return (← leaves.mapM (Leaf.tokens content table)).flatten

section Walk

variable {content : Array UInt16} {table : LineTable}

theorem walk_append (xs ys : List Leaf) :
    walk content table (xs ++ ys) = do
      return (← walk content table xs) ++ (← walk content table ys) := by
  simp [walk, List.mapM_append]

theorem collectAll_cons (t : ScriptTree) (rest : List ScriptTree) :
    collectAll content table (t :: rest) = do
      return (← collect content table t) ++ (← collectAll content table rest) := by
  rw [collectAll]
  cases collect content table t with
  | error f => rfl
  | ok tokens => cases collectAll content table rest <;> rfl

/-- The walk over trees is the walk over the leaves that it reaches. -/
theorem collectAll_eq_walk (trees : List ScriptTree) :
    collectAll content table trees = walk content table (reached trees) := by
  induction trees using reached.induct with
  | case1 =>
    rw [collectAll, reached]
    rfl
  | case2 kind start stop children rest ihchildren ihrest =>
    rw [collectAll_cons, reached, walk_append, ihrest, collect]
    congr 1
    split
    · rfl
    · split
      · simp [walk, Leaf.tokens]
      · exact ihchildren

theorem tokens_of_isBlankMarkup {leaf : Leaf} (hleaf : leaf.IsBlankMarkup) :
    leaf.tokens content table = .error (leaf.missing table) := by
  obtain ⟨kind, start, stop⟩ := leaf
  obtain ⟨hkind, hwidth⟩ := hleaf
  dsimp only at hkind hwidth
  rcases hkind with rfl | rfl <;>
    simp [Leaf.tokens, leafTokens, Leaf.missing, hwidth, NodeKind.markupText, NodeKind.markupBlank,
      NodeKind.endOfFile]

/-- The walk never passes the leaf of a blank text. -/
theorem walk_of_isBlankMarkup (before after : List Leaf) {leaf : Leaf}
    (hleaf : leaf.IsBlankMarkup) :
    walk content table (before ++ leaf :: after) = (do
      let _ ← walk content table before
      throw (leaf.missing table)) := by
  have hrest : walk content table (leaf :: after) = .error (leaf.missing table) := by
    rw [walk, List.mapM_cons, tokens_of_isBlankMarkup hleaf]
    rfl
  rw [walk_append, hrest]
  rfl

theorem walk_eq_error_of_isPrefix {before leaves : List Leaf} {f : Failure}
    (hbefore : before <+: leaves) (hwalk : walk content table before = .error f) :
    walk content table leaves = .error f := by
  obtain ⟨after, rfl⟩ := hbefore
  rw [walk_append, hwalk]
  rfl

theorem not_isBlankMarkup_of_walk {leaves : List Leaf} {ts : List Token}
    (hwalk : walk content table leaves = .ok ts) {leaf : Leaf} (hmem : leaf ∈ leaves) :
    ¬ leaf.IsBlankMarkup := by
  intro hleaf
  obtain ⟨before, after, rfl⟩ := List.append_of_mem hmem
  rw [walk_of_isBlankMarkup before after hleaf] at hwalk
  cases hbefore : walk content table before <;> simp [hbefore, bind, Except.bind] at hwalk

end Walk

/-! ## The leaves after an insertion -/

/-- The second leaves are the first, or they agree with them up to the leaf of a blank text. -/
def AgreeUpToBlank (leaves leaves' : List Leaf) : Prop :=
  leaves' = leaves ∨
    ∃ before leaf after, leaves' = before ++ leaf :: after ∧ leaf.IsBlankMarkup ∧
      before <+: leaves

theorem AgreeUpToBlank.append {xs xs' ys ys' : List Leaf} (hxs : AgreeUpToBlank xs xs')
    (hys : AgreeUpToBlank ys ys') : AgreeUpToBlank (xs ++ ys) (xs' ++ ys') := by
  rcases hxs with rfl | ⟨before, leaf, after, rfl, hleaf, hbefore⟩
  · rcases hys with rfl | ⟨before, leaf, after, rfl, hleaf, hbefore⟩
    · exact .inl rfl
    · exact .inr ⟨xs' ++ before, leaf, after, by simp, hleaf,
        (List.prefix_append_right_inj xs').mpr hbefore⟩
  · exact .inr ⟨before, leaf, after ++ ys', by simp, hleaf, hbefore.trans (List.prefix_append _ _)⟩

theorem reached_toTree {leaf : Leaf} (hleaf : leaf.IsBlankMarkup) (trees : List ScriptTree) :
    reached (leaf.toTree :: trees) = leaf :: reached trees := by
  have hkind : leaf.kind ≠ .documentation := by
    rcases hleaf.1 with h | h <;> simp [h]
  simp [Leaf.toTree, reached, hkind]

theorem agreeUpToBlank_toTree {leaf : Leaf} (hleaf : leaf.IsBlankMarkup) (leaves : List Leaf)
    (trees : List ScriptTree) : AgreeUpToBlank leaves (reached (leaf.toTree :: trees)) :=
  .inr ⟨[], leaf, reached trees, reached_toTree hleaf trees, hleaf, List.nil_prefix⟩

theorem Inserted.eq_nil {trees : List ScriptTree} (h : Inserted trees []) : trees = [] := by
  cases h
  rfl

/-- Leaves that are inserted into a node without children take its place. -/
theorem Inserted.eq_nil_or_toTree {trees : List ScriptTree} (h : Inserted [] trees) :
    trees = [] ∨ ∃ leaf rest, trees = Leaf.toTree leaf :: rest ∧ leaf.IsBlankMarkup := by
  cases h with
  | nil => exact .inl rfl
  | insert hleaf _ => exact .inr ⟨_, _, rfl, hleaf⟩

theorem Inserted.agreeUpToBlank {trees trees' : List ScriptTree} (h : Inserted trees trees') :
    AgreeUpToBlank (reached trees) (reached trees') := by
  induction h with
  | nil => exact .inl rfl
  | @keep kind start stop children children' rest rest' hchildren _ ihchildren ihrest =>
    rw [reached, reached]
    refine AgreeUpToBlank.append ?_ ihrest
    split
    · exact .inl rfl
    · -- a node without children is a leaf, which the first insertion makes an inner node
      rcases children with - | ⟨child, children⟩
      · rcases hchildren.eq_nil_or_toTree with rfl | ⟨leaf, more, rfl, hleaf⟩
        · exact .inl rfl
        · exact agreeUpToBlank_toTree hleaf _ _
      · have hchildren' : children' ≠ [] := by
          rintro rfl
          exact absurd hchildren.eq_nil (by simp)
        simpa [hchildren'] using ihchildren
  | insert hleaf _ _ => exact agreeUpToBlank_toTree hleaf _ _

/-! ## The outcome after an insertion -/

/-- Inserted leaves of blank text keep the tokens of the trees exactly when none of them is reached.
Otherwise the walk fails: as before the insertion, or at the first inserted leaf that it reaches,
which it reports as missing. -/
theorem tokens_of_inserted {trees trees' : List ScriptTree} (h : Inserted trees trees')
    (content : Text) :
    (∀ ts, tokens trees' content = .ok ts ↔
      tokens trees content = .ok ts ∧ ∀ leaf ∈ reached trees', ¬ leaf.IsBlankMarkup) ∧
    (tokens trees' content = tokens trees content ∨
      ∃ before leaf after, reached trees' = before ++ leaf :: after ∧ leaf.IsBlankMarkup ∧
        before <+: reached trees ∧
        (∃ ts, walk content.toArray (LineTable.ofText content) before = .ok ts) ∧
        tokens trees' content = .error (leaf.missing (LineTable.ofText content))) := by
  unfold tokens
  rw [collectAll_eq_walk, collectAll_eq_walk]
  have hagree := h.agreeUpToBlank
  constructor
  · intro ts
    constructor
    · intro hwalk
      have hnone : ∀ leaf ∈ reached trees', ¬ leaf.IsBlankMarkup :=
        fun leaf hmem => not_isBlankMarkup_of_walk hwalk hmem
      rcases hagree with hsame | ⟨before, leaf, after, hsplit, hleaf, -⟩
      · exact ⟨hsame ▸ hwalk, hnone⟩
      · exact absurd hleaf (hnone leaf (by simp [hsplit]))
    · rintro ⟨hwalk, hnone⟩
      rcases hagree with hsame | ⟨before, leaf, after, hsplit, hleaf, -⟩
      · rw [hsame, hwalk]
      · exact absurd hleaf (hnone leaf (by simp [hsplit]))
  · rcases hagree with hsame | ⟨before, leaf, after, hsplit, hleaf, hbefore⟩
    · exact .inl (by rw [hsame])
    · have hwalk : walk content.toArray (LineTable.ofText content) (reached trees') = (do
          let _ ← walk content.toArray (LineTable.ofText content) before
          throw (leaf.missing (LineTable.ofText content))) := by
        rw [hsplit]
        exact walk_of_isBlankMarkup before after hleaf
      cases hfirst : walk content.toArray (LineTable.ofText content) before with
      | error f =>
        rw [hwalk, hfirst, walk_eq_error_of_isPrefix hbefore hfirst]
        exact .inl rfl
      | ok ts =>
        rw [hfirst] at hwalk
        exact .inr ⟨before, leaf, after, hsplit, hleaf, hbefore, ⟨ts, hfirst⟩, hwalk⟩

/-- The text `<a> {b} </a>`. -/
def spacedMarkup : Text :=
  Text.ofString "<a> \x7bb\x7d </a>"

/-- The trees of the text `<a> {b} </a>`, with given trees around the part in braces. -/
def spacedMarkupTrees (left right : List ScriptTree) : List ScriptTree :=
  let leaf (name : String) (start stop : Nat) : ScriptTree :=
    .node (.ofName name) start stop []
  [.node .other 0 12
    [.node .other 0 3 [leaf "LessThanToken" 0 1, leaf "Identifier" 1 2, leaf "GreaterThanToken" 2 3],
      .node .list 4 8 (left ++
        .node .other 4 7
          [leaf "OpenBraceToken" 4 5, leaf "Identifier" 5 6, leaf "CloseBraceToken" 6 7] :: right),
      .node .other 8 12
        [leaf "LessThanToken" 8 9, leaf "SlashToken" 9 10, leaf "Identifier" 10 11,
          leaf "GreaterThanToken" 11 12]]]

/-- The leaf of a blank text that ends at an offset. -/
def blankBefore (offset : Nat) : Leaf :=
  ⟨.token NodeKind.markupText, offset, offset⟩

theorem inserted_refl : ∀ trees : List ScriptTree, Inserted trees trees
  | [] => .nil
  | .node _ _ _ children :: rest => .keep (inserted_refl children) (inserted_refl rest)

theorem inserted_spacedMarkupTrees :
    Inserted (spacedMarkupTrees [] [])
      (spacedMarkupTrees [(blankBefore 4).toTree] [(blankBefore 8).toTree]) := by
  have hblank (offset : Nat) : (blankBefore offset).IsBlankMarkup := ⟨.inl rfl, rfl⟩
  refine .keep (.keep (inserted_refl _) (.keep ?_ (inserted_refl _))) .nil
  exact .insert (hblank 4) (.keep (inserted_refl _) (.insert (hblank 8) .nil))

theorem tokens_of_inserted_spacedMarkup :
    Inserted (spacedMarkupTrees [] [])
        (spacedMarkupTrees [(blankBefore 4).toTree] [(blankBefore 8).toTree]) ∧
      blankBefore 4 ∈
        reached (spacedMarkupTrees [(blankBefore 4).toTree] [(blankBefore 8).toTree]) ∧
      ∀ ts, tokens (spacedMarkupTrees [(blankBefore 4).toTree] [(blankBefore 8).toTree])
        spacedMarkup ≠ .ok ts := by
  have hmem : blankBefore 4 ∈
      reached (spacedMarkupTrees [(blankBefore 4).toTree] [(blankBefore 8).toTree]) := by
    simp [spacedMarkupTrees, reached, blankBefore, Leaf.toTree, NodeKind.markupText]
  refine ⟨inserted_spacedMarkupTrees, hmem, fun ts hts => ?_⟩
  have hnone := (((tokens_of_inserted inserted_spacedMarkupTrees spacedMarkup).1 ts).mp hts).2
  exact hnone _ hmem ⟨.inl rfl, rfl⟩

/-- Blank text around a part in braces makes a text fail that has tokens without it. -/
theorem tokens_ne_of_inserted_spacedMarkup :
    Inserted (spacedMarkupTrees [] [])
        (spacedMarkupTrees [(blankBefore 4).toTree] [(blankBefore 8).toTree]) ∧
      (tokens (spacedMarkupTrees [] []) spacedMarkup).toOption.map (·.map Token.text) =
        some (["<", "a", ">", "\x7b", "b", "\x7d", "<", "/", "a", ">"].map Text.ofString) ∧
      (tokens (spacedMarkupTrees [(blankBefore 4).toTree] [(blankBefore 8).toTree])
          spacedMarkup).mapError Failure.message =
        .error (Text.ofString "Syntax error: missing JsxText (line 1)") ∧
      (tokenizeAs (Text.ofString "<a>\x7bb\x7d</a>") .typescript
        (Text.ofString "v.tsx")).toOption.isSome ∧
      (tokenizeAs spacedMarkup .typescript (Text.ofString "v.tsx")).mapError Failure.message =
        .error (Text.ofString "Syntax error: missing JsxText (line 1)") := by
  refine ⟨inserted_spacedMarkupTrees, ?_, ?_, ?_, ?_⟩
  all_goals decide +kernel

end CloneScan.ScriptTree
