import CloneScan.Proofs.BlankMarkup
import CloneScan.Proofs.TreeWalk

/-!
# The leaves of a tree and its tokens

The walks over parse trees and over script trees keep the text of their trees.  A parse tree fails
at its first error node; its comments, its documentation strings and, of its atomic nodes, the inner
pieces are passed over.  A script tree fails at its first leaf without width of a token kind other
than the end of the file, and its documentation comments are passed over.
-/

namespace CloneScan

open SyntaxTree

/-! ## Parse trees -/

namespace ParseTree

instance : SyntaxTree ParseTree where
  children := children
  start t := t.start.index
  stop t := t.stop.index
  sizeOf_children t := by
    cases t
    simp only [children, node.sizeOf_spec]
    omega

/-- The statement is a documentation string: a single string that stands where the body of a module
or of a documented definition starts, comments aside. -/
structure IsDocstring (g : GrammarClasses) (s : Site ParseTree) : Prop where
  documented : g.documented ≠ []
  statement : s.node.type = "expression_statement"
  string : ∃ c, s.node.children = [c] ∧ c.type = "string"
  body : ∃ p above, s.above = p :: above ∧
    (p.type = "module" ∨ p.type = "block" ∧ ∃ owner ∈ above.head?, owner.type ∈ g.documented) ∧
    ∃ first ∈ p.children.find? (fun c => c.type != "comment"),
      first.start.index = s.node.start.index

/-- The walk over parse trees. -/
def walker (g : GrammarClasses) (content : Text) : Walker ParseTree where
  content := content
  fails s := s.node.type = "ERROR"
  failure s := .tokenize (.syntaxError g.language) (some (s.node.start.row + 1))
  skips s := s.node.type ∈ g.comments ∨ IsDocstring g s
  atomic t := t.type ∈ g.atoms
  silent _ := False
  token t :=
    let text := content.slice t.start.index t.stop.index
    Token.make text (g.classOf t.type text) t.start.position t.stop.position
  text_token _ := rfl
  not_silent _ _ := id

/-- What the walk passes on to the children of a node. -/
def aboveOf : List ParseTree → Option Above
  | [] => none
  | p :: above => some ⟨p.type, p.children, (aboveOf above).map (·.type)⟩

theorem map_type_aboveOf (above : List ParseTree) :
    (aboveOf above).map (·.type) = above.head?.map type := by
  cases above <;> rfl

theorem isString_iff {children : List ParseTree} :
    children.length = 1 ∧ (children.all fun c => c.type == "string") = true ↔
      ∃ c, children = [c] ∧ c.type = "string" := by
  rcases children with - | ⟨c, - | ⟨c', children⟩⟩ <;> simp

theorem isDocumentation_some (g : GrammarClasses) (a : Above) (t : ParseTree) :
    isDocumentation g (some a) t.type t.start t.children =
      (t.type == "expression_statement" &&
        (t.children.length == 1 && t.children.all fun c => c.type == "string") &&
        !g.documented.isEmpty &&
        ((a.type == "module" || a.type == "block" && a.owner.any g.documented.contains) &&
          (a.children.find? fun c => c.type != "comment").any fun first =>
            first.start.index == t.start.index)) := by
  rw [isDocumentation, ← Bool.and_assoc (t.type == _)]
  cases a.owner <;> cases a.children.find? fun c => c.type != "comment" <;> rfl

theorem isDocumentation_iff {g : GrammarClasses} {above : List ParseTree} {t : ParseTree} :
    isDocumentation g (aboveOf above) t.type t.start t.children = true ↔
      IsDocstring g ⟨t, above⟩ := by
  cases above with
  | nil =>
      refine iff_of_false (by simp [isDocumentation, aboveOf]) ?_
      rintro ⟨-, -, -, _, _, habove, -⟩
      cases habove
  | cons p nodes =>
      have howner : (nodes.head?.map type).any g.documented.contains = true ↔
          ∃ owner ∈ nodes.head?, owner.type ∈ g.documented := by
        cases nodes <;> simp
      rw [aboveOf, isDocumentation_some]
      simp only [Bool.and_eq_true, Bool.or_eq_true, beq_iff_eq, Bool.not_eq_true',
        List.isEmpty_eq_false_iff, map_type_aboveOf, howner, Option.any_eq_true]
      constructor
      · rintro ⟨⟨⟨hstatement, hstring⟩, hdocumented⟩, hbody⟩
        exact ⟨hdocumented, hstatement, isString_iff.mp hstring, p, nodes, rfl, hbody⟩
      · rintro ⟨hdocumented, hstatement, hstring, q, above, habove, hbody⟩
        obtain ⟨rfl, rfl⟩ := List.cons.inj habove
        exact ⟨⟨⟨hstatement, isString_iff.mpr hstring⟩, hdocumented⟩, hbody⟩

/-! ### The walk -/

theorem collectAll_cons {g : GrammarClasses} {content : Array UInt16} {above : Option Above}
    (t : ParseTree) (rest : List ParseTree) :
    collectAll g content above (t :: rest) = do
      return (← collect g content above t) ++ (← collectAll g content above rest) := by
  rw [collectAll]
  cases collect g content above t with
  | error f => rfl
  | ok tokens => cases collectAll g content above rest <;> rfl

section Walk

variable {g : GrammarClasses} {content : Text} {above : List ParseTree}

theorem skips_iff {t : ParseTree} :
    (g.comments.contains t.type ||
      isDocumentation g (aboveOf above) t.type t.start t.children) = true ↔
      (walker g content).skips ⟨t, above⟩ := by
  rw [Bool.or_eq_true, isDocumentation_iff, List.contains_iff_mem]
  rfl

theorem collect_eq_outcome {t : ParseTree} (hopen : ¬ (walker g content).Hidden ⟨t, above⟩)
    (hbelow : ¬ (walker g content).skips ⟨t, above⟩ → ¬ (walker g content).atomic t →
      collectAll g content.toArray (aboveOf (t :: above)) t.children =
        (walker g content).outcome (preorder (t :: above) (SyntaxTree.children t))) :
    collect g content.toArray (aboveOf above) t =
      (walker g content).outcome (⟨t, above⟩ :: preorder (t :: above) (SyntaxTree.children t)) := by
  have hskips_iff := @skips_iff g content above t
  obtain ⟨type, first, last, inner⟩ := t
  simp only [ParseTree.type, ParseTree.start, ParseTree.children] at hskips_iff hbelow
  rw [collect]
  by_cases hfails : type = "ERROR"
  · rw [if_pos (beq_iff_eq.mpr hfails), Walker.outcome_cons_of_fails ⟨hfails, hopen⟩]
    rfl
  have hpasses : ¬ (walker g content).Fails ⟨.node type first last inner, above⟩ :=
    fun h => hfails h.1
  rw [if_neg (mt beq_iff_eq.mp hfails)]
  by_cases hskips : (walker g content).skips ⟨.node type first last inner, above⟩
  · rw [if_pos (hskips_iff.mpr hskips),
      Walker.outcome_cons_of_passes hpasses fun h => h.1.kept (.inl hskips),
      Walker.outcome_of_hidden fun _ => Walker.hidden_of_mem_below (.inl hskips)]
  rw [if_neg (mt hskips_iff.mp hskips)]
  by_cases hwhole : inner = [] ∨ type ∈ g.atoms
  · -- the walk does not go below the node, so it is the text of the node that decides
    have hhidden : ∀ b ∈ preorder (.node type first last inner :: above)
        (SyntaxTree.children (.node type first last inner)), (walker g content).Hidden b :=
      fun _ => Walker.hidden_of_mem_below (.inr hwhole)
    have hdescends : ¬ (!inner.isEmpty && !g.atoms.contains type) = true := by
      simpa [or_iff_not_imp_left] using hwhole
    rw [if_neg hdescends]
    by_cases htext : (walker g content).HasText (.node type first last inner)
    · have htaken : (walker g content).IsTaken ⟨.node type first last inner, above⟩ :=
        ⟨⟨hwhole, id, htext, Walker.not_inSkipped hopen hskips⟩, hopen⟩
      have hwidth : ¬ last.index ≤ first.index := Nat.not_le.mpr htext.1
      rw [Walker.outcome_cons_of_isTaken hpasses htaken hhidden, if_neg hwidth,
        Text.toList_extract]
      exact if_neg htext.2
    · rw [Walker.outcome_cons_of_passes hpasses fun h => htext h.1.text,
        Walker.outcome_of_hidden hhidden, ite_eq_left_iff, Text.toList_extract]
      exact fun hwidth => if_pos (not_not.mp fun hblank => htext ⟨Nat.not_le.mp hwidth, hblank⟩)
  · have hatomic : ¬ (walker g content).atomic (.node type first last inner) :=
      fun h => hwhole (.inr h)
    have hdescends : (!inner.isEmpty && !g.atoms.contains type) = true := by
      simpa [not_or] using hwhole
    rw [if_pos hdescends, Walker.outcome_cons_of_passes hpasses fun h => hwhole h.1.whole,
      ← hbelow hskips hatomic]
    rfl

theorem collectAll_eq_outcome {trees : List ParseTree}
    (hopen : ∀ t, ¬ (walker g content).Hidden ⟨t, above⟩) :
    collectAll g content.toArray (aboveOf above) trees =
      (walker g content).outcome (preorder above trees) := by
  induction above, trees using preorder.induct with
  | case1 above =>
      rw [preorder, collectAll, Walker.outcome_nil]
  | case2 above t rest ihchildren ihrest =>
      have hbelow (hkept : ¬ (walker g content).skips ⟨t, above⟩)
          (hatomic : ¬ (walker g content).atomic t) :=
        ihchildren (Walker.not_hidden_below (hopen t) hkept hatomic)
      rw [preorder, ← List.cons_append, Walker.outcome_append, collectAll_cons, ihrest hopen,
        collect_eq_outcome (hopen t) hbelow]

end Walk

theorem keeps_tokens (g : GrammarClasses) (t : ParseTree) (content : Text) :
    (walker g content).Keeps [t] (t.tokens g content) := by
  apply Walker.keeps_of_eq_outcome
  have hall : collectAll g content.toArray (aboveOf []) [t] = _ :=
    collectAll_eq_outcome Walker.not_hidden_root
  rw [collectAll_cons, collectAll] at hall
  rw [sites, ← hall, tokens, aboveOf]
  cases collect g content.toArray none t <;> simp [bind, Except.bind, pure, Except.pure]

end ParseTree

/-! ## Script trees -/

namespace ScriptTree

def kind : ScriptTree → NodeKind
  | .node kind .. => kind

def children : ScriptTree → List ScriptTree
  | .node _ _ _ children => children

/-- The node as a leaf. -/
def leaf : ScriptTree → Leaf
  | .node kind start stop _ => ⟨kind, start, stop⟩

instance : SyntaxTree ScriptTree where
  children := children
  start t := t.leaf.start
  stop t := t.leaf.stop
  sizeOf_children t := by
    cases t
    simp only [children, node.sizeOf_spec]
    omega

/-- A leaf without width, of a token kind, that is not the end of the file. -/
structure IsMissing (t : ScriptTree) : Prop where
  leaf : t.children = []
  token : ∃ n, t.kind = .token n ∧ n ≠ NodeKind.endOfFile
  width : t.leaf.stop ≤ t.leaf.start

/-- The walk over script trees. -/
def walker (content : Text) : Walker ScriptTree where
  content := content
  fails s := IsMissing s.node
  failure s := s.node.leaf.missing (LineTable.ofText content)
  skips s := s.node.kind = .documentation
  atomic _ := False
  silent t := t.kind = .list ∨ t.kind = .token NodeKind.endOfFile
  token t :=
    Token.make (content.slice t.leaf.start t.leaf.stop) t.kind.tokenClass
      ((LineTable.ofText content).position t.leaf.start)
      ((LineTable.ofText content).position t.leaf.stop)
  text_token _ := rfl
  not_silent _ := False.elim

section Walk

variable {content : Text} {above : List ScriptTree}

theorem leafTokens_eq_outcome {t : ScriptTree} (hleaf : t.children = [])
    (hopen : ¬ (walker content).Hidden ⟨t, above⟩) (hskips : ¬ (walker content).skips ⟨t, above⟩) :
    leafTokens content.toArray (LineTable.ofText content) t.kind t.leaf.start t.leaf.stop =
      (walker content).outcome [⟨t, above⟩] := by
  have hpass (hfails : ¬ (walker content).fails ⟨t, above⟩)
      (htaken : ¬ (walker content).IsTaken ⟨t, above⟩) :
      (walker content).outcome [⟨t, above⟩] = .ok [] := by
    rw [Walker.outcome_cons_of_passes (fun h => hfails h.1) htaken, Walker.outcome_nil]
  unfold leafTokens
  by_cases hsilent : t.kind = .list ∨ t.kind = .token NodeKind.endOfFile
  · rw [if_pos (by simpa using hsilent), hpass ?_ fun h => h.1.loud hsilent]
    rintro ⟨-, ⟨n, hkind, hn⟩, -⟩
    rcases hsilent with hlist | hend
    · cases hlist.symm.trans hkind
    · exact hn (NodeKind.token.inj (hkind.symm.trans hend))
  rw [if_neg (by simpa using hsilent)]
  by_cases hwidth : t.leaf.stop ≤ t.leaf.start
  · rw [if_pos hwidth]
    have hempty : ¬ (walker content).IsTaken ⟨t, above⟩ :=
      fun h => Nat.not_lt.mpr hwidth h.1.text.1
    cases hkind : t.kind with
    | token n =>
        have hmissing : t.IsMissing :=
          ⟨hleaf, ⟨n, hkind, fun hn => hsilent (.inr (hn ▸ hkind))⟩, hwidth⟩
        rw [Walker.outcome_cons_of_fails ⟨hmissing, hopen⟩]
        obtain ⟨kind, first, last, inner⟩ := t
        cases hkind
        rfl
    | list => exact absurd (.inl hkind) hsilent
    | documentation => exact absurd hkind hskips
    | other =>
        refine (hpass ?_ hempty).symm
        rintro ⟨-, ⟨n, hn, -⟩, -⟩
        cases hkind.symm.trans hn
  · rw [if_neg hwidth, Text.toList_extract]
    have hpasses : ¬ (walker content).fails ⟨t, above⟩ := fun h => hwidth h.width
    by_cases hblank : (content.slice t.leaf.start t.leaf.stop).allBlank = true
    · rw [hpass hpasses fun h => h.1.text.2 hblank]
      exact if_pos hblank
    · have htaken : (walker content).IsTaken ⟨t, above⟩ :=
        ⟨⟨.inl hleaf, hsilent, ⟨Nat.not_le.mp hwidth, hblank⟩,
          Walker.not_inSkipped hopen hskips⟩, hopen⟩
      rw [Walker.outcome_cons_of_isTaken (fun h => hpasses h.1) htaken (by simp)]
      exact if_neg hblank

theorem collect_eq_outcome {t : ScriptTree} (hopen : ¬ (walker content).Hidden ⟨t, above⟩)
    (hbelow : ¬ (walker content).skips ⟨t, above⟩ →
      collectAll content.toArray (LineTable.ofText content) t.children =
        (walker content).outcome (preorder (t :: above) (SyntaxTree.children t))) :
    collect content.toArray (LineTable.ofText content) t =
      (walker content).outcome (⟨t, above⟩ :: preorder (t :: above) (SyntaxTree.children t)) := by
  obtain ⟨kind, first, last, inner⟩ := t
  rw [collect]
  by_cases hskips : kind = .documentation
  · have hpasses : ¬ (walker content).Fails ⟨.node kind first last inner, above⟩ := by
      rintro ⟨⟨-, ⟨n, hn, -⟩, -⟩, -⟩
      cases hskips.symm.trans hn
    rw [if_pos (beq_iff_eq.mpr hskips),
      Walker.outcome_cons_of_passes hpasses fun h => h.1.kept (.inl hskips),
      Walker.outcome_of_hidden fun _ => Walker.hidden_of_mem_below (.inl hskips)]
  rw [if_neg (mt beq_iff_eq.mp hskips)]
  by_cases hleaf : inner = []
  · have hbelow : preorder (.node kind first last inner :: above)
        (SyntaxTree.children (.node kind first last inner)) = [] := by
      rw [show SyntaxTree.children (ScriptTree.node kind first last inner) = [] from hleaf,
        preorder]
    rw [if_pos (List.isEmpty_iff.mpr hleaf), hbelow]
    exact leafTokens_eq_outcome (t := .node kind first last inner) hleaf hopen hskips
  · have hpasses : ¬ (walker content).Fails ⟨.node kind first last inner, above⟩ :=
      fun h => hleaf h.1.leaf
    rw [if_neg (mt List.isEmpty_iff.mp hleaf),
      Walker.outcome_cons_of_passes hpasses fun h => h.1.whole.elim hleaf id, ← hbelow hskips]
    rfl

theorem collectAll_eq_outcome {trees : List ScriptTree}
    (hopen : ∀ t, ¬ (walker content).Hidden ⟨t, above⟩) :
    collectAll content.toArray (LineTable.ofText content) trees =
      (walker content).outcome (preorder above trees) := by
  induction above, trees using preorder.induct with
  | case1 above =>
      rw [preorder, collectAll, Walker.outcome_nil]
  | case2 above t rest ihchildren ihrest =>
      have hbelow (hkept : ¬ (walker content).skips ⟨t, above⟩) :=
        ihchildren (Walker.not_hidden_below (hopen t) hkept id)
      rw [preorder, ← List.cons_append, Walker.outcome_append, collectAll_cons, ihrest hopen,
        collect_eq_outcome (hopen t) hbelow]

end Walk

theorem keeps_tokens (trees : List ScriptTree) (content : Text) :
    (walker content).Keeps trees (tokens trees content) := by
  exact Walker.keeps_of_eq_outcome (collectAll_eq_outcome Walker.not_hidden_root)

end ScriptTree

/-! ## Both walks -/

/-- Neither walk loses, repeats or moves the text of the trees that it goes through. -/
theorem walks_keep_text :
    (∀ (g : GrammarClasses) (t : ParseTree) (content : Text),
      (ParseTree.walker g content).Keeps [t] (t.tokens g content)) ∧
    ∀ (trees : List ScriptTree) (content : Text),
      (ScriptTree.walker content).Keeps trees (ScriptTree.tokens trees content) :=
  ⟨ParseTree.keeps_tokens, ScriptTree.keeps_tokens⟩

/-- The text of a module of a documentation string and an assignment. -/
def moduleText : Text :=
  Text.ofString "\"d\"\nx=\"a\" #c"

/-- The tree of that text. -/
def moduleTree : ParseTree :=
  let node (type : String) (row column : Nat) (length : Nat) (children : List ParseTree) :=
    ParseTree.node type ⟨4 * row + column, row, column⟩ ⟨4 * row + column + length, row,
      column + length⟩ children
  let string (row column : Nat) (content : String) :=
    node "string" row column 3
      [node "string_start" row column 1 [], node content row (column + 1) 1 [],
        node "string_end" row (column + 2) 1 []]
  .node "module" ⟨0, 0, 0⟩ ⟨12, 1, 8⟩
    [node "expression_statement" 0 0 3 [string 0 0 "string_content"],
      node "expression_statement" 1 0 5
        [node "assignment" 1 0 5
          [node "identifier" 1 0 1 [], node "=" 1 1 1 [], string 1 2 "string_content"]],
      node "comment" 1 6 2 []]

theorem nested_moduleTree : (ParseTree.walker .python moduleText).Nested [] [moduleTree] where
  ordered := List.pairwise_singleton _ _
  inner := by
    simp [moduleTree, preorder, SyntaxTree.children, SyntaxTree.start, SyntaxTree.stop,
      ParseTree.children, ParseTree.start, ParseTree.stop, Walker.Ordered]
  within := by
    simp [moduleTree, preorder, SyntaxTree.children, SyntaxTree.start, SyntaxTree.stop,
      ParseTree.children, ParseTree.start, ParseTree.stop]

theorem walks_keep_text_moduleTree :
    (ParseTree.walker .python moduleText).Nested [] [moduleTree] ∧
      ∃ taken : List (Site ParseTree), taken.Sublist (sites [moduleTree]) ∧
        (taken.map fun s => ((ParseTree.walker .python moduleText).token s.node).text) =
          ["x", "=", "\"a\""].map Text.ofString ∧
        taken.Pairwise fun s s' => SyntaxTree.stop s.node ≤ SyntaxTree.start s'.node := by
  refine ⟨nested_moduleTree, ?_⟩
  have htexts : (moduleTree.tokens .python moduleText).toOption.map (·.map Token.text) =
      some (["x", "=", "\"a\""].map Text.ofString) := by
    decide +kernel
  cases hts : moduleTree.tokens .python moduleText with
  | error f =>
      rw [hts] at htexts
      cases htexts
  | ok ts =>
      obtain ⟨taken, hsublist, rfl, -, hfollows, -⟩ :=
        (walks_keep_text.1 .python moduleTree moduleText).covers ts hts nested_moduleTree
      rw [hts] at htexts
      have htaken := Option.some.inj htexts
      dsimp only at htaken
      rw [List.map_map] at htaken
      exact ⟨taken, hsublist, htaken, hfollows⟩

end CloneScan
