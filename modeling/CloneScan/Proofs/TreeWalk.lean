import Mathlib.Data.List.Basic
import CloneScan.Error
import CloneScan.Token

/-!
# Walks over syntax trees

A walk visits the nodes of trees in preorder.  It ends at the first node that fails, leaves out the
subtrees that it skips, takes atomic nodes whole and makes a token of every other leaf that has a
text.  What it does with a node depends on the nodes above it, so the walk is described by the list
of all nodes, each with those above it: the outcome of a walk is a search through this list and a
selection from it.  When the ranges of the trees are nested, what is selected stands in order and
covers every leaf that is not skipped.
-/

namespace CloneScan

/-- Trees whose nodes have a range. -/
class SyntaxTree (ν : Type) [SizeOf ν] where
  children : ν → List ν
  start : ν → Nat
  stop : ν → Nat
  sizeOf_children : ∀ t, sizeOf (children t) < sizeOf t

/-- A node with the nodes above it, from its parent on. -/
structure Site (ν : Type) where
  node : ν
  above : List ν

namespace Site

variable {ν : Type}

def chain : List ν → List (Site ν)
  | [] => []
  | t :: above => ⟨t, above⟩ :: chain above

/-- The places of the nodes above a node. -/
def outers (s : Site ν) : List (Site ν) :=
  chain s.above

theorem outers_mk_cons (t p : ν) (above : List ν) :
    (⟨t, p :: above⟩ : Site ν).outers = ⟨p, above⟩ :: (⟨p, above⟩ : Site ν).outers :=
  rfl

theorem outers_subset_of_mem {s o : Site ν} (ho : o ∈ s.outers) : ∀ q ∈ o.outers, q ∈ s.outers := by
  obtain ⟨t, above⟩ := s
  induction above generalizing t with
  | nil => cases ho
  | cons p above ih =>
      intro q hq
      rw [outers_mk_cons] at ho ⊢
      rcases List.mem_cons.mp ho with rfl | ho
      · exact List.mem_cons_of_mem _ hq
      · exact List.mem_cons_of_mem _ (ih p ho q hq)

theorem mem_outers_of_isSuffix {p : ν} {above : List ν} {s : Site ν}
    (h : p :: above <:+ s.above) : (⟨p, above⟩ : Site ν) ∈ s.outers := by
  obtain ⟨t, nodes⟩ := s
  dsimp only at h
  induction nodes generalizing t with
  | nil => simp at h
  | cons q nodes ih =>
      rw [outers_mk_cons]
      rcases List.suffix_cons_iff.mp h with heq | h
      · obtain ⟨rfl, rfl⟩ := List.cons.inj heq
        exact List.mem_cons_self
      · exact List.mem_cons_of_mem _ (ih q h)

/-- Of some nodes above a node, the outermost. -/
theorem exists_outermost {s : Site ν} {P : Site ν → Prop} (h : ∃ o ∈ s.outers, P o) :
    ∃ o ∈ s.outers, P o ∧ ∀ q ∈ o.outers, ¬ P q := by
  obtain ⟨t, above⟩ := s
  induction above generalizing t with
  | nil =>
      obtain ⟨o, ho, -⟩ := h
      cases ho
  | cons p above ih =>
      rw [Site.outers_mk_cons] at h ⊢
      by_cases hfurther : ∃ o ∈ (⟨p, above⟩ : Site ν).outers, P o
      · obtain ⟨o, ho, hPo, houtermost⟩ := ih p hfurther
        exact ⟨o, List.mem_cons_of_mem _ ho, hPo, houtermost⟩
      · obtain ⟨o, ho, hPo⟩ := h
        rcases List.mem_cons.mp ho with rfl | ho
        · exact ⟨_, List.mem_cons_self, hPo, fun q hq hPq => hfurther ⟨q, hq, hPq⟩⟩
        · exact absurd ⟨o, ho, hPo⟩ hfurther

end Site

namespace SyntaxTree

variable {ν : Type} [SizeOf ν] [SyntaxTree ν]

/-- The nodes of trees that stand below some nodes, in the order of a walk. -/
def preorder (above : List ν) : List ν → List (Site ν)
  | [] => []
  | t :: rest => ⟨t, above⟩ :: (preorder (t :: above) (children t) ++ preorder above rest)
termination_by trees => sizeOf trees
decreasing_by
  · have := sizeOf_children t
    simp only [List.cons.sizeOf_spec]
    omega
  · simp only [List.cons.sizeOf_spec]
    omega

/-- All nodes of trees. -/
def sites (trees : List ν) : List (Site ν) :=
  preorder [] trees

theorem isSuffix_of_mem_preorder {above trees : List ν} {s : Site ν}
    (hs : s ∈ preorder above trees) : above <:+ s.above := by
  induction above, trees using preorder.induct with
  | case1 above => simp [preorder] at hs
  | case2 above t rest ihchildren ihrest =>
      rw [preorder, List.mem_cons, List.mem_append] at hs
      rcases hs with rfl | hs | hs
      · exact List.suffix_rfl
      · exact (List.suffix_cons t above).trans (ihchildren hs)
      · exact ihrest hs

theorem mem_preorder_self (above : List ν) (t : ν) (trees : List ν) :
    (⟨t, above⟩ : Site ν) ∈ preorder above (t :: trees) := by
  rw [preorder]
  exact List.mem_cons_self

theorem mem_preorder_of_below {above trees : List ν} {t : ν} {s : Site ν}
    (hs : s ∈ preorder (t :: above) (children t)) : s ∈ preorder above (t :: trees) := by
  rw [preorder]
  exact List.mem_cons_of_mem _ (List.mem_append_left _ hs)

theorem mem_preorder_of_rest {above trees : List ν} {t : ν} {s : Site ν}
    (hs : s ∈ preorder above trees) : s ∈ preorder above (t :: trees) := by
  rw [preorder]
  exact List.mem_cons_of_mem _ (List.mem_append_right _ hs)

/-- A node below another has it among the nodes above it. -/
theorem mem_outers_of_mem_preorder {above : List ν} {t : ν} {trees : List ν} {s : Site ν}
    (hs : s ∈ preorder (t :: above) trees) : (⟨t, above⟩ : Site ν) ∈ s.outers :=
  Site.mem_outers_of_isSuffix (isSuffix_of_mem_preorder hs)

/-- The node above a node is one of the nodes, and has it as a child. -/
theorem mem_preorder_cases {above trees : List ν} {s : Site ν} (hs : s ∈ preorder above trees) :
    s.above = above ∧ s.node ∈ trees ∨
      ∃ p nodes, s.above = p :: nodes ∧ ⟨p, nodes⟩ ∈ preorder above trees ∧
        s.node ∈ children p := by
  induction above, trees using preorder.induct with
  | case1 above => simp [preorder] at hs
  | case2 above t rest ihchildren ihrest =>
      rw [preorder, List.mem_cons, List.mem_append] at hs
      rcases hs with rfl | hs | hs
      · exact .inl ⟨rfl, List.mem_cons_self⟩
      · right
        rcases ihchildren hs with ⟨habove, hnode⟩ | ⟨p, nodes, habove, hp, hnode⟩
        · exact ⟨t, above, habove, mem_preorder_self above t rest, hnode⟩
        · exact ⟨p, nodes, habove, mem_preorder_of_below hp, hnode⟩
      · rcases ihrest hs with ⟨habove, hnode⟩ | ⟨p, nodes, habove, hp, hnode⟩
        · exact .inl ⟨habove, List.mem_cons_of_mem _ hnode⟩
        · exact .inr ⟨p, nodes, habove, mem_preorder_of_rest hp, hnode⟩

/-- A node above a node is one of the nodes, and no leaf. -/
theorem mem_sites_of_mem_outers {trees : List ν} {s o : Site ν} (hs : s ∈ sites trees)
    (ho : o ∈ s.outers) : o ∈ sites trees ∧ children o.node ≠ [] := by
  obtain ⟨t, above⟩ := s
  induction above generalizing t with
  | nil => cases ho
  | cons p above ih =>
      rcases mem_preorder_cases hs with ⟨habove, -⟩ | ⟨q, nodes, habove, hq, ht⟩
      · cases habove
      obtain ⟨rfl, rfl⟩ := List.cons.inj habove
      rw [Site.outers_mk_cons] at ho
      rcases List.mem_cons.mp ho with rfl | ho
      · exact ⟨hq, List.ne_nil_of_mem ht⟩
      · exact ih p hq ho

end SyntaxTree

open SyntaxTree

/-- What a walk does with each node: whether it ends there and how, whether it skips the subtree,
takes the node whole or makes nothing of it, and the token that it makes of a node. -/
structure Walker (ν : Type) [SizeOf ν] [SyntaxTree ν] where
  content : Text
  fails : Site ν → Prop
  failure : Site ν → Failure
  skips : Site ν → Prop
  atomic : ν → Prop
  silent : ν → Prop
  token : ν → Token
  text_token : ∀ t, (token t).text = content.slice (start t) (stop t)
  not_silent : ∀ t, atomic t → ¬ silent t

namespace Walker

variable {ν : Type} [SizeOf ν] [SyntaxTree ν]

section

variable (w : Walker ν)

/-- The node is in a subtree that is skipped. -/
def InSkipped (s : Site ν) : Prop :=
  w.skips s ∨ ∃ o ∈ s.outers, w.skips o

/-- The walk does not go below some node above this one. -/
def Hidden (s : Site ν) : Prop :=
  ∃ o ∈ s.outers, w.skips o ∨ w.atomic o.node

/-- The walk ends at the node if it gets there. -/
def Fails (s : Site ν) : Prop :=
  w.fails s ∧ ¬ w.Hidden s

def HasText (t : ν) : Prop :=
  start t < stop t ∧ ¬ (w.content.slice (start t) (stop t)).allBlank = true

/-- A leaf or an atomic node that has a text and is not skipped. -/
structure IsPiece (s : Site ν) : Prop where
  whole : children s.node = [] ∨ w.atomic s.node
  loud : ¬ w.silent s.node
  text : w.HasText s.node
  kept : ¬ w.InSkipped s

/-- The walk makes a token of the node. -/
def IsTaken (s : Site ν) : Prop :=
  w.IsPiece s ∧ ¬ w.Hidden s

/-- Those of some nodes that are not skipped follow each other. -/
def Ordered (above trees : List ν) : Prop :=
  trees.Pairwise fun t t' => ¬ w.skips ⟨t, above⟩ → ¬ w.skips ⟨t', above⟩ → stop t ≤ start t'

/-- Nodes that are not skipped follow each other inside the range of the node above them. -/
structure Nested (above trees : List ν) : Prop where
  ordered : w.Ordered above trees
  inner : ∀ s ∈ preorder above trees, ¬ w.InSkipped s →
    w.Ordered (s.node :: s.above) (children s.node)
  within : ∀ s ∈ preorder above trees, ¬ w.InSkipped s → ∀ c ∈ children s.node,
    ¬ w.skips ⟨c, s.node :: s.above⟩ → start s.node ≤ start c ∧ stop c ≤ stop s.node

open Classical in
/-- The outcome of a walk over some nodes: the failure of the first node at which it ends, or else
the tokens of those that it takes. -/
noncomputable def outcome (l : List (Site ν)) : Except Failure (List Token) :=
  match l.find? fun s => decide (w.Fails s) with
  | some s => .error (w.failure s)
  | none => .ok ((l.filter fun s => decide (w.IsTaken s)).map fun s => w.token s.node)

end

variable {w : Walker ν} {s o : Site ν} {above trees : List ν} {l : List (Site ν)}

/-! ## The outcome of a walk -/

theorem outcome_append (l m : List (Site ν)) :
    w.outcome (l ++ m) = do return (← w.outcome l) ++ (← w.outcome m) := by
  classical
  simp only [outcome, List.find?_append, List.filter_append, List.map_append]
  cases hl : l.find? fun s => decide (w.Fails s) with
  | some s => rfl
  | none =>
      rw [Option.none_or]
      cases m.find? fun s => decide (w.Fails s) <;> rfl

theorem outcome_of_hidden (h : ∀ s ∈ l, w.Hidden s) : w.outcome l = .ok [] := by
  classical
  have hfails : l.find? (fun s => decide (w.Fails s)) = none := by
    rw [List.find?_eq_none]
    intro s hs hfails
    exact (of_decide_eq_true hfails).2 (h s hs)
  have htaken : l.filter (fun s => decide (w.IsTaken s)) = [] := by
    rw [List.filter_eq_nil_iff]
    intro s hs htaken
    exact (of_decide_eq_true htaken).2 (h s hs)
  rw [outcome, hfails, htaken]
  rfl

@[simp] theorem outcome_nil : w.outcome [] = .ok [] :=
  outcome_of_hidden (by simp)

theorem outcome_singleton (s : Site ν) [Decidable (w.Fails s)] [Decidable (w.IsTaken s)] :
    w.outcome [s] = if w.Fails s then .error (w.failure s)
      else if w.IsTaken s then .ok [w.token s.node] else .ok [] := by
  by_cases hfails : w.Fails s
  · simp [outcome, hfails]
  · by_cases htaken : w.IsTaken s <;> simp [outcome, hfails, htaken]

theorem outcome_cons_of_fails (hs : w.Fails s) : w.outcome (s :: l) = .error (w.failure s) := by
  classical
  rw [← List.singleton_append, outcome_append, outcome_singleton, if_pos hs]
  rfl

theorem outcome_cons_of_passes (hs : ¬ w.Fails s) (htaken : ¬ w.IsTaken s) :
    w.outcome (s :: l) = w.outcome l := by
  classical
  rw [← List.singleton_append, outcome_append, outcome_singleton, if_neg hs, if_neg htaken]
  cases w.outcome l <;> rfl

theorem outcome_cons_of_isTaken (hs : ¬ w.Fails s) (htaken : w.IsTaken s)
    (hl : ∀ b ∈ l, w.Hidden b) : w.outcome (s :: l) = .ok [w.token s.node] := by
  classical
  rw [← List.singleton_append, outcome_append, outcome_singleton, if_neg hs, if_pos htaken,
    outcome_of_hidden hl]
  rfl

/-- Below a node that is skipped or taken whole everything is hidden, and below a leaf is nothing. -/
theorem hidden_of_mem_below {t : ν} (h : w.skips ⟨t, above⟩ ∨ children t = [] ∨ w.atomic t)
    (hs : s ∈ preorder (t :: above) (children t)) : w.Hidden s := by
  rcases h with hskips | hleaf | hatomic
  · exact ⟨_, mem_outers_of_mem_preorder hs, .inl hskips⟩
  · rw [hleaf, preorder] at hs
    cases hs
  · exact ⟨_, mem_outers_of_mem_preorder hs, .inr hatomic⟩

theorem not_hidden_root (t : ν) : ¬ w.Hidden ⟨t, []⟩ := by
  rintro ⟨o, ho, -⟩
  cases ho

theorem not_hidden_below {t : ν} (h : ¬ w.Hidden ⟨t, above⟩) (hskips : ¬ w.skips ⟨t, above⟩)
    (hatomic : ¬ w.atomic t) (c : ν) : ¬ w.Hidden ⟨c, t :: above⟩ := by
  rintro ⟨o, ho, hcut⟩
  rw [Site.outers_mk_cons] at ho
  rcases List.mem_cons.mp ho with rfl | ho
  · exact hcut.elim hskips hatomic
  · exact h ⟨o, ho, hcut⟩

theorem not_inSkipped (hopen : ¬ w.Hidden s) (hskips : ¬ w.skips s) : ¬ w.InSkipped s := by
  rintro (h | ⟨o, ho, h⟩)
  · exact hskips h
  · exact hopen ⟨o, ho, .inl h⟩

theorem exists_outcome_eq_error_iff : (∃ f, w.outcome l = .error f) ↔ ∃ s ∈ l, w.Fails s := by
  classical
  have hfind : (l.find? fun s => decide (w.Fails s)).isSome ↔ ∃ s ∈ l, w.Fails s := by
    simp
  rw [← hfind, outcome]
  cases l.find? fun s => decide (w.Fails s) <;> simp

/-- The failure of a walk is that of the first node that fails. -/
theorem outcome_eq_error {f : Failure} (h : w.outcome l = .error f) :
    ∃ before s after, l = before ++ s :: after ∧ w.Fails s ∧ (∀ b ∈ before, ¬ w.Fails b) ∧
      f = w.failure s := by
  classical
  rw [outcome] at h
  split at h
  · rename_i s hfind
    obtain ⟨hs, before, after, hl, hbefore⟩ := List.find?_eq_some_iff_append.mp hfind
    refine ⟨before, s, after, hl, of_decide_eq_true hs, fun b hb => ?_, ?_⟩
    · simpa using hbefore b hb
    · exact (Except.error.inj h).symm
  · cases h

theorem outcome_eq_ok {ts : List Token} (h : w.outcome l = .ok ts) :
    ∃ taken : List (Site ν), taken.Sublist l ∧ (∀ s, s ∈ taken ↔ s ∈ l ∧ w.IsTaken s) ∧
      ts = taken.map fun s => w.token s.node := by
  classical
  rw [outcome] at h
  split at h
  · cases h
  · refine ⟨l.filter fun s => decide (w.IsTaken s), List.filter_sublist, fun s => ?_, ?_⟩
    · rw [List.mem_filter, decide_eq_true_eq]
    · exact (Except.ok.inj h).symm

/-! ## Nested ranges -/

theorem InSkipped.of_outer (ho : o ∈ s.outers) (h : w.InSkipped o) : w.InSkipped s := by
  rcases h with h | ⟨q, hq, h⟩
  · exact .inr ⟨o, ho, h⟩
  · exact .inr ⟨q, Site.outers_subset_of_mem ho q hq, h⟩

theorem Nested.rest {t : ν} (h : w.Nested above (t :: trees)) : w.Nested above trees where
  ordered := (List.pairwise_cons.mp h.ordered).2
  inner s hs := h.inner s (mem_preorder_of_rest hs)
  within s hs := h.within s (mem_preorder_of_rest hs)

theorem Nested.below {t : ν} (h : w.Nested above (t :: trees)) (hkept : ¬ w.InSkipped ⟨t, above⟩) :
    w.Nested (t :: above) (children t) where
  ordered := h.inner _ (mem_preorder_self above t trees) hkept
  inner s hs := h.inner s (mem_preorder_of_below hs)
  within s hs := h.within s (mem_preorder_of_below hs)

/-- Every node that is not skipped lies inside one of the trees. -/
theorem Nested.exists_root (h : w.Nested above trees) (hs : s ∈ preorder above trees)
    (hkept : ¬ w.InSkipped s) :
    ∃ r ∈ trees, ¬ w.skips ⟨r, above⟩ ∧ start r ≤ start s.node ∧ stop s.node ≤ stop r := by
  induction above, trees using preorder.induct with
  | case1 above => simp [preorder] at hs
  | case2 above t rest ihchildren ihrest =>
      rw [preorder, List.mem_cons, List.mem_append] at hs
      rcases hs with rfl | hs | hs
      · exact ⟨t, List.mem_cons_self, fun hskips => hkept (.inl hskips), Nat.le_refl _,
          Nat.le_refl _⟩
      · have houter := mem_outers_of_mem_preorder hs
        have htkept : ¬ w.InSkipped ⟨t, above⟩ := fun hskips => hkept (hskips.of_outer houter)
        obtain ⟨c, hc, hckept, hstart, hstop⟩ := ihchildren (h.below htkept) hs
        obtain ⟨hfirst, hlast⟩ :=
          h.within ⟨t, above⟩ (mem_preorder_self above t rest) htkept c hc hckept
        exact ⟨t, List.mem_cons_self, fun hskips => htkept (.inl hskips), Nat.le_trans hfirst hstart,
          Nat.le_trans hstop hlast⟩
      · obtain ⟨r, hr, hrest⟩ := ihrest h.rest hs
        exact ⟨r, List.mem_cons_of_mem _ hr, hrest⟩

/-- Of two nodes that are not skipped the first is above the second or ends in front of it. -/
theorem Nested.pairwise (h : w.Nested above trees) :
    (preorder above trees).Pairwise fun a b =>
      ¬ w.InSkipped a → ¬ w.InSkipped b → a ∈ b.outers ∨ stop a.node ≤ start b.node := by
  induction above, trees using preorder.induct with
  | case1 above =>
      rw [preorder]
      exact List.Pairwise.nil
  | case2 above t rest ihchildren ihrest =>
      rw [preorder]
      have hafter : ∀ b ∈ preorder above rest, ¬ w.skips ⟨t, above⟩ → ¬ w.InSkipped b →
          stop t ≤ start b.node := by
        intro b hb htkept hbkept
        obtain ⟨r, hr, hrkept, hstart, -⟩ := h.rest.exists_root hb hbkept
        have hfollows := (List.pairwise_cons.mp h.ordered).1 r hr htkept hrkept
        exact Nat.le_trans hfollows hstart
      refine List.pairwise_cons.mpr ⟨?_, List.pairwise_append.mpr ⟨?_, ihrest h.rest, ?_⟩⟩
      · intro b hb htkept hbkept
        rcases List.mem_append.mp hb with hb | hb
        · exact .inl (mem_outers_of_mem_preorder hb)
        · exact .inr (hafter b hb (fun hskips => htkept (.inl hskips)) hbkept)
      · by_cases htkept : w.InSkipped ⟨t, above⟩
        · -- below a skipped node everything is skipped
          apply List.pairwise_of_forall_mem_list
          intro a ha b _ hakept
          exact absurd (htkept.of_outer (mem_outers_of_mem_preorder ha)) hakept
        · exact ihchildren (h.below htkept)
      · intro a ha b hb hakept hbkept
        have htkept : ¬ w.InSkipped ⟨t, above⟩ :=
          fun hskips => hakept (hskips.of_outer (mem_outers_of_mem_preorder ha))
        obtain ⟨c, hc, hckept, -, hstop⟩ := (h.below htkept).exists_root ha hakept
        have hlast :=
          (h.within ⟨t, above⟩ (mem_preorder_self above t rest) htkept c hc hckept).2
        have hnext := hafter b hb (fun hskips => htkept (.inl hskips)) hbkept
        exact .inr (Nat.le_trans hstop (Nat.le_trans hlast hnext))

/-! ## What the walk takes -/

/-- A node lies inside every node above it. -/
theorem Nested.within_outer (h : w.Nested [] trees) (hs : s ∈ sites trees)
    (hkept : ¬ w.InSkipped s) (ho : o ∈ s.outers) :
    start o.node ≤ start s.node ∧ stop s.node ≤ stop o.node := by
  obtain ⟨t, above⟩ := s
  -- the induction climbs from the node to its parent
  induction above generalizing t with
  | nil => cases ho
  | cons p above ih =>
      rcases mem_preorder_cases hs with ⟨habove, -⟩ | ⟨q, nodes, habove, hq, ht⟩
      · cases habove
      obtain ⟨rfl, rfl⟩ := List.cons.inj habove
      rw [Site.outers_mk_cons] at ho
      have hpouter : (⟨p, above⟩ : Site ν) ∈ (⟨t, p :: above⟩ : Site ν).outers := by
        rw [Site.outers_mk_cons]
        exact List.mem_cons_self
      have hpkept : ¬ w.InSkipped ⟨p, above⟩ := fun hskips => hkept (hskips.of_outer hpouter)
      obtain ⟨hstart, hstop⟩ :=
        h.within ⟨p, above⟩ hq hpkept t ht fun hskips => hkept (.inl hskips)
      rcases List.mem_cons.mp ho with rfl | ho
      · exact ⟨hstart, hstop⟩
      · obtain ⟨hfirst, hlast⟩ := ih p hq hpkept ho
        exact ⟨Nat.le_trans hfirst hstart, Nat.le_trans hstop hlast⟩

/-- A text with a part that is not blank is not blank. -/
theorem HasText.of_within {t t' : ν} (h : w.HasText t) (hstart : start t' ≤ start t)
    (hstop : stop t ≤ stop t') : w.HasText t' := by
  obtain ⟨hwidth, hblank⟩ := h
  refine ⟨by omega, fun hblank' => hblank ?_⟩
  have hpart : w.content.slice (start t) (stop t) =
      ((w.content.slice (start t') (stop t')).drop (start t - start t')).take
        (stop t - start t) := by
    rw [Text.slice, Text.slice, List.drop_take, List.drop_drop, List.take_take]
    congr 2 <;> omega
  rw [hpart]
  rw [Text.allBlank, List.all_eq_true] at hblank' ⊢
  intro u hu
  exact hblank' u (List.mem_of_mem_drop (List.mem_of_mem_take hu))

/-- Every piece lies inside a node that the walk takes. -/
theorem Nested.exists_taken (h : w.Nested [] trees) (hs : s ∈ sites trees) (hpiece : w.IsPiece s) :
    ∃ o ∈ sites trees, w.IsTaken o ∧ start o.node ≤ start s.node ∧ stop s.node ≤ stop o.node := by
  by_cases hhidden : w.Hidden s
  · have hatomic : ∃ o ∈ s.outers, w.atomic o.node := by
      obtain ⟨o, ho, hskips | hatomic⟩ := hhidden
      · exact absurd (.inr ⟨o, ho, hskips⟩) hpiece.kept
      · exact ⟨o, ho, hatomic⟩
    obtain ⟨o, ho, hatomic, houtermost⟩ := Site.exists_outermost hatomic
    obtain ⟨hstart, hstop⟩ := h.within_outer hs hpiece.kept ho
    have hosite := (mem_sites_of_mem_outers hs ho).1
    have hokept : ¬ w.InSkipped o := fun hskips => hpiece.kept (hskips.of_outer ho)
    refine ⟨o, hosite, ⟨⟨.inr hatomic, w.not_silent _ hatomic,
      hpiece.text.of_within hstart hstop, hokept⟩, ?_⟩, hstart, hstop⟩
    rintro ⟨q, hq, hskips | hcut⟩
    · exact hokept (.inr ⟨q, hq, hskips⟩)
    · exact houtermost q hq hcut
  · exact ⟨s, hs, ⟨hpiece, hhidden⟩, Nat.le_refl _, Nat.le_refl _⟩

/-- A node that is taken is above no other one. -/
theorem IsTaken.not_mem_outers (ho : w.IsTaken o) (hs : w.IsTaken s) (hsite : s ∈ sites trees) :
    o ∉ s.outers := by
  intro houter
  rcases ho.1.whole with hleaf | hatomic
  · exact (mem_sites_of_mem_outers hsite houter).2 hleaf
  · exact hs.2 ⟨o, houter, .inr hatomic⟩

/-- What a walk does to the text of trees.  It ends with a failure exactly if some node fails, and
the failure is that of the first one.  Otherwise, when ranges are nested, its tokens are those of
nodes with a text that follow each other, and every leaf and every atomic node that has a text and
is not skipped is inside exactly one of them. -/
structure Keeps (w : Walker ν) (trees : List ν) (outcome : Except Failure (List Token)) : Prop where
  fails_iff : (∃ f, outcome = .error f) ↔ ∃ s ∈ sites trees, w.Fails s
  first : ∀ f, outcome = .error f →
    ∃ before s after, sites trees = before ++ s :: after ∧ w.Fails s ∧
      (∀ b ∈ before, ¬ w.Fails b) ∧ f = w.failure s
  covers : ∀ ts, outcome = .ok ts → w.Nested [] trees →
    ∃ taken : List (Site ν), taken.Sublist (sites trees) ∧
      ts = taken.map (fun s => w.token s.node) ∧
      (∀ s ∈ taken, w.HasText s.node ∧
        (w.token s.node).text = w.content.slice (start s.node) (stop s.node)) ∧
      taken.Pairwise (fun s s' => stop s.node ≤ start s'.node) ∧
      ∀ s ∈ sites trees, w.IsPiece s → ∃! i : Fin taken.length,
        start (taken.get i).node ≤ start s.node ∧ stop s.node ≤ stop (taken.get i).node

/-- Nodes with a text that follow each other do not share a node with a text. -/
theorem eq_of_covers {taken : List (Site ν)}
    (htaken : taken.Pairwise fun s s' => stop s.node ≤ start s'.node) (hs : w.HasText s.node)
    {i j : Fin taken.length}
    (hi : start (taken.get i).node ≤ start s.node ∧ stop s.node ≤ stop (taken.get i).node)
    (hj : start (taken.get j).node ≤ start s.node ∧ stop s.node ≤ stop (taken.get j).node) :
    i = j := by
  have hwidth := hs.1
  rcases Nat.lt_trichotomy i j with hlt | heq | hlt
  · have hfollows : stop (taken.get i).node ≤ start (taken.get j).node :=
      List.pairwise_iff_getElem.mp htaken i j i.2 j.2 hlt
    omega
  · exact Fin.ext heq
  · have hfollows : stop (taken.get j).node ≤ start (taken.get i).node :=
      List.pairwise_iff_getElem.mp htaken j i j.2 i.2 hlt
    omega

theorem keeps_of_eq_outcome {outcome : Except Failure (List Token)}
    (h : outcome = w.outcome (sites trees)) : w.Keeps trees outcome where
  fails_iff := by
    rw [h]
    exact exists_outcome_eq_error_iff
  first f hf := outcome_eq_error (h.symm.trans hf)
  covers ts hts hnested := by
    rw [h] at hts
    obtain ⟨taken, hsublist, hmem, rfl⟩ := outcome_eq_ok hts
    have hfollows : taken.Pairwise fun s s' => stop s.node ≤ start s'.node := by
      refine (hnested.pairwise.sublist hsublist).imp_of_mem fun {a b} ha hb hab => ?_
      obtain ⟨-, hatake⟩ := (hmem a).mp ha
      obtain ⟨hbsite, hbtake⟩ := (hmem b).mp hb
      exact (hab hatake.1.kept hbtake.1.kept).resolve_left (hatake.not_mem_outers hbtake hbsite)
    refine ⟨taken, hsublist, rfl, fun s hs => ⟨((hmem s).mp hs).2.1.text, w.text_token s.node⟩,
      hfollows, fun s hs hpiece => ?_⟩
    obtain ⟨o, hosite, hotake, hcovers⟩ := hnested.exists_taken hs hpiece
    obtain ⟨i, rfl⟩ := List.get_of_mem ((hmem o).mpr ⟨hosite, hotake⟩)
    exact ⟨i, hcovers, fun j hj => eq_of_covers hfollows hpiece.text hj hcovers⟩

end Walker

end CloneScan
