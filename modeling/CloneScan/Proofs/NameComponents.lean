import CloneScan.Proofs.ConstantGroups
import Mathlib.Data.List.Chain

/-!
# Components of matching names

The groups of constants are the connected components of their names: every definition is in exactly
one group, groups and members come in the order in which they are first seen, and two definitions
share a group exactly when a chain of names of the list, each matching the next, leads from the name
of one to the name of the other.  Definitions in another order fall into the same components.  The
only loop without a bound, the climb to a root, always comes to its end.
-/

namespace CloneScan.Constant

/-! ## Chains of names -/

/-- The chain leads from one name to the other through names of the list, and every name of it
matches the next one. -/
structure IsNameChain (names : List Text) (a b : Text) (chain : List Text) : Prop where
  first : chain.head? = some a
  last : chain.getLast? = some b
  within : ∀ c ∈ chain, c ∈ names
  matching : chain.IsChain fun c d => namesMatch c d = true

variable {names : List Text} {a b : Text}

/-- Two names of the list that match. -/
def MatchIn (names : List Text) (c d : Text) : Prop :=
  c ∈ names ∧ d ∈ names ∧ namesMatch c d = true

instance (names : List Text) : Std.Symm (MatchIn names) where
  symm _ _ h := ⟨h.2.1, h.1, namesMatch_comm _ _ ▸ h.2.2⟩

theorem mem_of_isChain_matchIn {chain : List Text} (ha : a ∈ names)
    (h : (a :: chain).IsChain (MatchIn names)) : ∀ c ∈ a :: chain, c ∈ names := by
  induction chain generalizing a with
  | nil => simpa using ha
  | cons b chain ih =>
      obtain ⟨hab, hrest⟩ := List.isChain_cons_cons.mp h
      intro c hc
      rcases List.mem_cons.mp hc with rfl | hc
      · exact ha
      · exact ih hab.2.1 hrest c hc

theorem linked_iff_exists_isNameChain (ha : a ∈ names) :
    Linked names a b ↔ ∃ chain, IsNameChain names a b chain := by
  have hclosure : Linked names = Relation.ReflTransGen (MatchIn names) :=
    Relation.EqvGen.eqvGen_eq_reflTransGen (MatchIn names)
  rw [hclosure]
  constructor
  · intro h
    obtain ⟨chain, hchain, hlast⟩ := List.exists_isChain_cons_of_relationReflTransGen h
    refine ⟨a :: chain, rfl, ?_, mem_of_isChain_matchIn ha hchain,
      hchain.imp fun c d hcd => hcd.2.2⟩
    rw [List.getLast?_eq_some_getLast (List.cons_ne_nil a chain), hlast]
  · rintro ⟨chain, hfirst, hlast, hwithin, hmatching⟩
    obtain ⟨rest, rfl⟩ := List.head?_eq_some_iff.mp hfirst
    have hchain : (a :: rest).IsChain (MatchIn names) :=
      hmatching.imp_of_mem_imp fun c d hc hd hcd => ⟨hwithin c hc, hwithin d hd, hcd⟩
    exact List.relationReflTransGen_of_exists_isChain_cons rest hchain
      ((List.getLast_eq_iff_getLast?_eq_some _).mpr hlast)

/-! ## Components -/

/-- The groups are the connected components of the definitions, each written down in the order in
which its members and the groups themselves are first seen. -/
structure AreComponents (definitions : List ConstantDefinition)
    (groups : List (List ConstantDefinition)) : Prop where
  partition : groups.flatten.Perm definitions
  nonempty : ∀ g ∈ groups, g ≠ []
  apart : groups.Pairwise List.Disjoint
  inOrder : ∀ g ∈ groups, g = definitions.filter (· ∈ g)
  firstSeen : groups.Pairwise (Clone.SeenBefore definitions)
  together_iff : ∀ d ∈ definitions, ∀ e ∈ definitions,
    (∃ g ∈ groups, d ∈ g ∧ e ∈ g) ↔
      ∃ chain, IsNameChain (definitions.map (·.name)) d.name e.name chain

theorem exists_group_iff {definitions : List ConstantDefinition} {d e : ConstantDefinition}
    (hd : d ∈ definitions) (he : e ∈ definitions) :
    (∃ g ∈ groups definitions, d ∈ g ∧ e ∈ g) ↔
      groupNumber definitions d = groupNumber definitions e := by
  have hclasses := groups_areClasses definitions
  constructor
  · rintro ⟨g, hg, hdg, heg⟩
    obtain ⟨a, -, rfl⟩ := hclasses.isClass g hg
    exact (Clone.mem_classIn.mp hdg).2.trans (Clone.mem_classIn.mp heg).2.symm
  · intro hsame
    exact ⟨_, hclasses.complete d hd, Clone.mem_classIn.mpr ⟨hd, rfl⟩,
      Clone.mem_classIn.mpr ⟨he, hsame.symm⟩⟩

theorem areComponents_groups (definitions : List ConstantDefinition) :
    AreComponents definitions (groups definitions) := by
  have hclasses := groups_areClasses definitions
  refine ⟨?_, hclasses.ne_nil, ?_, ?_, ?_, ?_⟩
  · rw [groups_eq]
    exact Clone.flatten_group_perm _ definitions
  · refine hclasses.apart.imp fun hapart => ?_
    exact fun d hd he => hapart d hd d he rfl
  · intro g hg
    obtain ⟨a, ha, rfl⟩ := hclasses.isClass g hg
    refine List.filter_congr fun d hd => ?_
    simp [Clone.mem_classIn, hd]
  · rw [groups_eq]
    exact Clone.pairwise_seenBefore_group (fun d => BEq.refl (groupNumber definitions d))
      definitions
  · intro d hd e he
    rw [exists_group_iff hd he, groupNumber_eq_iff hd he,
      linked_iff_exists_isNameChain (List.mem_map_of_mem hd)]

/-- The same groups, up to the order of the groups and of the members of each. -/
def SamePartition (groups groups' : List (List ConstantDefinition)) : Prop :=
  (groups.map (Multiset.ofList ·)).Perm (groups'.map (Multiset.ofList ·))

theorem groups_samePartition {definitions definitions' : List ConstantDefinition}
    (h : definitions.Perm definitions') :
    SamePartition (groups definitions) (groups definitions') := by
  rw [SamePartition, List.map_eq_flatMap, List.map_eq_flatMap]
  refine (groups_areClasses definitions).flatMap_perm (groups_areClasses definitions')
    (fun _ => h.mem_iff) (fun d hd e he => groupNumber_eq_iff_of_perm h hd he) fun d hd => ?_
  have hclass : (Clone.classIn (groupNumber definitions) definitions d).Perm
      (Clone.classIn (groupNumber definitions') definitions' d) := by
    rw [classIn_groupNumber_of_perm h hd]
    exact h.filter _
  rw [Multiset.coe_eq_coe.mpr hclass]

/-- The groups of constants are found, whatever the definitions: every climb comes to a root, and
the groups are the connected components of the names, in whatever order the definitions come. -/
theorem groups_connected (definitions : List ConstantDefinition) :
    (∀ c : Climb (distinct (definitions.map (·.name))).length,
      ∃ turns, (Climb.next^[turns] c).AtRoot ∧ c.finish = Climb.next^[turns] c) ∧
    AreComponents definitions (groups definitions) ∧
    ∀ definitions', definitions.Perm definitions' →
      SamePartition (groups definitions) (groups definitions') :=
  ⟨Climb.exists_turns, areComponents_groups definitions, fun _ => groups_samePartition⟩

/-- A constant of the file `a` with the value `1`. -/
def letterConstant (name : Text) : ConstantDefinition :=
  ⟨name, [0x31], [0x61], 1, 3⟩

/-- The constants `A_A`, `A_A_B_C` and `A_A_B`. -/
def bridgedConstants : List ConstantDefinition :=
  [letterConstant [0x41, 0x5F, 0x41], letterConstant [0x41, 0x5F, 0x41, 0x5F, 0x42, 0x5F, 0x43],
    letterConstant [0x41, 0x5F, 0x41, 0x5F, 0x42]]

/-- The third constant links the first two, whose names do not match; so it does when it comes
first. -/
theorem groups_connected_bridgedConstants :
    namesMatch [0x41, 0x5F, 0x41] [0x41, 0x5F, 0x41, 0x5F, 0x42, 0x5F, 0x43] = false ∧
    (∃ g ∈ groups bridgedConstants, letterConstant [0x41, 0x5F, 0x41] ∈ g ∧
      letterConstant [0x41, 0x5F, 0x41, 0x5F, 0x42, 0x5F, 0x43] ∈ g) ∧
    SamePartition (groups bridgedConstants) (groups bridgedConstants.reverse) := by
  obtain ⟨-, hcomponents, hperm⟩ := groups_connected bridgedConstants
  refine ⟨by cbv, ?_, hperm _ (List.reverse_perm _).symm⟩
  refine (hcomponents.together_iff _ (by decide) _ (by decide)).mpr
    ⟨[[0x41, 0x5F, 0x41], [0x41, 0x5F, 0x41, 0x5F, 0x42],
      [0x41, 0x5F, 0x41, 0x5F, 0x42, 0x5F, 0x43]], rfl, rfl, by decide, ?_⟩
  exact .cons_cons (by cbv) (.cons_cons (by cbv) (.singleton _))

end CloneScan.Constant
