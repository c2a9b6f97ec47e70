import CloneScan.Report.Forest
import Mathlib.Data.Finset.Lattice.Fold
import Mathlib.Data.Fintype.Basic
import Mathlib.Logic.Function.Iterate

/-!
# Roots in a forest

A map that is the same for a number and its parent, and that leaves roots where they are, is the
only one of its kind.  It survives every turn of a climb, so climbs end where it says and move
nobody to another root.  Linking two numbers changes it in one way: what had the root of the second
number gets the root of the first.
-/

namespace CloneScan

namespace Forest

variable {n : Nat} {f : Forest n} {R : Fin n → Fin n}

@[simp] theorem parent_roots (i : Fin n) : (roots n).parent i = i := by
  simp [parent, roots]

theorem parent_halve (f : Forest n) (i j : Fin n) :
    (f.halve i).parent j = if j = i then f.parent (f.parent i) else f.parent j :=
  getElem_set_fin f.parents i _ j

theorem parent_attach (f : Forest n) (i j : Fin n) {root : Fin n} (hroot : f.IsRoot root) :
    (f.attach i root hroot).parent j = if j = i then root else f.parent j :=
  getElem_set_fin f.parents i root j

theorem isRoot_of_parent_parent {i : Fin n} (h : f.parent (f.parent i) = i) : f.IsRoot i := by
  obtain ⟨rank, hrank⟩ := f.grounded
  by_contra hi
  have hlt : rank (f.parent (f.parent i)) < rank i := Lowers.grandparent_lt hrank hi
  rw [h] at hlt
  exact lt_irrefl _ hlt

/-- The map takes every number to the root above it. -/
structure IsRootMap (f : Forest n) (R : Fin n → Fin n) : Prop where
  isRoot : ∀ i, f.IsRoot (R i)
  parent : ∀ i, R (f.parent i) = R i
  root : ∀ i, f.IsRoot i → R i = i

theorem isRoot_iterate_parent {rank : Fin n → Nat} (h : Lowers f.parents rank) {k : Nat} {i : Fin n}
    (hk : rank i ≤ k) : f.IsRoot (f.parent^[k] i) := by
  induction k generalizing i with
  | zero =>
      by_contra hi
      exact Nat.not_lt_zero _ ((h i hi).trans_le hk)
  | succ k ih =>
      by_cases hi : f.IsRoot i
      · have hfix : f.parent^[k + 1] i = i := Function.iterate_fixed hi (k + 1)
        rwa [hfix]
      · rw [Function.iterate_succ_apply]
        exact ih (Nat.le_of_lt_succ ((h i hi).trans_le hk))

theorem exists_isRootMap (f : Forest n) : ∃ R, f.IsRootMap R := by
  obtain ⟨rank, hrank⟩ := f.grounded
  -- as many steps as the greatest rank lead everybody to a root
  have hfar (i : Fin n) : f.IsRoot (f.parent^[Finset.univ.sup rank] i) :=
    isRoot_iterate_parent hrank (Finset.le_sup (Finset.mem_univ i))
  refine ⟨f.parent^[Finset.univ.sup rank], hfar, fun i => ?_, fun i hi => ?_⟩
  · rw [← Function.iterate_succ_apply, Function.iterate_succ_apply']
    exact hfar i
  · exact Function.iterate_fixed hi _

theorem IsRootMap.halve (h : f.IsRootMap R) (i : Fin n) : (f.halve i).IsRootMap R where
  isRoot j := by
    rw [IsRoot, parent_halve]
    split
    case isTrue hji => rw [← hji, h.isRoot j, h.isRoot j]
    case isFalse => exact h.isRoot j
  parent j := by
    rw [parent_halve]
    split
    case isTrue hji => rw [hji, h.parent, h.parent]
    case isFalse => exact h.parent j
  root j hj := by
    apply h.root
    rw [IsRoot, parent_halve] at hj
    split at hj
    case isTrue hji => exact isRoot_of_parent_parent (hji ▸ hj)
    case isFalse => exact hj

end Forest

/-- A climb ends at the root of its place and leaves everybody below his root. -/
theorem Climb.finish_spec {n : Nat} {R : Fin n → Fin n} (c : Climb n)
    (h : c.forest.IsRootMap R) :
    c.finish.place = R c.place ∧ c.finish.forest.IsRootMap R := by
  fun_induction finish c with
  | case1 c hroot => exact ⟨(h.root _ hroot).symm, h⟩
  | case2 c hroot ih =>
      have hnext : c.next.forest.IsRootMap R := h.halve c.place
      obtain ⟨hplace, hforest⟩ := ih hnext
      exact ⟨hplace.trans (hnext.parent c.place), hforest⟩

/-- Every climb comes to a root after some turns. -/
theorem Climb.exists_turns {n : Nat} (c : Climb n) :
    ∃ turns, (Climb.next^[turns] c).AtRoot ∧ c.finish = Climb.next^[turns] c := by
  fun_induction finish c with
  | case1 c hroot => exact ⟨0, hroot, rfl⟩
  | case2 c hroot ih =>
      obtain ⟨turns, hturns⟩ := ih
      exact ⟨turns + 1, hturns⟩

namespace Forest

variable {n : Nat} {f : Forest n} {R : Fin n → Fin n}

theorem IsRootMap.climb (h : f.IsRootMap R) (i : Fin n) :
    (f.climb i).place = R i ∧ (f.climb i).forest.IsRootMap R :=
  Climb.finish_spec ⟨f, i⟩ h

theorem IsRootMap.eq_rootOf (h : f.IsRootMap R) : R = f.rootOf :=
  funext fun i => (h.climb i).1.symm

theorem isRootMap_rootOf (f : Forest n) : f.IsRootMap f.rootOf := by
  obtain ⟨R, h⟩ := f.exists_isRootMap
  rwa [← h.eq_rootOf]

theorem rootOf_roots (i : Fin n) : (roots n).rootOf i = i :=
  (isRootMap_rootOf _).root i (parent_roots i)

theorem rootOf_climb (f : Forest n) (i : Fin n) : (f.climb i).forest.rootOf = f.rootOf :=
  ((isRootMap_rootOf f).climb i).2.eq_rootOf.symm

theorem rootsOf_eq_map {α : Type} (f : Forest n) (items : List (Fin n × α)) :
    f.rootsOf items = items.map fun x => (f.rootOf x.1, x.2) := by
  induction items generalizing f with
  | nil => rfl
  | cons x items ih =>
      rw [rootsOf, ih, rootOf_climb]
      rfl

theorem rootOf_attach {i root : Fin n} (hi : f.IsRoot i) (hroot : f.IsRoot root) (j : Fin n) :
    (f.attach i root hroot).rootOf j = if f.rootOf j = i then root else f.rootOf j := by
  have h := isRootMap_rootOf f
  have hself := h.root root hroot
  suffices hmap : (f.attach i root hroot).IsRootMap fun j =>
      if f.rootOf j = i then root else f.rootOf j from (congrFun hmap.eq_rootOf j).symm
  refine ⟨fun j => ?_, fun j => ?_, fun j hj => ?_⟩
  · rw [IsRoot, parent_attach]
    by_cases hji : f.rootOf j = i
    · rw [if_pos hji, hroot, ite_self]
    · rw [if_neg hji, if_neg hji, h.isRoot j]
  · rw [parent_attach]
    split
    case isTrue hji => simp [hji, hself, h.root i hi]
    case isFalse => rw [h.parent]
  · rw [IsRoot, parent_attach] at hj
    split at hj
    case isTrue hji => simp [hji, h.root i hi, hji ▸ hj]
    case isFalse hji => simp [h.root j hj, hji]

/-- Linking gives the root of the first number to all that had the root of the second. -/
theorem rootOf_link (f : Forest n) (i j k : Fin n) :
    (f.link i j).rootOf k = if f.rootOf k = f.rootOf j then f.rootOf i else f.rootOf k := by
  obtain ⟨hlower, hafter⟩ := (isRootMap_rootOf f).climb j
  obtain ⟨hupper, hforest⟩ := hafter.climb i
  have hroot : ((f.climb j).forest.climb i).forest.IsRoot (f.climb j).place :=
    hlower ▸ hforest.isRoot j
  rw [link, rootOf_attach hroot, ← hforest.eq_rootOf, hlower, hupper]

end Forest

end CloneScan
