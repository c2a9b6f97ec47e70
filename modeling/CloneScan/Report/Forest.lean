/-!
# Forests of numbers

Each of `n` numbers has a parent, and a number that is its own parent is a root.  Two numbers are in
one tree when climbing from parent to parent takes them to the same root.  A climb shortens the way
for the next one: every number that it passes moves to the parent of its parent.
-/

namespace CloneScan

variable {n : Nat}

/-- The rank goes down with every step to a parent. -/
def Lowers (parents : Vector (Fin n) n) (rank : Fin n → Nat) : Prop :=
  ∀ i : Fin n, parents[i] ≠ i → rank parents[i] < rank i

/-- A parent for each of `n` numbers.  A rank that goes down with every step to a parent rules out
that a number is above itself, so every way up ends at a root. -/
structure Forest (n : Nat) where
  parents : Vector (Fin n) n
  grounded : ∃ rank, Lowers parents rank

theorem getElem_set_fin (parents : Vector (Fin n) n) (i p j : Fin n) :
    (parents.set i p)[j] = if j = i then p else parents[j] := by
  simp only [Fin.getElem_fin, Vector.getElem_set, Fin.val_inj, eq_comm]

namespace Lowers

variable {parents : Vector (Fin n) n} {rank : Fin n → Nat}

theorem grandparent_lt (h : Lowers parents rank) {i : Fin n} (hi : parents[i] ≠ i) :
    rank parents[parents[i]] < rank i := by
  by_cases habove : parents[parents[i]] = parents[i]
  · rw [habove]
    exact h i hi
  · exact Nat.lt_trans (h _ habove) (h i hi)

theorem halve (h : Lowers parents rank) (i : Fin n) :
    Lowers (parents.set i parents[parents[i]]) rank := by
  intro j hj
  rw [getElem_set_fin] at hj ⊢
  split
  case isTrue hji =>
    subst hji
    rw [if_pos rfl] at hj
    exact h.grandparent_lt fun hroot => hj (by simp only [hroot])
  case isFalse hji =>
    rw [if_neg hji] at hj
    exact h j hj

/-- With its new rank a root is below every other number. -/
theorem attach (h : Lowers parents rank) (i : Fin n) {root : Fin n}
    (hroot : parents[root] = root) :
    Lowers (parents.set i root) fun j => if j = root then 0 else rank j + 1 := by
  intro j hj
  have hjroot : j ≠ root := by
    rintro rfl
    apply hj
    rw [getElem_set_fin, hroot, ite_self]
  rw [getElem_set_fin] at hj ⊢
  simp only [if_neg hjroot]
  by_cases hji : j = i
  · simp [hji]
  · rw [if_neg hji] at hj ⊢
    split
    · exact Nat.succ_pos _
    · exact Nat.succ_lt_succ (h j hj)

end Lowers

namespace Forest

/-- The parent of a number. -/
def parent (f : Forest n) (i : Fin n) : Fin n :=
  f.parents[i]

/-- Whether a number is its own parent. -/
def IsRoot (f : Forest n) (i : Fin n) : Prop :=
  f.parent i = i

instance (f : Forest n) (i : Fin n) : Decidable (f.IsRoot i) :=
  inferInstanceAs (Decidable (f.parent i = i))

/-- The forest in which every number is a root. -/
def roots (n : Nat) : Forest n where
  parents := Vector.ofFn id
  grounded := ⟨fun _ => 0, by simp [Lowers]⟩

/-- Moves a number to the parent of its parent. -/
def halve (f : Forest n) (i : Fin n) : Forest n where
  parents := f.parents.set i (f.parent (f.parent i))
  grounded := f.grounded.imp fun _ h => h.halve i

/-- Puts a number under a root. -/
def attach (f : Forest n) (i root : Fin n) (hroot : f.IsRoot root) : Forest n where
  parents := f.parents.set i root
  grounded := f.grounded.elim fun _ h => ⟨_, h.attach i hroot⟩

end Forest

/-! ## Climbing -/

/-- A place on the way up in a forest. -/
structure Climb (n : Nat) where
  forest : Forest n
  place : Fin n

namespace Climb

/-- Whether the way up has come to its end. -/
def AtRoot (c : Climb n) : Prop :=
  c.forest.IsRoot c.place

instance (c : Climb n) : Decidable c.AtRoot :=
  inferInstanceAs (Decidable (c.forest.IsRoot c.place))

/-- One turn: the number at this place moves to the parent of its parent, and the climb goes on
from there. -/
def next (c : Climb n) : Climb n :=
  let forest := c.forest.halve c.place
  ⟨forest, forest.parent c.place⟩

/-- A climb that is not at its end, and the climb one turn later. -/
def Turn (later now : Climb n) : Prop :=
  ¬ now.AtRoot ∧ later = now.next

theorem rank_next_lt {c : Climb n} {rank : Fin n → Nat} (h : Lowers c.forest.parents rank)
    (hroot : ¬ c.AtRoot) : rank c.next.place < rank c.place := by
  have hplace : c.next.place = c.forest.parents[c.forest.parents[c.place]] := by
    simp only [next, Forest.parent, Forest.halve, getElem_set_fin, if_pos]
  rw [hplace]
  exact h.grandparent_lt hroot

theorem acc_turn {rank : Fin n → Nat} (c : Climb n) (h : Lowers c.forest.parents rank) :
    Acc Turn c := by
  generalize hk : rank c.place = k
  induction k using Nat.strongRecOn generalizing c with
  | ind k ih =>
    refine ⟨c, ?_⟩
    rintro later ⟨hroot, rfl⟩
    -- a rank of the forest is a rank of the shortened forest as well
    exact ih _ (hk ▸ rank_next_lt h hroot) c.next (h.halve c.place) rfl

/-- No climb goes on for ever. -/
theorem turn_wellFounded : WellFounded (Turn (n := n)) :=
  ⟨fun c => c.forest.grounded.elim fun _ h => c.acc_turn h⟩

instance : WellFoundedRelation (Climb n) :=
  ⟨Turn, turn_wellFounded⟩

/-- The end of a climb: turns as long as the place is no root. -/
def finish (c : Climb n) : Climb n :=
  if c.AtRoot then c else c.next.finish
termination_by c
decreasing_by exact ⟨‹_›, rfl⟩

theorem atRoot_finish (c : Climb n) : c.finish.AtRoot := by
  fun_induction finish c with
  | case1 c hroot => exact hroot
  | case2 c hroot ih => exact ih

end Climb

namespace Forest

/-- Climbs from a number to its root. -/
def climb (f : Forest n) (i : Fin n) : Climb n :=
  Climb.finish ⟨f, i⟩

theorem isRoot_climb (f : Forest n) (i : Fin n) : (f.climb i).forest.IsRoot (f.climb i).place :=
  Climb.atRoot_finish ⟨f, i⟩

/-- The root of a number. -/
def rootOf (f : Forest n) (i : Fin n) : Fin n :=
  (f.climb i).place

/-- Replaces the number of every item by its root, one climb after the other. -/
def rootsOf {α : Type} (f : Forest n) : List (Fin n × α) → List (Fin n × α)
  | [] => []
  | (i, x) :: rest =>
    let c := f.climb i
    (c.place, x) :: c.forest.rootsOf rest

/-- Puts the root of the second number under the root of the first. -/
def link (f : Forest n) (i j : Fin n) : Forest n :=
  let lower := f.climb j
  let upper := lower.forest.climb i
  upper.forest.attach lower.place upper.place (lower.forest.isRoot_climb i)

end Forest

end CloneScan
