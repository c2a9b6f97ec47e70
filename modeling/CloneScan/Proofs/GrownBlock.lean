import CloneScan.Proofs.Growth

/-!
# Grown blocks

A class grows to a block: the same keys at every member, extended to both sides as far as all
members agree.  A class of equally many windows inside the grown ranges of another one grows to the
same block, which is why the sweep may skip it.
-/

namespace CloneScan

/-- The same keys at two or more places that stand one behind the other. -/
structure Block.IsDuplicate (files : Array KeyedFile) (b : Block) : Prop where
  two_le : 2 ≤ b.members.length
  spans : ∀ m ∈ b.members, m.start + b.length = m.stop + 1
  bounded : ∀ m ∈ b.members, m.stop < Clone.keyCount files m.file
  sameKeys : ∀ m ∈ b.members, ∀ n ∈ b.members, ∀ k < b.length,
    Clone.keyAt files m.file (m.start + k) = Clone.keyAt files n.file (n.start + k)
  ordered : b.members.Pairwise Member.Before

/-- Blocks with the same members have the same length. -/
theorem Block.IsDuplicate.eq_of_members {files : Array KeyedFile} {a b : Block}
    (ha : a.IsDuplicate files) (hb : b.IsDuplicate files) (h : a.members = b.members) : a = b := by
  obtain ⟨m, hm⟩ := List.exists_mem_of_length_pos
    (by have := ha.two_le; omega : 0 < a.members.length)
  have hspanA := ha.spans m hm
  have hspanB := hb.spans m (h ▸ hm)
  obtain ⟨membersA, lengthA⟩ := a
  obtain ⟨membersB, lengthB⟩ := b
  simp only [Block.mk.injEq] at *
  exact ⟨h, by omega⟩

namespace Clone

variable {files : Array KeyedFile} {length : Nat} {first : Window} {more members : List Window}

/-- Windows with the same keys, in the order of files and starts. -/
structure Alike (files : Array KeyedFile) (length : Nat) (members : List Window) : Prop where
  bounded : ∀ m ∈ members, m.start + length ≤ keyCount files m.file
  sameKeys : ∀ m ∈ members, ∀ n ∈ members, ∀ k < length,
    keyAt files m.file (m.start + k) = keyAt files n.file (n.start + k)
  ordered : members.Pairwise Window.Before

theorem alike_of_mem_classes (hhash : HasWindowHashes files length) (hlength : 0 < length)
    (hmembers : members ∈ classes files length) : Alike files length members := by
  obtain ⟨-, p, -, rfl⟩ := mem_classes_iff.mp hmembers
  refine ⟨?_, ?_, windowClass_pairwise_before files length p⟩
  · intro m hm
    exact (exists_mem_windows_iff hhash hlength).mp ⟨_, (mem_windowClass_iff.mp hm).1⟩
  · intro m hm n hn
    exact windowKeys_eq_iff.mp
      ((mem_windowClass_iff.mp hm).2.trans (mem_windowClass_iff.mp hn).2.symm)

/-! ## The grown ranges -/

/-- The length of the block of a class. -/
def grownLength (files : Array KeyedFile) (length : Nat) (first : Window)
    (members : List Window) : Nat :=
  length + leftGrowth files first members + rightGrowth files length first members

/-- The range of a window that starts `left` keys earlier and has `total` keys. -/
def rangeOf (left total : Nat) (m : Window) : Member :=
  ⟨m.file, m.start - left, m.start - left + total - 1⟩

theorem leftGrowth_le_start {m : Window} (hm : m ∈ members) :
    leftGrowth files first members ≤ m.start := by
  rcases Nat.eq_zero_or_pos (leftGrowth files first members) with hzero | hpos
  · omega
  · exact (agreeBefore_iff.mp (agreeBefore_of_le_leftGrowth hpos (Nat.le_refl _)) m hm).1

/-! ## The block of a class -/

theorem grow_length : (grow files length first members).block.length =
    grownLength files length first members := rfl

theorem mem_grow_block {m : Member} (hm : m ∈ (grow files length first members).block.members) :
    ∃ w ∈ members, m = rangeOf (leftGrowth files first members)
      (grownLength files length first members) w := by
  have hrange := List.mem_mergeSort.mp ((thin_sublist none _).subset hm)
  obtain ⟨w, hw, rfl⟩ := List.mem_map.mp hrange
  exact ⟨w, hw, rfl⟩

theorem grow_spans (hlength : 0 < length) {m : Member}
    (hm : m ∈ (grow files length first members).block.members) :
    m.start + (grow files length first members).block.length = m.stop + 1 := by
  obtain ⟨w, -, rfl⟩ := mem_grow_block hm
  rw [grow_length]
  simp only [rangeOf, grownLength]
  omega

theorem grow_pairwise_before (hlength : 0 < length) :
    (grow files length first members).block.members.Pairwise Member.Before := by
  have hsorted := List.pairwise_mergeSort Member.le_trans Member.le_total (members.map
    (rangeOf (leftGrowth files first members) (grownLength files length first members)))
  refine (thin_before ?_ hsorted (by simp)).2
  intro m hm
  obtain ⟨w, -, rfl⟩ := List.mem_map.mp (List.mem_mergeSort.mp hm)
  simp only [rangeOf, grownLength]
  omega

namespace Alike

theorem grown_bounded (h : Alike files length (first :: more)) :
    ∀ m ∈ first :: more, m.start - leftGrowth files first (first :: more) +
      grownLength files length first (first :: more) ≤ keyCount files m.file := by
  intro m hm
  have hleft : leftGrowth files first (first :: more) ≤ m.start := leftGrowth_le_start hm
  have hwindow := h.bounded m hm
  simp only [grownLength]
  rcases Nat.eq_zero_or_pos (rightGrowth files length first (first :: more)) with hzero | hpos
  · omega
  · have hlast : agreeAfter files first (first :: more)
        (length + rightGrowth files length first (first :: more) - 1) = true :=
      agreeAfter_of_lt_rightGrowth length (by omega) (by omega)
    have hbound := (agreeAfter_iff.mp hlast m hm).1
    omega

/-- All members have the same keys on the whole grown range. -/
theorem grown_sameKeys (h : Alike files length (first :: more)) {k : Nat}
    (hk : k < grownLength files length first (first :: more)) :
    ∀ m ∈ first :: more,
      keyAt files m.file (m.start - leftGrowth files first (first :: more) + k) =
        keyAt files first.file (first.start - leftGrowth files first (first :: more) + k) := by
  intro m hm
  have hleft : leftGrowth files first (first :: more) ≤ m.start := leftGrowth_le_start hm
  have hfirst : leftGrowth files first (first :: more) ≤ first.start :=
    leftGrowth_le_start (by simp)
  simp only [grownLength] at hk
  generalize hL : leftGrowth files first (first :: more) = left at *
  -- a key before the window, in the window, or behind it
  rcases Nat.lt_or_ge k left with hbefore | hin
  · have hagree := agreeBefore_of_le_leftGrowth (by omega : 0 < left - k)
      (by omega : left - k ≤ leftGrowth files first (first :: more))
    have hkeys := (agreeBefore_iff.mp hagree m hm).2.2
    rwa [show m.start - (left - k) = m.start - left + k by omega,
      show first.start - (left - k) = first.start - left + k by omega] at hkeys
  · rw [show m.start - left + k = m.start + (k - left) by omega,
      show first.start - left + k = first.start + (k - left) by omega]
    rcases Nat.lt_or_ge (k - left) length with hwindow | hafter
    · exact h.sameKeys m hm first (by simp) _ hwindow
    · exact (agreeAfter_iff.mp (agreeAfter_of_lt_rightGrowth length hafter (by omega)) m hm).2

theorem ranges_pairwise_le (h : Alike files length (first :: more)) (total : Nat) :
    ((first :: more).map (rangeOf (leftGrowth files first (first :: more)) total)).Pairwise
      fun a b => Member.le a b = true := by
  refine List.pairwise_map.mpr (h.ordered.imp ?_)
  intro a b hab
  rw [Member.le_iff]
  simp only [Window.Before] at hab
  simp only [rangeOf]
  omega

theorem grow_block (h : Alike files length (first :: more)) :
    (grow files length first (first :: more)).block =
      ⟨thin none ((first :: more).map (rangeOf (leftGrowth files first (first :: more))
        (grownLength files length first (first :: more)))),
        grownLength files length first (first :: more)⟩ := by
  have hsort := List.mergeSort_of_pairwise (h.ranges_pairwise_le
    (grownLength files length first (first :: more)))
  rw [← hsort]
  rfl

/-- The range of every member is in the block or starts inside a member of the block that starts
no later. -/
theorem range_covered (h : Alike files length (first :: more)) {w : Window}
    (hw : w ∈ first :: more) {m : Member}
    (hm : m = rangeOf (leftGrowth files first (first :: more))
      (grownLength files length first (first :: more)) w) :
    m ∈ (grow files length first (first :: more)).block.members ∨
      ∃ k ∈ (grow files length first (first :: more)).block.members,
        k.file = m.file ∧ k.start ≤ m.start ∧ m.start ≤ k.stop := by
  rw [h.grow_block]
  subst hm
  have hnone : ∀ k ∈ (none : Option Member), ∀ m ∈ (first :: more).map
      (rangeOf (leftGrowth files first (first :: more))
        (grownLength files length first (first :: more))), Member.le k m = true := by simp
  rcases thin_covers (h.ranges_pairwise_le _) hnone _ (List.mem_map.mpr ⟨w, hw, rfl⟩) with
    hmem | ⟨k, hk | hk, hover⟩
  · exact Or.inl hmem
  · simp at hk
  · exact Or.inr ⟨k, hk, hover⟩

/-- The block of a class repeats the same keys, if thinning leaves two members of it. -/
theorem grow_isDuplicate (h : Alike files length (first :: more)) (hlength : 0 < length)
    (htwo : 2 ≤ (grow files length first (first :: more)).block.members.length) :
    (grow files length first (first :: more)).block.IsDuplicate files := by
  refine ⟨htwo, fun m hm => grow_spans hlength hm, ?_, ?_, grow_pairwise_before hlength⟩
  · intro m hm
    have hspan := grow_spans hlength hm
    obtain ⟨w, hw, rfl⟩ := mem_grow_block hm
    have hbound := h.grown_bounded w hw
    rw [grow_length] at hspan
    simp only [rangeOf] at hspan ⊢
    omega
  · intro m hm n hn k hk
    obtain ⟨v, hv, rfl⟩ := mem_grow_block hm
    obtain ⟨w, hw, rfl⟩ := mem_grow_block hn
    exact (h.grown_sameKeys hk v hv).trans (h.grown_sameKeys hk w hw).symm

end Alike

end Clone

end CloneScan
