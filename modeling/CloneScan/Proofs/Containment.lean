import CloneScan.Clone.Block

/-!
# Containment of blocks

The last pass keeps the blocks that lie inside no block kept before.  It adds nothing, and every
block of its input lies inside a kept one.
-/

namespace CloneScan.Clone

theorem Member.inside_iff {a b : Member} :
    Member.inside a b = true ↔ a.file = b.file ∧ b.start ≤ a.start ∧ a.stop ≤ b.stop := by
  simp [Member.inside, and_assoc]

theorem Block.inside_iff {a b : Block} :
    Block.inside a b = true ↔ a.members.length ≤ b.members.length ∧
      ∀ m ∈ a.members, ∃ n ∈ b.members, Member.inside m n = true := by
  simp [Block.inside]

theorem Block.inside_refl (b : Block) : Block.inside b b = true :=
  Block.inside_iff.mpr
    ⟨Nat.le_refl _, fun m hm => ⟨m, hm, Member.inside_iff.mpr ⟨rfl, Nat.le_refl _, Nat.le_refl _⟩⟩⟩

theorem subset_keepMaximal (kept blocks : List Block) : kept ⊆ keepMaximal kept blocks := by
  fun_induction keepMaximal kept blocks with
  | case1 kept => exact fun _ hb => hb
  | case2 kept b rest hin ih => exact ih
  | case3 kept b rest hout ih => exact fun c hc => ih (List.mem_append_left _ hc)

theorem mem_of_mem_keepMaximal {kept blocks : List Block} {b : Block}
    (hb : b ∈ keepMaximal kept blocks) : b ∈ kept ∨ b ∈ blocks := by
  fun_induction keepMaximal kept blocks with
  | case1 kept => exact Or.inl hb
  | case2 kept c rest hin ih =>
      rcases ih hb with h | h
      · exact Or.inl h
      · exact Or.inr (List.mem_cons_of_mem c h)
  | case3 kept c rest hout ih =>
      rcases ih hb with h | h
      · rcases List.mem_append.mp h with h | h
        · exact Or.inl h
        · exact Or.inr (by simp [List.mem_singleton.mp h])
      · exact Or.inr (List.mem_cons_of_mem c h)

/-- A block is kept, or lies inside a block that is kept before it is looked at. -/
theorem exists_inside_keepMaximal {kept blocks : List Block} {b : Block} (hb : b ∈ blocks) :
    ∃ c ∈ keepMaximal kept blocks, Block.inside b c = true := by
  fun_induction keepMaximal kept blocks with
  | case1 kept => simp at hb
  | case2 kept c rest hin ih =>
      rcases List.mem_cons.mp hb with rfl | hb
      · obtain ⟨d, hd, hinside⟩ := List.any_eq_true.mp hin
        exact ⟨d, subset_keepMaximal kept rest hd, hinside⟩
      · exact ih hb
  | case3 kept c rest hout ih =>
      rcases List.mem_cons.mp hb with rfl | hb
      · exact ⟨b, subset_keepMaximal _ rest (by simp), Block.inside_refl b⟩
      · exact ih hb

theorem mem_of_mem_dropContained {blocks : List Block} {b : Block}
    (hb : b ∈ dropContained blocks) : b ∈ blocks := by
  rcases mem_of_mem_keepMaximal hb with h | h
  · simp at h
  · exact List.mem_mergeSort.mp h

theorem exists_inside_dropContained {blocks : List Block} {b : Block} (hb : b ∈ blocks) :
    ∃ c ∈ dropContained blocks, Block.inside b c = true :=
  exists_inside_keepMaximal (List.mem_mergeSort.mpr hb)

end CloneScan.Clone
