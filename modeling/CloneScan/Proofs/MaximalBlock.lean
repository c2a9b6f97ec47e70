import CloneScan.Proofs.Containment
import Mathlib.Data.List.Perm.Subperm

/-!
# Blocks that lie inside no other one

The containment pass takes longer blocks first, and among equally long ones those with more
members.  A block never lies inside a shorter one or one with fewer members, and between equally
long blocks with equally many members containment means that the members are the same.  So a
container has been judged before what it contains, and the pass keeps one copy of each block that
is maximal under containment and nothing else.
-/

namespace CloneScan

/-- Two or more ranges of one positive length that share no key. -/
structure Block.IsProper (b : Block) : Prop where
  two_le : 2 ≤ b.members.length
  pos : 0 < b.length
  spans : ∀ m ∈ b.members, m.start + b.length = m.stop + 1
  disjoint : b.members.Pairwise fun m n =>
    m.file = n.file → m.stop < n.start ∨ n.stop < m.start

namespace Clone

variable {a b c : Block} {blocks : List Block}

/-! ## Containment as an order -/

theorem Block.inside_trans (hab : Block.inside a b = true) (hbc : Block.inside b c = true) :
    Block.inside a c = true := by
  obtain ⟨hcountAB, hmembersAB⟩ := Block.inside_iff.mp hab
  obtain ⟨hcountBC, hmembersBC⟩ := Block.inside_iff.mp hbc
  refine Block.inside_iff.mpr ⟨Nat.le_trans hcountAB hcountBC, ?_⟩
  intro m hm
  obtain ⟨n, hn, hmn⟩ := hmembersAB m hm
  obtain ⟨o, ho, hno⟩ := hmembersBC n hn
  rw [Member.inside_iff] at hmn hno
  refine ⟨o, ho, Member.inside_iff.mpr ?_⟩
  omega

theorem Block.inside_of_perm (h : a.members.Perm b.members) : Block.inside a b = true := by
  refine Block.inside_iff.mpr ⟨Nat.le_of_eq h.length_eq, ?_⟩
  intro m hm
  exact ⟨m, h.mem_iff.mp hm, Member.inside_iff.mpr ⟨rfl, Nat.le_refl _, Nat.le_refl _⟩⟩

theorem nodup_members (h : b.IsProper) : b.members.Nodup := by
  refine h.disjoint.imp_of_mem ?_
  intro m n hm hn hmn heq
  have hspan := h.spans m hm
  have hpos := h.pos
  subst heq
  have hapart := hmn rfl
  omega

theorem length_le_of_inside (ha : a.IsProper) (hb : b.IsProper)
    (hab : Block.inside a b = true) : a.length ≤ b.length := by
  have htwo := ha.two_le
  obtain ⟨m, hm⟩ := List.exists_mem_of_length_pos (by omega : 0 < a.members.length)
  obtain ⟨n, hn, hmn⟩ := (Block.inside_iff.mp hab).2 m hm
  have hspanM := ha.spans m hm
  have hspanN := hb.spans n hn
  rw [Member.inside_iff] at hmn
  omega

theorem members_subset_of_inside (ha : a.IsProper) (hb : b.IsProper)
    (hlength : a.length = b.length) (hab : Block.inside a b = true) :
    a.members ⊆ b.members := by
  intro m hm
  obtain ⟨n, hn, hmn⟩ := (Block.inside_iff.mp hab).2 m hm
  have hspanM := ha.spans m hm
  have hspanN := hb.spans n hn
  rw [Member.inside_iff] at hmn
  -- a range inside another one of the same length is that range
  obtain rfl : m = n := by
    obtain ⟨file, start, stop⟩ := m
    obtain ⟨file', start', stop'⟩ := n
    simp only [Member.mk.injEq] at *
    omega
  exact hn

theorem perm_of_inside (ha : a.IsProper) (hb : b.IsProper) (hlength : a.length = b.length)
    (hcount : b.members.length ≤ a.members.length) (hab : Block.inside a b = true) :
    a.members.Perm b.members := by
  have hsubset := members_subset_of_inside ha hb hlength hab
  exact (List.subperm_of_subset (nodup_members ha) hsubset).perm_of_length_le hcount

theorem perm_of_inside_of_inside (ha : a.IsProper) (hb : b.IsProper)
    (hab : Block.inside a b = true) (hba : Block.inside b a = true) :
    a.members.Perm b.members := by
  have hlengthAB := length_le_of_inside ha hb hab
  have hlengthBA := length_le_of_inside hb ha hba
  have hcount := (Block.inside_iff.mp hba).1
  exact perm_of_inside ha hb (by omega) hcount hab

/-! ## The order of the pass -/

theorem Block.le_iff :
    Block.le a b = true ↔ b.length < a.length ∨
      a.length = b.length ∧ b.members.length ≤ a.members.length := by
  simp [Block.le]

theorem Block.le_trans (a b c : Block) (hab : Block.le a b = true) (hbc : Block.le b c = true) :
    Block.le a c = true := by
  rw [Block.le_iff] at *
  omega

theorem Block.le_total (a b : Block) : (Block.le a b || Block.le b a) = true := by
  rw [Bool.or_eq_true, Block.le_iff, Block.le_iff]
  omega

/-- A block that comes first lies inside a later one only when both have the same members. -/
theorem inside_of_le_of_inside (ha : a.IsProper) (hb : b.IsProper)
    (hle : Block.le a b = true) (hab : Block.inside a b = true) : Block.inside b a = true := by
  have hlength := length_le_of_inside ha hb hab
  have hcount := (Block.inside_iff.mp hab).1
  rw [Block.le_iff] at hle
  have hperm := perm_of_inside ha hb (by omega) (by omega) hab
  exact Block.inside_of_perm hperm.symm

/-! ## What the pass keeps -/

theorem keepMaximal_eq_append (kept blocks : List Block) :
    ∃ more, keepMaximal kept blocks = kept ++ more ∧ more.Sublist blocks := by
  fun_induction keepMaximal kept blocks with
  | case1 kept => exact ⟨[], by simp, List.Sublist.refl _⟩
  | case2 kept b rest hin ih =>
      obtain ⟨more, heq, hsub⟩ := ih
      exact ⟨more, heq, hsub.cons b⟩
  | case3 kept b rest hout ih =>
      obtain ⟨more, heq, hsub⟩ := ih
      exact ⟨b :: more, by simp [heq], hsub.cons_cons b⟩

theorem keepMaximal_pairwise {kept : List Block} (blocks : List Block)
    (hkept : kept.Pairwise fun a b => ¬ Block.inside b a = true) :
    (keepMaximal kept blocks).Pairwise fun a b => ¬ Block.inside b a = true := by
  fun_induction keepMaximal kept blocks with
  | case1 kept => exact hkept
  | case2 kept b rest hin ih => exact ih hkept
  | case3 kept b rest hout ih =>
      apply ih
      refine List.pairwise_append.mpr ⟨hkept, by simp, ?_⟩
      intro a ha b' hb' hinside
      obtain rfl := List.mem_singleton.mp hb'
      exact hout (List.any_eq_true.mpr ⟨a, ha, hinside⟩)

theorem dropContained_pairwise_le (blocks : List Block) :
    (dropContained blocks).Pairwise fun a b => Block.le a b = true := by
  obtain ⟨more, heq, hsub⟩ := keepMaximal_eq_append [] (blocks.mergeSort Block.le)
  have hsorted := List.pairwise_mergeSort Block.le_trans Block.le_total blocks
  rw [dropContained, heq, List.nil_append]
  exact hsorted.sublist hsub

theorem dropContained_pairwise (hproper : ∀ b ∈ blocks, b.IsProper) :
    (dropContained blocks).Pairwise fun a b =>
      ¬ Block.inside a b = true ∧ ¬ Block.inside b a = true := by
  have hlater : (dropContained blocks).Pairwise fun a b => ¬ Block.inside b a = true :=
    keepMaximal_pairwise _ List.Pairwise.nil
  refine (hlater.and (dropContained_pairwise_le blocks)).imp_of_mem ?_
  rintro a b ha hb ⟨hba, hle⟩
  have hproperA := hproper a (mem_of_mem_dropContained ha)
  have hproperB := hproper b (mem_of_mem_dropContained hb)
  exact ⟨fun hab => hba (inside_of_le_of_inside hproperA hproperB hle hab), hba⟩

theorem exists_split_dropContained (hproper : ∀ b ∈ blocks, b.IsProper)
    (hb : b ∈ dropContained blocks) :
    ∃ before after, dropContained blocks = before ++ b :: after ∧
      ∀ c ∈ before ++ after, ¬ Block.inside b c = true ∧ ¬ Block.inside c b = true := by
  obtain ⟨before, after, hsplit⟩ := List.append_of_mem hb
  have hpair := dropContained_pairwise hproper
  rw [hsplit] at hpair
  obtain ⟨-, hrest, hcross⟩ := List.pairwise_append.mp hpair
  obtain ⟨hafter, -⟩ := List.pairwise_cons.mp hrest
  refine ⟨before, after, hsplit, ?_⟩
  intro c hc
  rcases List.mem_append.mp hc with hc | hc
  · exact (hcross c hc b List.mem_cons_self).symm
  · exact hafter c hc

/-- Every block of the list that contains `b` lies inside `b` as well. -/
def IsMaximal (blocks : List Block) (b : Block) : Prop :=
  ∀ c ∈ blocks, Block.inside b c = true → Block.inside c b = true

theorem isMaximal_of_mem_dropContained (hproper : ∀ b ∈ blocks, b.IsProper)
    (hb : b ∈ dropContained blocks) : IsMaximal blocks b := by
  intro c hc hbc
  obtain ⟨d, hd, hcd⟩ := exists_inside_dropContained hc
  have hbd := Block.inside_trans hbc hcd
  obtain ⟨before, after, hsplit, hapart⟩ := exists_split_dropContained hproper hb
  rw [hsplit] at hd
  rcases List.mem_append.mp hd with hd | hd
  · exact absurd hbd (hapart d (List.mem_append_left _ hd)).1
  · rcases List.mem_cons.mp hd with rfl | hd
    · exact hcd
    · exact absurd hbd (hapart d (List.mem_append_right _ hd)).1

theorem countP_dropContained_of_isMaximal (hproper : ∀ b ∈ blocks, b.IsProper) (hb : b ∈ blocks)
    (hmax : IsMaximal blocks b) :
    (dropContained blocks).countP (fun c => decide (c.members.Perm b.members)) = 1 := by
  -- the kept container of `b` has the members of `b`, and no other kept block has them
  obtain ⟨d, hd, hbd⟩ := exists_inside_dropContained hb
  have hdmem := mem_of_mem_dropContained hd
  have hperm := perm_of_inside_of_inside (hproper d hdmem) (hproper b hb) (hmax d hdmem hbd) hbd
  obtain ⟨before, after, hsplit, hapart⟩ := exists_split_dropContained hproper hd
  have hother : ∀ c ∈ before ++ after, ¬ decide (c.members.Perm b.members) = true := by
    intro c hc hcb
    have hcd := (of_decide_eq_true hcb).trans hperm.symm
    exact (hapart c hc).2 (Block.inside_of_perm hcd)
  have hbefore := List.countP_eq_zero.mpr fun c hc => hother c (List.mem_append_left _ hc)
  have hafter := List.countP_eq_zero.mpr fun c hc => hother c (List.mem_append_right _ hc)
  rw [hsplit, List.countP_append, List.countP_cons, hbefore, hafter]
  simp [hperm]

/-! ## The search by file

A container has a member in the file of the first member of what it contains.  So it is enough to
look at the kept blocks that are listed under that file. -/

/-- The kept blocks by the files of their members. -/
abbrev FileIndex := Nat → List Block

/-- Lists a block under each file in which it has a member. -/
def FileIndex.insert (index : FileIndex) (b : Block) : FileIndex := fun file =>
  if b.members.any fun m => m.file == file then index file ++ [b] else index file

/-- The pass that looks a block up under the file of its first member. -/
def keepMaximalByFile (index : FileIndex) (kept : List Block) : List Block → List Block
  | [] => kept
  | b :: rest =>
    let candidates :=
      match b.members with
      | [] => []
      | first :: _ => index first.file
    if candidates.any (Block.inside b) then keepMaximalByFile index kept rest
    else keepMaximalByFile (FileIndex.insert index b) (kept ++ [b]) rest

/-- The containment pass with the index by file. -/
def dropContainedByFile (blocks : List Block) : List Block :=
  keepMaximalByFile (fun _ => []) [] (blocks.mergeSort Block.le)

/-- The index lists the kept blocks under each of their files. -/
def Lists (index : FileIndex) (kept : List Block) : Prop :=
  ∀ file, index file = kept.filter fun c => c.members.any fun m => m.file == file

theorem Lists.insert {index : FileIndex} {kept : List Block} (h : Lists index kept) (b : Block) :
    Lists (FileIndex.insert index b) (kept ++ [b]) := by
  intro file
  rw [FileIndex.insert, List.filter_append, h file]
  by_cases hfile : (b.members.any fun m => m.file == file) = true
  · simp [hfile]
  · simp [hfile]

theorem Lists.any_inside {index : FileIndex} {kept : List Block} (h : Lists index kept)
    {first : Member} {more : List Member} (hb : b.members = first :: more) :
    (index first.file).any (Block.inside b) = kept.any (Block.inside b) := by
  rw [Bool.eq_iff_iff, List.any_eq_true, List.any_eq_true, h first.file]
  constructor
  · rintro ⟨c, hc, hbc⟩
    exact ⟨c, (List.mem_filter.mp hc).1, hbc⟩
  · rintro ⟨c, hc, hbc⟩
    obtain ⟨n, hn, hinside⟩ := (Block.inside_iff.mp hbc).2 first (by simp [hb])
    have hfile := (Member.inside_iff.mp hinside).1
    refine ⟨c, List.mem_filter.mpr ⟨hc, ?_⟩, hbc⟩
    exact List.any_eq_true.mpr ⟨n, hn, beq_iff_eq.mpr hfile.symm⟩

theorem keepMaximalByFile_eq {index : FileIndex} {kept : List Block} (h : Lists index kept)
    (hne : ∀ b ∈ blocks, b.members ≠ []) :
    keepMaximalByFile index kept blocks = keepMaximal kept blocks := by
  induction blocks generalizing index kept with
  | nil => rfl
  | cons b rest ih =>
      obtain ⟨first, more, hb⟩ := List.exists_cons_of_ne_nil (hne b List.mem_cons_self)
      have hrest : ∀ c ∈ rest, c.members ≠ [] := fun c hc => hne c (List.mem_cons_of_mem b hc)
      have hany := h.any_inside hb
      simp only [keepMaximalByFile, keepMaximal, hb, hany]
      split
      · exact ih h hrest
      · exact ih (h.insert b) hrest

theorem dropContainedByFile_eq (hne : ∀ b ∈ blocks, b.members ≠ []) :
    dropContainedByFile blocks = dropContained blocks := by
  apply keepMaximalByFile_eq
  · intro file
    rfl
  · intro b hb
    exact hne b (List.mem_mergeSort.mp hb)

end Clone

end CloneScan
