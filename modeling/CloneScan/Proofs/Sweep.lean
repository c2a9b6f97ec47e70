import CloneScan.Proofs.GrownBlock
import Mathlib.Data.List.Perm.Subperm

/-!
# The sweep over the classes

The sweep grows the classes one after the other and skips those that an earlier growth covers.  A
covered class is the class before it, moved by some keys, so it grows to the same block: nothing is
lost, and the blocks of the sweep are exactly those of all classes that keep two members.
-/

namespace CloneScan.Clone

variable {files : Array KeyedFile} {length : Nat} {first : Window} {more members : List Window}

/-! ## Windows inside a grown range -/

/-- The window `k` keys behind the grown start of a member. -/
def windowAt (left k : Nat) (m : Window) : Window :=
  ⟨m.file, m.start - left + k⟩

namespace Alike

theorem map_windowAt_ordered (h : Alike files length (first :: more)) (k : Nat) :
    ((first :: more).map
      (windowAt (leftGrowth files first (first :: more)) k)).Pairwise Window.Before := by
  refine List.pairwise_map.mpr (h.ordered.imp_of_mem ?_)
  intro a b ha hb hab
  have hleftA : leftGrowth files first (first :: more) ≤ a.start := leftGrowth_le_start ha
  simp only [Window.Before, windowAt] at hab ⊢
  omega

theorem windowAt_bounded (h : Alike files length (first :: more)) {k : Nat}
    (hk : k + length ≤ grownLength files length first (first :: more)) :
    ∀ m ∈ first :: more,
      (windowAt (leftGrowth files first (first :: more)) k m).start + length ≤
        keyCount files (windowAt (leftGrowth files first (first :: more)) k m).file := by
  intro m hm
  have hgrown := h.grown_bounded m hm
  simp only [windowAt]
  omega

/-- The windows at one place of the grown ranges hold the same keys. -/
theorem windowKeys_windowAt (h : Alike files length (first :: more)) {k : Nat}
    (hk : k + length ≤ grownLength files length first (first :: more)) :
    ∀ m ∈ first :: more,
      windowKeys files length (windowAt (leftGrowth files first (first :: more)) k m) =
        windowKeys files length (windowAt (leftGrowth files first (first :: more)) k first) := by
  intro m hm
  rw [windowKeys_eq_iff]
  intro j hj
  have hkeys := h.grown_sameKeys (by omega : k + j < _) m hm
  simpa only [windowAt, Nat.add_assoc] using hkeys

/-- A class with a window inside a grown range, and no more members than the grown class, consists
of the windows at that place of the grown ranges. -/
theorem eq_map_windowAt (h : Alike files length (first :: more))
    (hhash : HasWindowHashes files length) (hkeys : HashesFollowKeys files length)
    (hlength : 0 < length) (hmembers : members ∈ classes files length) {k : Nat}
    (hk : k + length ≤ grownLength files length first (first :: more))
    (hfirst : windowAt (leftGrowth files first (first :: more)) k first ∈ members)
    (hcount : members.length = (first :: more).length) :
    members = (first :: more).map (windowAt (leftGrowth files first (first :: more)) k) := by
  have hsubset : (first :: more).map (windowAt (leftGrowth files first (first :: more)) k) ⊆
      members := by
    intro w hw
    obtain ⟨m, hm, rfl⟩ := List.mem_map.mp hw
    obtain ⟨-, p, hp, rfl⟩ := mem_classes_iff.mp hmembers
    obtain ⟨hfirstWindow, hfirstKeys⟩ := mem_windowClass_iff.mp hfirst
    obtain ⟨hash, hwindow⟩ := (exists_mem_windows_iff hhash hlength).mpr
      (h.windowAt_bounded hk m hm)
    have hsame := h.windowKeys_windowAt hk m hm
    have hhashEq := hkeys _ hwindow _ hfirstWindow hsame
    exact mem_windowClass_iff.mpr ⟨hhashEq ▸ hwindow, hsame.trans hfirstKeys⟩
  have hordered := (alike_of_mem_classes hhash hlength hmembers).ordered
  have hperm : ((first :: more).map (windowAt (leftGrowth files first (first :: more)) k)).Perm
      members := by
    have hnodup : ((first :: more).map
        (windowAt (leftGrowth files first (first :: more)) k)).Nodup :=
      (h.map_windowAt_ordered k).imp fun hab heq => (heq ▸ hab).irrefl
    exact (List.subperm_of_subset hnodup hsubset).perm_of_length_le (by simp [hcount])
  exact (hperm.eq_of_pairwise (fun a b _ _ hab hba => absurd hba hab.asymm)
    (h.map_windowAt_ordered k) hordered).symm

theorem map_windowAt (h : Alike files length (first :: more)) {k : Nat}
    (hk : k + length ≤ grownLength files length first (first :: more)) :
    Alike files length
      ((first :: more).map (windowAt (leftGrowth files first (first :: more)) k)) := by
  refine ⟨?_, ?_, h.map_windowAt_ordered k⟩
  · intro w hw
    obtain ⟨m, hm, rfl⟩ := List.mem_map.mp hw
    exact h.windowAt_bounded hk m hm
  · intro v hv w hw
    obtain ⟨m, hm, rfl⟩ := List.mem_map.mp hv
    obtain ⟨n, hn, rfl⟩ := List.mem_map.mp hw
    exact windowKeys_eq_iff.mp
      ((h.windowKeys_windowAt hk m hm).trans (h.windowKeys_windowAt hk n hn).symm)

theorem leftGrowth_windowAt (h : Alike files length (first :: more)) {k : Nat}
    (hk : k + length ≤ grownLength files length first (first :: more)) :
    leftGrowth files (windowAt (leftGrowth files first (first :: more)) k first)
      ((first :: more).map (windowAt (leftGrowth files first (first :: more)) k)) = k := by
  have hstart (m : Window) (hm : m ∈ first :: more) :
      leftGrowth files first (first :: more) ≤ m.start := leftGrowth_le_start hm
  have hstopped : agreeBefore files first (first :: more)
      (leftGrowth files first (first :: more) + 1) = false :=
    not_agreeBefore_leftGrowth (by simp)
  refine leftGrowth_eq (by simp) ?_ ?_
  · intro back hpos hback
    rw [agreeBefore_iff]
    intro w hw
    obtain ⟨m, hm, rfl⟩ := List.mem_map.mp hw
    have hkeys := h.grown_sameKeys (by omega : k - back < _) m hm
    simp only [windowAt]
    rw [Nat.add_sub_assoc hback, Nat.add_sub_assoc hback]
    exact ⟨by omega, by omega, hkeys⟩
  · -- one key further back is one key before the grown range
    by_contra hne
    rw [Bool.not_eq_false, agreeBefore_iff] at hne
    apply Bool.eq_false_iff.mp hstopped
    rw [agreeBefore_iff]
    intro m hm
    obtain ⟨hm₁, hm₂, hkeys⟩ := hne _ (List.mem_map_of_mem hm)
    have hleft := hstart m hm
    have hfirst := hstart first (by simp)
    simp only [windowAt] at hm₁ hm₂ hkeys
    refine ⟨by omega, by omega, ?_⟩
    rwa [show m.start - leftGrowth files first (first :: more) + k - (k + 1) =
        m.start - (leftGrowth files first (first :: more) + 1) by omega,
      show first.start - leftGrowth files first (first :: more) + k - (k + 1) =
        first.start - (leftGrowth files first (first :: more) + 1) by omega] at hkeys

theorem rightGrowth_windowAt (h : Alike files length (first :: more)) {k : Nat}
    (hk : k + length ≤ grownLength files length first (first :: more)) :
    rightGrowth files length (windowAt (leftGrowth files first (first :: more)) k first)
      ((first :: more).map (windowAt (leftGrowth files first (first :: more)) k)) =
        grownLength files length first (first :: more) - (k + length) := by
  have hstart (m : Window) (hm : m ∈ first :: more) :
      leftGrowth files first (first :: more) ≤ m.start := leftGrowth_le_start hm
  have hstopped : agreeAfter files first (first :: more)
      (length + rightGrowth files length first (first :: more)) = false :=
    not_agreeAfter_rightGrowth (by simp)
  refine rightGrowth_eq (by simp) ?_ ?_
  · intro j hj
    rw [agreeAfter_iff]
    intro w hw
    obtain ⟨m, hm, rfl⟩ := List.mem_map.mp hw
    have hkeys := h.grown_sameKeys (by omega : k + (length + j) < _) m hm
    have hbound := h.grown_bounded m hm
    simp only [windowAt]
    rw [Nat.add_assoc, Nat.add_assoc]
    exact ⟨by omega, hkeys⟩
  · -- the key behind the grown range
    by_contra hne
    rw [Bool.not_eq_false, agreeAfter_iff] at hne
    apply Bool.eq_false_iff.mp hstopped
    rw [agreeAfter_iff]
    intro m hm
    obtain ⟨hbound, hkeys⟩ := hne _ (List.mem_map_of_mem hm)
    have hleft := hstart m hm
    have hfirst := hstart first (by simp)
    simp only [windowAt, grownLength] at hbound hkeys hk
    generalize leftGrowth files first (first :: more) = left at *
    generalize rightGrowth files length first (first :: more) = right at *
    rw [show m.start - left + k + (length + (length + left + right - (k + length))) =
      m.start + (length + right) by omega] at hbound hkeys
    rw [show first.start - left + k + (length + (length + left + right - (k + length))) =
      first.start + (length + right) by omega] at hkeys
    exact ⟨hbound, hkeys⟩

/-- The windows at one place of the grown ranges grow to the same block. -/
theorem grow_windowAt (h : Alike files length (first :: more)) {k : Nat}
    (hk : k + length ≤ grownLength files length first (first :: more)) :
    (grow files length (windowAt (leftGrowth files first (first :: more)) k first)
      ((first :: more).map (windowAt (leftGrowth files first (first :: more)) k))).block =
        (grow files length first (first :: more)).block := by
  have hleft := h.leftGrowth_windowAt hk
  have hright := h.rightGrowth_windowAt hk
  have htotal : grownLength files length
      (windowAt (leftGrowth files first (first :: more)) k first)
      ((first :: more).map (windowAt (leftGrowth files first (first :: more)) k)) =
        grownLength files length first (first :: more) := by
    conv_lhs => rw [grownLength]
    rw [hleft, hright]
    omega
  have hblock := (h.map_windowAt hk).grow_block
  rw [← List.map_cons, htotal, hleft] at hblock
  rw [hblock, h.grow_block]
  simp only [List.map_map]
  congr 3
  funext m
  simp [windowAt, rangeOf]

end Alike

/-! ## One step of the sweep -/

/-- The block that a class grows to. -/
def grownBlock (files : Array KeyedFile) (length : Nat) : List Window → Block
  | [] => ⟨[], 0⟩
  | first :: more => (grow files length first (first :: more)).block

theorem grownBlock_isDuplicate (hhash : HasWindowHashes files length) (hlength : 0 < length)
    (hmembers : members ∈ classes files length)
    (htwo : 2 ≤ (grownBlock files length members).members.length) :
    (grownBlock files length members).IsDuplicate files := by
  cases members with
  | nil => simp [grownBlock] at htwo
  | cons first more =>
      exact (alike_of_mem_classes hhash hlength hmembers).grow_isDuplicate hlength htwo

theorem mem_classOf {table : List (List Window)} {w : Window} {i : Nat}
    (h : classOf table w = some i) : ∃ members, table[i]? = some members ∧ w ∈ members := by
  obtain ⟨hlt, hmem, -⟩ := List.findIdx?_eq_some_iff_getElem.mp h
  exact ⟨table[i], List.getElem?_eq_getElem hlt, by simpa using hmem⟩

/-- A class that a growth covers grows to the same block. -/
theorem grownBlock_of_mem_covered (hhash : HasWindowHashes files length)
    (hkeys : HashesFollowKeys files length) (hlength : 0 < length)
    (hgrown : first :: more ∈ classes files length) {i : Nat}
    (hi : i ∈ covered (classes files length) (first :: more) first
      (grow files length first (first :: more)))
    (hmembers : (classes files length)[i]? = some members) :
    grownBlock files length members = grownBlock files length (first :: more) := by
  have halike := alike_of_mem_classes hhash hlength hgrown
  simp only [covered, List.mem_filterMap, List.mem_range] at hi
  obtain ⟨k, hk, hmatch⟩ := hi
  split at hmatch
  · simp at hmatch
  · rename_i other hother
    split at hmatch
    · rename_i hcount
      obtain rfl : other = i := Option.some.inj hmatch
      obtain ⟨found, hfound, hwindow⟩ := mem_classOf hother
      obtain rfl : found = members := Option.some.inj (hfound.symm.trans hmembers)
      have hlen : k + length ≤ grownLength files length first (first :: more) := by
        simp only [grow, grownLength] at hk ⊢
        omega
      have hcount' : found.length = (first :: more).length := by
        simpa [List.getD_eq_getElem?_getD, hmembers] using hcount
      have hmap := halike.eq_map_windowAt hhash hkeys hlength (List.mem_of_getElem? hmembers) hlen
        hwindow hcount'
      rw [hmap]
      exact halike.grow_windowAt hlen
    · simp at hmatch

theorem mem_sweepStep_blocks {table : List (List Window)} {s : Sweep}
    {entry : Nat × List Window} {b : Block}
    (hb : b ∈ (sweepStep files length table s entry).blocks) :
    b ∈ s.blocks ∨ b = grownBlock files length entry.2 ∧ 2 ≤ b.members.length := by
  obtain ⟨i, members⟩ := entry
  cases members with
  | nil => exact Or.inl hb
  | cons first more =>
      simp only [sweepStep] at hb
      split at hb
      · exact Or.inl hb
      · split at hb
        · rename_i hnew
          rcases List.mem_append.mp hb with hb | hb
          · exact Or.inl hb
          · obtain rfl := List.mem_singleton.mp hb
            simp only [Bool.and_eq_true, decide_eq_true_eq] at hnew
            exact Or.inr ⟨rfl, hnew.1⟩
        · exact Or.inl hb

theorem subset_sweepStep_blocks (files : Array KeyedFile) (length : Nat)
    (table : List (List Window)) (s : Sweep) (entry : Nat × List Window) :
    s.blocks ⊆ (sweepStep files length table s entry).blocks := by
  obtain ⟨i, members⟩ := entry
  intro b hb
  cases members with
  | nil => exact hb
  | cons first more =>
      simp only [sweepStep]
      split
      · exact hb
      · split
        · exact List.mem_append_left _ hb
        · exact hb

theorem mem_sweepStep_done {table : List (List Window)} {s : Sweep} {entry : Nat × List Window}
    {i : Nat} (hi : i ∈ (sweepStep files length table s entry).done) :
    i ∈ s.done ∨ ∃ first more, entry.2 = first :: more ∧
      i ∈ covered table (first :: more) first (grow files length first (first :: more)) := by
  obtain ⟨j, members⟩ := entry
  cases members with
  | nil => exact Or.inl hi
  | cons first more =>
      simp only [sweepStep] at hi
      split at hi
      · exact Or.inl hi
      · have hi' : i ∈ covered table (first :: more) first
            (grow files length first (first :: more)) ++ s.done := by
          split at hi <;> exact hi
        rcases List.mem_append.mp hi' with hi' | hi'
        · exact Or.inr ⟨first, more, rfl, hi'⟩
        · exact Or.inl hi'

/-- After its step, a class that was not skipped has its members among the blocks. -/
theorem sweepStep_members (table : List (List Window)) {s : Sweep} {i : Nat}
    (hi : i ∉ s.done) (htwo : 2 ≤ (grownBlock files length members).members.length) :
    ∃ b ∈ (sweepStep files length table s (i, members)).blocks,
      b.members = (grownBlock files length members).members := by
  cases members with
  | nil => simp [grownBlock] at htwo
  | cons first more =>
      simp only [grownBlock] at htwo ⊢
      simp only [sweepStep, List.contains_iff_mem, hi, if_false]
      split
      · exact ⟨_, List.mem_append_right _ (List.mem_singleton_self _), rfl⟩
      · rename_i hold
        simpa [htwo] using hold

/-! ## The whole sweep -/

/-- The block of a class is among the blocks, unless thinning leaves less than two members. -/
def Settled (files : Array KeyedFile) (length : Nat) (blocks : List Block)
    (members : List Window) : Prop :=
  2 ≤ (grownBlock files length members).members.length → grownBlock files length members ∈ blocks

/-- Every block is the block of a class and has two members or more. -/
def OfClasses (files : Array KeyedFile) (length : Nat) (blocks : List Block) : Prop :=
  ∀ b ∈ blocks,
    2 ≤ b.members.length ∧ ∃ members ∈ classes files length, b = grownBlock files length members

theorem OfClasses.sweepStep {s : Sweep} (h : OfClasses files length s.blocks)
    (table : List (List Window)) {entry : Nat × List Window}
    (hentry : entry.2 ∈ classes files length) :
    OfClasses files length (sweepStep files length table s entry).blocks := by
  intro b hb
  rcases mem_sweepStep_blocks hb with hold | ⟨rfl, htwo⟩
  · exact h b hold
  · exact ⟨htwo, entry.2, hentry, rfl⟩

/-- What the sweep keeps true: its blocks are blocks of classes, and the classes that were grown or
covered so far are settled. -/
structure SweepInvariant (files : Array KeyedFile) (length : Nat) (s : Sweep)
    (swept : List (Nat × List Window)) : Prop where
  ofClasses : OfClasses files length s.blocks
  done : ∀ i ∈ s.done, ∀ members, (classes files length)[i]? = some members →
    Settled files length s.blocks members
  swept : ∀ e ∈ swept, Settled files length s.blocks e.2

theorem SweepInvariant.sweepStep {s : Sweep} {swept : List (Nat × List Window)}
    (hinv : SweepInvariant files length s swept) (hhash : HasWindowHashes files length)
    (hkeys : HashesFollowKeys files length) (hlength : 0 < length)
    {entry : Nat × List Window} (hentry : (classes files length)[entry.1]? = some entry.2) :
    SweepInvariant files length (sweepStep files length (classes files length) s entry)
      (entry :: swept) := by
  have hclass : entry.2 ∈ classes files length := List.mem_of_getElem? hentry
  have hsound := hinv.ofClasses.sweepStep (classes files length) hclass
  have hsubset := subset_sweepStep_blocks files length (classes files length) s entry
  -- the grown class itself is settled, whether it was skipped, new or there before
  have hself : Settled files length
      (Clone.sweepStep files length (classes files length) s entry).blocks entry.2 := by
    intro htwo
    by_cases hskip : entry.1 ∈ s.done
    · exact hsubset (hinv.done _ hskip _ hentry htwo)
    · obtain ⟨b, hb, hmembers⟩ := sweepStep_members (classes files length) hskip htwo
      obtain ⟨hbtwo, other, hother, rfl⟩ := hsound b hb
      have heq := (grownBlock_isDuplicate hhash hlength hother hbtwo).eq_of_members
        (grownBlock_isDuplicate hhash hlength hclass htwo) hmembers
      rwa [heq] at hb
  refine ⟨hsound, ?_, ?_⟩
  · intro i hi members hmembers
    rcases mem_sweepStep_done hi with hold | ⟨first, more, hfirst, hcovered⟩
    · exact fun htwo => hsubset (hinv.done i hold members hmembers htwo)
    · have hgrown := hclass
      rw [hfirst] at hgrown hself
      have heq := grownBlock_of_mem_covered hhash hkeys hlength hgrown hcovered hmembers
      simpa only [Settled, heq] using hself
  · intro e he
    rcases List.mem_cons.mp he with rfl | he
    · exact hself
    · exact fun htwo => hsubset (hinv.swept e he htwo)

theorem SweepInvariant.foldl {s : Sweep} {swept order : List (Nat × List Window)}
    (hinv : SweepInvariant files length s swept) (hhash : HasWindowHashes files length)
    (hkeys : HashesFollowKeys files length) (hlength : 0 < length)
    (horder : ∀ e ∈ order, (classes files length)[e.1]? = some e.2) :
    SweepInvariant files length
      (order.foldl (Clone.sweepStep files length (classes files length)) s)
      (order.reverse ++ swept) := by
  induction order generalizing s swept with
  | nil => simpa using hinv
  | cons e order ih =>
      have hstep := hinv.sweepStep hhash hkeys hlength (horder e (by simp))
      simpa using ih hstep fun e' he' => horder e' (by simp [he'])

theorem OfClasses.foldl {s : Sweep} {order : List (Nat × List Window)}
    (h : OfClasses files length s.blocks) (table : List (List Window))
    (horder : ∀ e ∈ order, e.2 ∈ classes files length) :
    OfClasses files length (order.foldl (Clone.sweepStep files length table) s).blocks := by
  induction order generalizing s with
  | nil => exact h
  | cons e order ih =>
      exact ih (h.sweepStep table (horder e (by simp))) fun e' he' => horder e' (by simp [he'])

theorem mem_order_iff {e : Nat × List Window} :
    e ∈ ((classes files length).mapIdx fun i members => (i, members)).mergeSort classLe ↔
      (classes files length)[e.1]? = some e.2 := by
  rw [List.mem_mergeSort, List.mem_mapIdx]
  constructor
  · rintro ⟨i, hi, rfl⟩
    exact List.getElem?_eq_getElem hi
  · intro h
    obtain ⟨hi, heq⟩ := List.getElem?_eq_some_iff.mp h
    exact ⟨e.1, hi, Prod.ext rfl heq⟩

/-- Whatever the hashes are, a block of the sweep is the block of a class. -/
theorem ofClasses_grownBlocks (files : Array KeyedFile) (length : Nat) :
    OfClasses files length (grownBlocks files length) := by
  have hstart : OfClasses files length (⟨[], []⟩ : Sweep).blocks := by simp [OfClasses]
  exact hstart.foldl _ fun e he => List.mem_of_getElem? (mem_order_iff.mp he)

/-- When the keys decide the hashes, the sweep finds the block of every class. -/
theorem mem_grownBlocks_iff (hhash : HasWindowHashes files length)
    (hkeys : HashesFollowKeys files length) (hlength : 0 < length) {b : Block} :
    b ∈ grownBlocks files length ↔ 2 ≤ b.members.length ∧
      ∃ members ∈ classes files length, b = grownBlock files length members := by
  constructor
  · exact ofClasses_grownBlocks files length b
  · rintro ⟨htwo, members, hmembers, rfl⟩
    have hstart : SweepInvariant files length ⟨[], []⟩ [] := ⟨by simp [OfClasses], by simp, by simp⟩
    have hinv := hstart.foldl hhash hkeys hlength fun e he => mem_order_iff.mp he
    obtain ⟨i, hi, heq⟩ := List.mem_iff_getElem.mp hmembers
    refine hinv.swept (i, members) ?_ htwo
    rw [List.append_nil, List.mem_reverse, mem_order_iff]
    exact List.getElem?_eq_some_iff.mpr ⟨hi, heq⟩

end CloneScan.Clone
