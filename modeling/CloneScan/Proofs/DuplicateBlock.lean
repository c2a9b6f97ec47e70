import CloneScan.Proofs.Containment
import CloneScan.Proofs.Sweep

/-!
# The blocks of the search

Every block that the search returns repeats the same keys, whatever the hashes are.  When the keys
decide the hashes, two equal windows of different files end up inside one returned block, and the
places where the keys of a grown block stand are exactly the grown ranges of its class: the block
can only be longer at all of its members when thinning left a copy out that disagrees.
-/

namespace CloneScan

theorem Block.IsDuplicate.filter {files : Array KeyedFile} {b : Block} (h : b.IsDuplicate files)
    {keep : Member → Bool} (htwo : 2 ≤ (b.members.filter keep).length) :
    ({ b with members := b.members.filter keep } : Block).IsDuplicate files := by
  have hsubset : ∀ m ∈ b.members.filter keep, m ∈ b.members := fun m hm => List.mem_of_mem_filter hm
  exact ⟨htwo, fun m hm => h.spans m (hsubset m hm), fun m hm => h.bounded m (hsubset m hm),
    fun m hm n hn => h.sameKeys m (hsubset m hm) n (hsubset n hn), h.ordered.filter _⟩

/-- A range of a file that holds the keys of a block. -/
structure Block.IsCopy (files : Array KeyedFile) (b : Block) (m : Member) : Prop where
  span : m.start + b.length = m.stop + 1
  bounded : m.stop < Clone.keyCount files m.file
  sameKeys : ∀ n ∈ b.members, ∀ k < b.length,
    Clone.keyAt files m.file (m.start + k) = Clone.keyAt files n.file (n.start + k)

namespace Clone

variable {files : Array KeyedFile} {length : Nat} {first : Window} {more : List Window}

/-! ## What is returned -/

/-- The grown blocks with the members that `keep` accepts, as far as two of them are left. -/
def acceptedBlocks (files : Array KeyedFile) (length : Nat) (keep : Member → Bool) : List Block :=
  (grownBlocks files length).filterMap fun b =>
    let members := b.members.filter keep
    if 2 ≤ members.length then some { b with members } else none

theorem findBlocks_eq (hlength : 0 < length) (keep : Member → Bool) :
    findBlocks files length keep = dropContained (acceptedBlocks files length keep) := by
  simp [findBlocks, acceptedBlocks, Nat.ne_of_gt hlength]

theorem mem_acceptedBlocks {keep : Member → Bool} {b : Block}
    (hb : b ∈ acceptedBlocks files length keep) :
    2 ≤ b.members.length ∧ ∃ g ∈ grownBlocks files length,
      b = { g with members := g.members.filter keep } := by
  obtain ⟨g, hg, haccepted⟩ := List.mem_filterMap.mp hb
  dsimp only at haccepted
  split at haccepted
  · rename_i htwo
    obtain rfl := Option.some.inj haccepted
    exact ⟨htwo, g, hg, rfl⟩
  · simp at haccepted

theorem mem_findBlocks {keep : Member → Bool} {b : Block} (hb : b ∈ findBlocks files length keep) :
    2 ≤ b.members.length ∧ ∃ g ∈ grownBlocks files length,
      b = { g with members := g.members.filter keep } := by
  rcases Nat.eq_zero_or_pos length with rfl | hlength
  · simp [findBlocks] at hb
  · rw [findBlocks_eq hlength] at hb
    exact mem_acceptedBlocks (mem_of_mem_dropContained hb)

theorem mem_findBlocks_true {b : Block} (hb : b ∈ findBlocks files length fun _ => true) :
    b ∈ grownBlocks files length := by
  obtain ⟨-, g, hg, rfl⟩ := mem_findBlocks hb
  simpa using hg

/-- A grown block lies inside a returned one when nothing is rejected. -/
theorem exists_inside_findBlocks (hlength : 0 < length) {g : Block}
    (hg : g ∈ grownBlocks files length) :
    ∃ b ∈ findBlocks files length (fun _ => true), Block.inside g b = true := by
  have htwo := (ofClasses_grownBlocks files length g hg).1
  rw [findBlocks_eq hlength]
  apply exists_inside_dropContained
  exact List.mem_filterMap.mpr ⟨g, hg, by simp [htwo]⟩

/-- A grown block is that of a class, and it repeats the same keys. -/
theorem exists_class_of_mem_grownBlocks (hhash : HasWindowHashes files length)
    (hlength : 0 < length) {b : Block} (hb : b ∈ grownBlocks files length) :
    ∃ first more, first :: more ∈ classes files length ∧
      b = grownBlock files length (first :: more) ∧ b.IsDuplicate files := by
  obtain ⟨htwo, members, hclass, rfl⟩ := ofClasses_grownBlocks files length b hb
  have hdup := grownBlock_isDuplicate hhash hlength hclass htwo
  cases members with
  | nil => simp [grownBlock] at htwo
  | cons first more => exact ⟨first, more, hclass, rfl, hdup⟩

theorem length_le_grownBlock :
    length ≤ (grownBlock files length (first :: more)).length := by
  rw [grownBlock, grow_length, grownLength]
  omega

/-- Every returned block repeats the same keys at members that `keep` accepts. -/
theorem findBlocks_sound (hhash : HasWindowHashes files length) (hlength : 0 < length)
    {keep : Member → Bool} {b : Block} (hb : b ∈ findBlocks files length keep) :
    b.IsDuplicate files ∧ length ≤ b.length ∧ ∀ m ∈ b.members, keep m = true := by
  obtain ⟨htwo, g, hg, rfl⟩ := mem_findBlocks hb
  obtain ⟨first, more, hclass, rfl, hdup⟩ := exists_class_of_mem_grownBlocks hhash hlength hg
  exact ⟨hdup.filter htwo, length_le_grownBlock,
    fun m hm => (List.mem_filter.mp hm).2⟩

/-! ## The windows of a class in its block -/

theorem Alike.grownBlock_mem_file (h : Alike files length (first :: more)) {w : Window}
    (hw : w ∈ first :: more) :
    ∃ m ∈ (grownBlock files length (first :: more)).members, m.file = w.file := by
  rcases h.range_covered hw rfl with hmem | ⟨k, hk, hfile, -, -⟩
  · exact ⟨_, hmem, rfl⟩
  · exact ⟨k, hk, hfile⟩

/-- The keys of every window of a class stand in every member of the block, behind the growth to
the left. -/
theorem Alike.grownBlock_windowKeys (h : Alike files length (first :: more)) {m : Member}
    (hm : m ∈ (grownBlock files length (first :: more)).members) :
    ∃ left, m.start + left + length ≤ m.stop + 1 ∧ ∀ w ∈ first :: more, ∀ k < length,
      keyAt files m.file (m.start + left + k) = keyAt files w.file (w.start + k) := by
  obtain ⟨v, hv, rfl⟩ := mem_grow_block hm
  have hleft : leftGrowth files first (first :: more) ≤ v.start := leftGrowth_le_start hv
  refine ⟨leftGrowth files first (first :: more), ?_, ?_⟩
  · simp only [rangeOf, grownLength]
    omega
  · intro w hw k hk
    simp only [rangeOf]
    rw [Nat.sub_add_cancel hleft]
    exact h.sameKeys v hv w hw k hk

theorem two_le_length_of_ne {α : Type} {l : List α} {a b : α} (ha : a ∈ l) (hb : b ∈ l)
    (hab : a ≠ b) : 2 ≤ l.length := by
  match l with
  | [] => simp at ha
  | [c] =>
      simp only [List.mem_singleton] at ha hb
      exact absurd (ha.trans hb.symm) hab
  | _ :: _ :: _ => simp

/-- Two windows with the same keys are in one class. -/
theorem exists_class_of_sameKeys (hhash : HasWindowHashes files length)
    (hkeys : HashesFollowKeys files length) (hlength : 0 < length) {v w : Window} (hne : v ≠ w)
    (hv : v.start + length ≤ keyCount files v.file) (hw : w.start + length ≤ keyCount files w.file)
    (hsame : windowKeys files length v = windowKeys files length w) :
    ∃ members ∈ classes files length, v ∈ members ∧ w ∈ members := by
  obtain ⟨hash, hv⟩ := (exists_mem_windows_iff hhash hlength).mpr hv
  obtain ⟨hash', hw⟩ := (exists_mem_windows_iff hhash hlength).mpr hw
  have heq : hash = hash' := hkeys _ hv _ hw hsame
  have hvmem : v ∈ windowClass files length (v, hash) := mem_windowClass_iff.mpr ⟨hv, rfl⟩
  have hwmem : w ∈ windowClass files length (v, hash) :=
    mem_windowClass_iff.mpr ⟨heq ▸ hw, hsame.symm⟩
  exact ⟨_, mem_classes_iff.mpr ⟨two_le_length_of_ne hvmem hwmem hne, _, hv, rfl⟩, hvmem, hwmem⟩

/-- The grown range of a window starts inside a member of the block that starts no later. -/
theorem Alike.exists_member_over (h : Alike files length (first :: more)) (hlength : 0 < length)
    {w : Window} (hw : w ∈ first :: more) :
    ∃ m ∈ (grownBlock files length (first :: more)).members, m.file = w.file ∧
      m.start + leftGrowth files first (first :: more) ≤ w.start ∧
        w.start ≤ m.stop + leftGrowth files first (first :: more) := by
  have hleft : leftGrowth files first (first :: more) ≤ w.start := leftGrowth_le_start hw
  rcases h.range_covered hw rfl with hmem | ⟨m, hm, hfile, hstart, hstop⟩
  · refine ⟨_, hmem, rfl, ?_, ?_⟩
    · simp only [rangeOf]
      omega
    · simp only [rangeOf, grownLength]
      omega
  · simp only [rangeOf] at hfile hstart hstop
    exact ⟨m, hm, hfile, by omega, by omega⟩

/-- A class keeps two members when two of its grown ranges share no key. -/
theorem Alike.two_le_grownBlock (h : Alike files length (first :: more)) (hlength : 0 < length)
    {v w : Window} (hv : v ∈ first :: more) (hw : w ∈ first :: more)
    (hapart : v.file = w.file →
      v.start + grownLength files length first (first :: more) ≤ w.start) :
    2 ≤ (grownBlock files length (first :: more)).members.length := by
  obtain ⟨p, hp, hpfile, hpstart, -⟩ := h.exists_member_over hlength hv
  obtain ⟨q, hq, hqfile, -, hqstop⟩ := h.exists_member_over hlength hw
  refine two_le_length_of_ne hp hq ?_
  rintro rfl
  have hfar := hapart (hpfile.symm.trans hqfile)
  obtain ⟨u, -, rfl⟩ := mem_grow_block hp
  simp only [rangeOf] at hpstart hqstop
  simp only [grownLength] at hqstop hfar
  omega

/-- A window of a class that keeps two members stands inside a returned block, which has a member in
the file of every window of the class. -/
theorem exists_findBlocks_of_class (hhash : HasWindowHashes files length)
    (hkeys : HashesFollowKeys files length) (hlength : 0 < length)
    (hclass : first :: more ∈ classes files length)
    (htwo : 2 ≤ (grownBlock files length (first :: more)).members.length) {v : Window}
    (hv : v ∈ first :: more) :
    ∃ b ∈ findBlocks files length (fun _ => true),
      (∀ w ∈ first :: more, ∃ m ∈ b.members, m.file = w.file) ∧
        ∃ m ∈ b.members, ∃ start, m.start ≤ start ∧ start + length ≤ m.stop + 1 ∧
          ∀ k < length, keyAt files m.file (start + k) = keyAt files v.file (v.start + k) := by
  have halike := alike_of_mem_classes hhash hlength hclass
  have hgrown : grownBlock files length (first :: more) ∈ grownBlocks files length :=
    (mem_grownBlocks_iff hhash hkeys hlength).mpr ⟨htwo, _, hclass, rfl⟩
  obtain ⟨b, hb, hinside⟩ := exists_inside_findBlocks hlength hgrown
  obtain ⟨-, hmembers⟩ := Block.inside_iff.mp hinside
  refine ⟨b, hb, ?_, ?_⟩
  · intro w hw
    obtain ⟨p, hp, hpfile⟩ := halike.grownBlock_mem_file hw
    obtain ⟨q, hq, hpq⟩ := hmembers p hp
    exact ⟨q, hq, (Member.inside_iff.mp hpq).1.symm.trans hpfile⟩
  · obtain ⟨p, hp, -⟩ := halike.grownBlock_mem_file hv
    obtain ⟨q, hq, hpq⟩ := hmembers p hp
    obtain ⟨left, hspan, hwindow⟩ := halike.grownBlock_windowKeys hp
    rw [Member.inside_iff] at hpq
    refine ⟨q, hq, p.start + left, by omega, by omega, ?_⟩
    intro k hk
    rw [← hpq.1]
    exact hwindow v hv k hk

/-- Two equal windows of different files stand inside one returned block, which has a member in
each of the files. -/
theorem exists_findBlocks_of_sameKeys (hhash : HasWindowHashes files length)
    (hkeys : HashesFollowKeys files length) (hlength : 0 < length) {v w : Window}
    (hfile : v.file ≠ w.file) (hv : v.start + length ≤ keyCount files v.file)
    (hw : w.start + length ≤ keyCount files w.file)
    (hsame : windowKeys files length v = windowKeys files length w) :
    ∃ b ∈ findBlocks files length (fun _ => true),
      (∃ m ∈ b.members, m.file = v.file) ∧ (∃ m ∈ b.members, m.file = w.file) ∧
        ∃ m ∈ b.members, ∃ start, m.start ≤ start ∧ start + length ≤ m.stop + 1 ∧
          ∀ k < length, keyAt files m.file (start + k) = keyAt files v.file (v.start + k) := by
  have hne : v ≠ w := fun h => hfile (congrArg Window.file h)
  obtain ⟨members, hclass, hvmem, hwmem⟩ :=
    exists_class_of_sameKeys hhash hkeys hlength hne hv hw hsame
  obtain ⟨first, more, rfl⟩ := List.exists_cons_of_ne_nil (List.ne_nil_of_mem hvmem)
  have halike := alike_of_mem_classes hhash hlength hclass
  have htwo := halike.two_le_grownBlock hlength hvmem hwmem fun h => absurd h hfile
  obtain ⟨b, hb, hfiles, hwindow⟩ :=
    exists_findBlocks_of_class hhash hkeys hlength hclass htwo hvmem
  exact ⟨b, hb, hfiles v hvmem, hfiles w hwmem, hwindow⟩

/-! ## Copies of a block -/

/-- Every place where the keys of a grown block stand is the grown range of a member of its
class. -/
theorem exists_range_of_isCopy (hhash : HasWindowHashes files length)
    (hkeys : HashesFollowKeys files length) (hlength : 0 < length)
    (hclass : first :: more ∈ classes files length) {m : Member}
    (hm : (grownBlock files length (first :: more)).IsCopy files m) :
    ∃ w ∈ first :: more, m = rangeOf (leftGrowth files first (first :: more))
      (grownLength files length first (first :: more)) w := by
  have halike := alike_of_mem_classes hhash hlength hclass
  have htotal : (grownBlock files length (first :: more)).length =
      grownLength files length first (first :: more) := grow_length
  obtain ⟨n, hn, -⟩ := halike.grownBlock_mem_file List.mem_cons_self
  obtain ⟨v, hv, rfl⟩ := mem_grow_block hn
  have hleft : leftGrowth files first (first :: more) ≤ v.start := leftGrowth_le_start hv
  have hspan := hm.span
  have hbounded := hm.bounded
  have hsame := hm.sameKeys _ hn
  rw [htotal] at hspan hsame
  simp only [grownLength] at hspan hsame
  -- the window behind the growth to the left is the member whose range the copy is
  let w : Window := ⟨m.file, m.start + leftGrowth files first (first :: more)⟩
  have hwkeys : windowKeys files length w = windowKeys files length v := by
    rw [windowKeys_eq_iff]
    intro k hk
    have hkey := hsame (leftGrowth files first (first :: more) + k) (by omega)
    simp only [rangeOf] at hkey
    rwa [← Nat.add_assoc, ← Nat.add_assoc, Nat.sub_add_cancel hleft] at hkey
  obtain ⟨hash, hwindow⟩ := (exists_mem_windows_iff hhash hlength).mpr
    (by simp only [w]; omega : w.start + length ≤ keyCount files w.file)
  refine ⟨w, ?_, ?_⟩
  · obtain ⟨-, p, -, hp⟩ := mem_classes_iff.mp hclass
    rw [hp] at hv ⊢
    obtain ⟨hvwindow, hvkeys⟩ := mem_windowClass_iff.mp hv
    have heq := hkeys _ hwindow _ hvwindow hwkeys
    exact mem_windowClass_iff.mpr ⟨heq ▸ hwindow, hwkeys.trans hvkeys⟩
  · obtain ⟨file, start, stop⟩ := m
    simp only [rangeOf, grownLength, w, Member.mk.injEq, true_and] at hspan ⊢
    omega

/-- A copy of a block that is no member of it: it starts inside a member that starts earlier. -/
structure LeftOut (files : Array KeyedFile) (b : Block) (m : Member) : Prop where
  isCopy : b.IsCopy files m
  notMem : m ∉ b.members
  overlaps : ∃ n ∈ b.members, n.file = m.file ∧ n.start < m.start ∧ m.start ≤ n.stop

/-- The grown range of a member of the class is a member of the block or is left out. -/
theorem Alike.range_mem_or_leftOut (h : Alike files length (first :: more)) (hlength : 0 < length)
    (hdup : (grownBlock files length (first :: more)).IsDuplicate files) {w : Window}
    (hw : w ∈ first :: more) {m : Member}
    (hm : m = rangeOf (leftGrowth files first (first :: more))
      (grownLength files length first (first :: more)) w) :
    m ∈ (grownBlock files length (first :: more)).members ∨
      LeftOut files (grownBlock files length (first :: more)) m := by
  have htotal : (grownBlock files length (first :: more)).length =
      grownLength files length first (first :: more) := grow_length
  have hspan : m.start + (grownBlock files length (first :: more)).length = m.stop + 1 := by
    rw [htotal, hm]
    simp only [rangeOf, grownLength]
    omega
  by_cases hmem : m ∈ (grownBlock files length (first :: more)).members
  · exact Or.inl hmem
  · refine Or.inr ⟨⟨hspan, ?_, ?_⟩, hmem, ?_⟩
    · have hbounded := h.grown_bounded w hw
      rw [hm]
      simp only [rangeOf, grownLength] at hbounded ⊢
      omega
    · intro n hn k hk
      obtain ⟨v, hv, rfl⟩ := mem_grow_block hn
      rw [htotal] at hk
      rw [hm]
      exact (h.grown_sameKeys hk w hw).trans (h.grown_sameKeys hk v hv).symm
    · rcases h.range_covered hw hm with hin | ⟨n, hn, hfile, hle, hover⟩
      · exact absurd hin hmem
      · refine ⟨n, hn, hfile, ?_, hover⟩
        have hspanN := hdup.spans n hn
        refine Nat.lt_of_le_of_ne hle fun hstart => hmem ?_
        obtain rfl : n = m := by
          obtain ⟨file, start, stop⟩ := n
          obtain ⟨file', start', stop'⟩ := m
          simp only [Member.mk.injEq] at *
          omega
        exact hn

/-- A copy of a grown block is a member of it or is left out. -/
theorem mem_or_leftOut_of_isCopy (hhash : HasWindowHashes files length)
    (hkeys : HashesFollowKeys files length) (hlength : 0 < length) {b : Block}
    (hb : b ∈ grownBlocks files length) {m : Member} (hm : b.IsCopy files m) :
    m ∈ b.members ∨ LeftOut files b m := by
  obtain ⟨first, more, hclass, rfl, hdup⟩ := exists_class_of_mem_grownBlocks hhash hlength hb
  obtain ⟨w, hw, hrange⟩ := exists_range_of_isCopy hhash hkeys hlength hclass hm
  exact (alike_of_mem_classes hhash hlength hclass).range_mem_or_leftOut hlength hdup hw hrange

theorem Alike.first_range_mem (h : Alike files length (first :: more)) :
    rangeOf (leftGrowth files first (first :: more))
      (grownLength files length first (first :: more)) first ∈
        (grownBlock files length (first :: more)).members := by
  rw [grownBlock, h.grow_block]
  simp [thin]

theorem isSome_keyAt_iff {file index : Nat} :
    (keyAt files file index).isSome ↔ index < keyCount files file := by
  cases hf : files[file]? <;> simp [keyAt, keyCount, hf]

/-- When all members of a block could be longer by the same key on the right, a copy that was left
out could not. -/
theorem exists_leftOut_of_extendsRight (hhash : HasWindowHashes files length)
    (hlength : 0 < length) {b : Block} (hb : b ∈ grownBlocks files length)
    (hroom : ∀ m ∈ b.members, m.stop + 1 < keyCount files m.file)
    (hagree : ∀ m ∈ b.members, ∀ n ∈ b.members,
      keyAt files m.file (m.stop + 1) = keyAt files n.file (n.stop + 1)) :
    ∃ m, LeftOut files b m ∧ ∀ n ∈ b.members,
      keyAt files m.file (m.stop + 1) ≠ keyAt files n.file (n.stop + 1) := by
  obtain ⟨first, more, hclass, rfl, hdup⟩ := exists_class_of_mem_grownBlocks hhash hlength hb
  have halike := alike_of_mem_classes hhash hlength hclass
  have hstop (w : Window) (hw : w ∈ first :: more) :
      (rangeOf (leftGrowth files first (first :: more))
        (grownLength files length first (first :: more)) w).stop + 1 =
          w.start + (length + rightGrowth files length first (first :: more)) := by
    have hleft : leftGrowth files first (first :: more) ≤ w.start := leftGrowth_le_start hw
    simp only [rangeOf, grownLength]
    omega
  -- some member of the class stopped the growth
  have hstopped : agreeAfter files first (first :: more)
      (length + rightGrowth files length first (first :: more)) = false :=
    not_agreeAfter_rightGrowth (by simp)
  obtain ⟨w, hw, hdiffers⟩ : ∃ w ∈ first :: more,
      ¬ (w.start + (length + rightGrowth files length first (first :: more)) <
          keyCount files w.file ∧
        keyAt files w.file (w.start + (length + rightGrowth files length first (first :: more))) =
          keyAt files first.file
            (first.start + (length + rightGrowth files length first (first :: more)))) := by
    by_contra hall
    push Not at hall
    have htrue := agreeAfter_iff.mpr hall
    rw [hstopped] at htrue
    simp at htrue
  have hfirst := halike.first_range_mem
  have hkeyFirst := hstop first (by simp)
  have hkeyW := hstop w hw
  rcases halike.range_mem_or_leftOut hlength hdup hw rfl with hmem | hout
  · have hroomW := hroom _ hmem
    have hagreeW := hagree _ hmem _ hfirst
    rw [hkeyW] at hroomW
    rw [hkeyW, hkeyFirst] at hagreeW
    exact absurd ⟨hroomW, hagreeW⟩ hdiffers
  · refine ⟨_, hout, ?_⟩
    intro n hn hequal
    have hequalFirst := hequal.trans (hagree n hn _ hfirst)
    have hsome := isSome_keyAt_iff.mpr (hroom n hn)
    rw [← hequal, isSome_keyAt_iff, hkeyW] at hsome
    rw [hkeyW, hkeyFirst] at hequalFirst
    exact hdiffers ⟨hsome, hequalFirst⟩

/-- When all members of a block could be longer by the same key on the left, a copy that was left
out could not. -/
theorem exists_leftOut_of_extendsLeft (hhash : HasWindowHashes files length)
    (hlength : 0 < length) {b : Block} (hb : b ∈ grownBlocks files length)
    (hroom : ∀ m ∈ b.members, 0 < m.start)
    (hagree : ∀ m ∈ b.members, ∀ n ∈ b.members,
      keyAt files m.file (m.start - 1) = keyAt files n.file (n.start - 1)) :
    ∃ m, LeftOut files b m ∧ (0 < m.start → ∀ n ∈ b.members,
      keyAt files m.file (m.start - 1) ≠ keyAt files n.file (n.start - 1)) := by
  obtain ⟨first, more, hclass, rfl, hdup⟩ := exists_class_of_mem_grownBlocks hhash hlength hb
  have halike := alike_of_mem_classes hhash hlength hclass
  have hfirst := halike.first_range_mem
  have hfirstRoom : leftGrowth files first (first :: more) + 1 ≤ first.start := by
    have h := hroom _ hfirst
    simp only [rangeOf] at h
    omega
  have hstopped : agreeBefore files first (first :: more)
      (leftGrowth files first (first :: more) + 1) = false :=
    not_agreeBefore_leftGrowth (by simp)
  obtain ⟨w, hw, hdiffers⟩ : ∃ w ∈ first :: more,
      ¬ (leftGrowth files first (first :: more) + 1 ≤ w.start ∧
        keyAt files w.file (w.start - leftGrowth files first (first :: more) - 1) =
          keyAt files first.file
            (first.start - leftGrowth files first (first :: more) - 1)) := by
    by_contra hall
    push Not at hall
    have htrue : agreeBefore files first (first :: more)
        (leftGrowth files first (first :: more) + 1) = true := by
      rw [agreeBefore_iff]
      intro m hm
      exact ⟨(hall m hm).1, hfirstRoom, (hall m hm).2⟩
    rw [hstopped] at htrue
    simp at htrue
  rcases halike.range_mem_or_leftOut hlength hdup hw rfl with hmem | hout
  · have hroomW := hroom _ hmem
    have hagreeW := hagree _ hmem _ hfirst
    simp only [rangeOf] at hroomW hagreeW
    exact absurd ⟨by omega, hagreeW⟩ hdiffers
  · refine ⟨_, hout, ?_⟩
    intro hpos n hn hequal
    have hequalFirst := hequal.trans (hagree n hn _ hfirst)
    simp only [rangeOf] at hpos hequalFirst
    exact hdiffers ⟨by omega, hequalFirst⟩

end Clone

end CloneScan
