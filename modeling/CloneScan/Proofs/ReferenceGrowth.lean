import CloneScan.Proofs.HashIndependence

/-!
# Growing every class by itself

The sweep skips a class as soon as a window of the first member of another class of the same size
stands in its place.  The reference here knows no such shortcut.  It takes what the keys before
all members of a class end with and what the keys behind all of them start with, leaves out every
range that shares a key with a kept one, and drops repeated blocks at the very end.  Both find the
same blocks in the same order.
-/

namespace CloneScan.Clone

variable {files : Array KeyedFile} {length : Nat}

/-! ## The reference -/

def commonPrefix : List Text → List Text → List Text
  | a :: s, b :: t => if a = b then a :: commonPrefix s t else []
  | _, _ => []

/-- The longest list that all of some lists start with. -/
def commonPrefixOf : List (List Text) → List Text
  | [] => []
  | [s] => s
  | s :: rest => commonPrefix s (commonPrefixOf rest)

def fileKeys (files : Array KeyedFile) (file : Nat) : List Text :=
  match files[file]? with
  | some f => f.keys.toList
  | none => []

/-- The keys before a window, the nearest first. -/
def keysBefore (files : Array KeyedFile) (w : Window) : List Text :=
  ((fileKeys files w.file).take w.start).reverse

def keysBehind (files : Array KeyedFile) (length : Nat) (w : Window) : List Text :=
  (fileKeys files w.file).drop (w.start + length)

def leftExtension (files : Array KeyedFile) (members : List Window) : Nat :=
  (commonPrefixOf (members.map (keysBefore files))).length

def rightExtension (files : Array KeyedFile) (length : Nat) (members : List Window) : Nat :=
  (commonPrefixOf (members.map (keysBehind files length))).length

def sharesKey (a b : Member) : Bool :=
  a.file == b.file && a.start ≤ b.stop && b.start ≤ a.stop

/-- Goes through ranges in their order and keeps those that share no key with a kept one. -/
def keepDisjoint (kept : List Member) : List Member → List Member
  | [] => kept
  | m :: rest =>
    if kept.any (sharesKey m) then keepDisjoint kept rest else keepDisjoint (kept ++ [m]) rest

/-- The block of a class, from the class alone. -/
def referenceBlock (files : Array KeyedFile) (length : Nat) (members : List Window) : Block :=
  let left := leftExtension files members
  let right := rightExtension files length members
  let ranges := members.map fun m =>
    (⟨m.file, m.start - left, m.start + length + right - 1⟩ : Member)
  ⟨keepDisjoint [] (ranges.mergeSort Member.le), left + length + right⟩

/-- The blocks of all classes in the order of their first windows: those with two ranges or more,
and of those with the same ranges the first. -/
def referenceBlocks (files : Array KeyedFile) (length : Nat) : List Block :=
  (((orderedClasses files length).map (referenceBlock files length)).filter
    fun b => 2 ≤ b.members.length).eraseDupsBy fun a b => a.members == b.members

/-! ## Common prefixes -/

theorem le_length_commonPrefix_iff {n : Nat} {s t : List Text} :
    n ≤ (commonPrefix s t).length ↔ n ≤ s.length ∧ n ≤ t.length ∧ t.take n = s.take n := by
  induction s generalizing n t with
  | nil => simp +contextual [commonPrefix]
  | cons a s ih =>
      cases t with
      | nil => simp +contextual [commonPrefix]
      | cons b t =>
          cases n with
          | zero => simp
          | succ n =>
              by_cases hab : a = b
              · simp [commonPrefix, hab, ih]
              · simp [commonPrefix, hab, Ne.symm hab]

theorem commonPrefix_prefix_left (s t : List Text) : commonPrefix s t <+: s := by
  induction s generalizing t with
  | nil => simp [commonPrefix]
  | cons a s ih =>
      cases t with
      | nil => simp [commonPrefix]
      | cons b t =>
          by_cases hab : a = b
          · simpa [commonPrefix, hab] using ih t
          · simp [commonPrefix, hab]

theorem commonPrefixOf_prefix_head (s : List Text) (rest : List (List Text)) :
    commonPrefixOf (s :: rest) <+: s := by
  cases rest with
  | nil => simp [commonPrefixOf]
  | cons t rest => exact commonPrefix_prefix_left _ _

theorem le_length_commonPrefixOf_iff {n : Nat} {s : List Text} {rest : List (List Text)} :
    n ≤ (commonPrefixOf (s :: rest)).length ↔
      ∀ t ∈ s :: rest, n ≤ t.length ∧ t.take n = s.take n := by
  induction rest generalizing s with
  | nil => simp [commonPrefixOf]
  | cons t rest ih =>
      -- a long common prefix of the others starts like the first of them
      have htake (h : n ≤ (commonPrefixOf (t :: rest)).length) :
          (commonPrefixOf (t :: rest)).take n = t.take n := by
        have hprefix := (commonPrefixOf_prefix_head t rest).take n
        apply hprefix.eq_of_length_le
        rw [List.length_take, List.length_take]
        omega
      rw [commonPrefixOf.eq_3 _ _ (by simp), le_length_commonPrefix_iff]
      constructor
      · rintro ⟨hs, hn, heq⟩
        have hothers := ih.mp hn
        rw [htake hn] at heq
        intro u hu
        rcases List.mem_cons.mp hu with rfl | hu
        · exact ⟨hs, rfl⟩
        · exact ⟨(hothers u hu).1, (hothers u hu).2.trans heq⟩
      · intro h
        have ht := h t (by simp)
        have hn : n ≤ (commonPrefixOf (t :: rest)).length := by
          rw [ih]
          intro u hu
          have hu' := h u (List.mem_cons_of_mem s hu)
          exact ⟨hu'.1, hu'.2.trans ht.2.symm⟩
        exact ⟨(h s (by simp)).1, hn, (htake hn).trans ht.2⟩

theorem take_eq_take_iff_getElem? {s t : List Text} {n : Nat} :
    s.take n = t.take n ↔ ∀ k < n, s[k]? = t[k]? := by
  constructor
  · intro h k hk
    have hkey := congrArg (fun l => l[k]?) h
    simpa [List.getElem?_take, hk] using hkey
  · intro h
    apply List.ext_getElem?
    intro k
    by_cases hk : k < n
    · simp [hk, h k hk]
    · simp [hk]

/-! ## Longest extensions -/

theorem fileKeys_getElem? (files : Array KeyedFile) (file k : Nat) :
    (fileKeys files file)[k]? = keyAt files file k := by
  cases hf : files[file]? <;> simp [fileKeys, keyAt, hf]

theorem length_fileKeys (files : Array KeyedFile) (file : Nat) :
    (fileKeys files file).length = keyCount files file := by
  cases hf : files[file]? <;> simp [fileKeys, keyCount, hf]

theorem length_keysBefore {w : Window} (hw : w.start ≤ keyCount files w.file) :
    (keysBefore files w).length = w.start := by
  simp [keysBefore, length_fileKeys, hw]

theorem keysBefore_getElem? {w : Window} (hw : w.start ≤ keyCount files w.file) {k : Nat}
    (hk : k < w.start) : (keysBefore files w)[k]? = keyAt files w.file (w.start - (k + 1)) := by
  have hlength : ((fileKeys files w.file).take w.start).length = w.start := by
    simp [length_fileKeys, hw]
  rw [keysBefore, List.getElem?_reverse (by omega), hlength, List.getElem?_take_of_lt (by omega),
    fileKeys_getElem?]
  congr 1
  omega

theorem length_keysBehind (files : Array KeyedFile) (length : Nat) (w : Window) :
    (keysBehind files length w).length = keyCount files w.file - (w.start + length) := by
  simp [keysBehind, length_fileKeys]

theorem keysBehind_getElem? (files : Array KeyedFile) (length : Nat) (w : Window) (k : Nat) :
    (keysBehind files length w)[k]? = keyAt files w.file (w.start + (length + k)) := by
  rw [keysBehind, List.getElem?_drop, fileKeys_getElem?, Nat.add_assoc]

namespace Alike

variable {first : Window} {more : List Window}

theorem le_leftExtension_iff (h : Alike files length (first :: more)) {n : Nat} :
    n ≤ leftExtension files (first :: more) ↔
      ∀ back, 0 < back → back ≤ n → agreeBefore files first (first :: more) back = true := by
  have hbound (m : Window) (hm : m ∈ first :: more) : m.start ≤ keyCount files m.file := by
    have := h.bounded m hm
    omega
  rw [leftExtension, List.map_cons, le_length_commonPrefixOf_iff, ← List.map_cons,
    List.forall_mem_map]
  constructor
  · intro hall back hpos hback
    rw [agreeBefore_iff]
    intro m hm
    have hm' := hall m hm
    have hfirst := hall first (by simp)
    rw [length_keysBefore (hbound m hm), take_eq_take_iff_getElem?] at hm'
    rw [length_keysBefore (hbound first (by simp))] at hfirst
    have hkey := hm'.2 (back - 1) (by omega)
    rw [keysBefore_getElem? (hbound m hm) (by omega),
      keysBefore_getElem? (hbound first (by simp)) (by omega), Nat.sub_add_cancel hpos] at hkey
    exact ⟨by omega, by omega, hkey⟩
  · intro hall m hm
    rw [length_keysBefore (hbound m hm), take_eq_take_iff_getElem?]
    rcases Nat.eq_zero_or_pos n with rfl | hn
    · simp
    · have hlast := agreeBefore_iff.mp (hall n hn (Nat.le_refl n)) m hm
      refine ⟨hlast.1, ?_⟩
      intro k hk
      rw [keysBefore_getElem? (hbound m hm) (by omega),
        keysBefore_getElem? (hbound first (by simp)) (by omega)]
      exact (agreeBefore_iff.mp (hall (k + 1) (by omega) (by omega)) m hm).2.2

theorem leftGrowth_eq_leftExtension (h : Alike files length (first :: more)) :
    leftGrowth files first (first :: more) = leftExtension files (first :: more) := by
  have hall := h.le_leftExtension_iff.mp (Nat.le_refl (leftExtension files (first :: more)))
  apply leftGrowth_eq (by simp) hall
  by_contra hagree
  rw [Bool.not_eq_false] at hagree
  have hmore : leftExtension files (first :: more) + 1 ≤ leftExtension files (first :: more) := by
    rw [h.le_leftExtension_iff]
    intro back hpos hback
    rcases Nat.lt_or_ge back (leftExtension files (first :: more) + 1) with hlt | hge
    · exact hall back hpos (by omega)
    · rwa [show back = leftExtension files (first :: more) + 1 by omega]
  omega

theorem le_rightExtension_iff (h : Alike files length (first :: more)) {n : Nat} :
    n ≤ rightExtension files length (first :: more) ↔
      ∀ k < n, agreeAfter files first (first :: more) (length + k) = true := by
  rw [rightExtension, List.map_cons, le_length_commonPrefixOf_iff, ← List.map_cons,
    List.forall_mem_map]
  simp only [length_keysBehind, take_eq_take_iff_getElem?, keysBehind_getElem?]
  constructor
  · intro hall k hk
    rw [agreeAfter_iff]
    intro m hm
    have hm' := hall m hm
    exact ⟨by omega, hm'.2 k hk⟩
  · intro hall m hm
    refine ⟨?_, fun k hk => (agreeAfter_iff.mp (hall k hk) m hm).2⟩
    have hwindow := h.bounded m hm
    rcases Nat.eq_zero_or_pos n with rfl | hn
    · omega
    · have hlast := agreeAfter_iff.mp (hall (n - 1) (by omega)) m hm
      omega

theorem rightGrowth_eq_rightExtension (h : Alike files length (first :: more)) :
    rightGrowth files length first (first :: more) =
      rightExtension files length (first :: more) := by
  have hall := h.le_rightExtension_iff.mp
    (Nat.le_refl (rightExtension files length (first :: more)))
  apply rightGrowth_eq (by simp) hall
  by_contra hagree
  rw [Bool.not_eq_false] at hagree
  have hmore : rightExtension files length (first :: more) + 1 ≤
      rightExtension files length (first :: more) := by
    rw [h.le_rightExtension_iff]
    intro k hk
    rcases Nat.lt_succ_iff_lt_or_eq.mp hk with hlt | rfl
    · exact hall k hlt
    · exact hagree
  omega

end Alike

/-! ## Disjoint ranges -/

/-- Kept ranges stand one behind the other, so that a later range can only share a key with the
last of them. -/
theorem any_sharesKey_iff {kept : List Member} {last m : Member}
    (hkept : (kept ++ [last]).Pairwise Member.Before)
    (hle : Member.le last m = true) (hspan : m.start ≤ m.stop) (hlast : last.start ≤ last.stop) :
    (kept ++ [last]).any (sharesKey m) = true ↔ last.file = m.file ∧ m.start ≤ last.stop := by
  rw [Member.le_iff] at hle
  have hbefore : ∀ k ∈ kept, k.Before last := by
    intro k hk
    exact (List.pairwise_append.mp hkept).2.2 k hk last (by simp)
  rw [List.any_eq_true]
  constructor
  · rintro ⟨k, hk, hshares⟩
    simp only [sharesKey, Bool.and_eq_true, beq_iff_eq, decide_eq_true_eq] at hshares
    rcases List.mem_append.mp hk with hk | hk
    · have hbefore' := hbefore k hk
      simp only [Member.Before] at hbefore'
      omega
    · obtain rfl := List.mem_singleton.mp hk
      exact ⟨hshares.1.1.symm, hshares.1.2⟩
  · rintro ⟨hfile, hstart⟩
    refine ⟨last, by simp, ?_⟩
    simp only [sharesKey, Bool.and_eq_true, beq_iff_eq, decide_eq_true_eq]
    omega

theorem keepDisjoint_append {kept l : List Member} {last : Member}
    (hspan : ∀ m ∈ last :: l, m.start ≤ m.stop)
    (hsorted : (last :: l).Pairwise fun a b => Member.le a b = true)
    (hkept : (kept ++ [last]).Pairwise Member.Before) :
    keepDisjoint (kept ++ [last]) l = kept ++ [last] ++ thin (some last) l := by
  induction l generalizing kept last with
  | nil => simp [keepDisjoint, thin]
  | cons m rest ih =>
      obtain ⟨hle, hrest⟩ := List.pairwise_cons.mp hsorted
      have hlast := hspan last (by simp)
      have hm := hspan m (by simp)
      have hany := any_sharesKey_iff hkept (hle m (by simp)) hm hlast
      by_cases hover : last.file = m.file ∧ m.start ≤ last.stop
      · have hthin : thin (some last) (m :: rest) = thin (some last) rest := by
          simp [thin, hover.1, hover.2]
        rw [keepDisjoint, if_pos (hany.mpr hover), hthin]
        apply ih _ _ hkept
        · intro a ha
          apply hspan
          rcases List.mem_cons.mp ha with rfl | ha
          · simp
          · simp [ha]
        · exact hsorted.sublist (by simp)
      · have hthin : thin (some last) (m :: rest) = m :: thin (some m) rest := by
          simp only [thin, Bool.and_eq_true, beq_iff_eq, decide_eq_true_eq, hover, if_false]
        rw [keepDisjoint, if_neg (hany.not.mpr hover), hthin,
          ih (fun a ha => hspan a (List.mem_cons_of_mem last ha)) hrest]
        · simp
        · have hbefore : last.Before m := by
            have hle' := Member.le_iff.mp (hle m (by simp))
            simp only [Member.Before]
            omega
          refine List.pairwise_append.mpr ⟨hkept, by simp, ?_⟩
          intro k hk a ha
          obtain rfl := List.mem_singleton.mp ha
          rcases List.mem_append.mp hk with hk | hk
          · have hkl := (List.pairwise_append.mp hkept).2.2 k hk last (by simp)
            simp only [Member.Before] at hkl hbefore ⊢
            omega
          · rwa [List.mem_singleton.mp hk]

theorem keepDisjoint_nil {l : List Member} (hspan : ∀ m ∈ l, m.start ≤ m.stop)
    (hsorted : l.Pairwise fun a b => Member.le a b = true) :
    keepDisjoint [] l = thin none l := by
  cases l with
  | nil => rfl
  | cons m rest =>
      have hfirst : ([] ++ [m]).Pairwise Member.Before := by simp
      exact keepDisjoint_append hspan hsorted hfirst

/-! ## Both sides -/

theorem referenceBlock_eq_grownBlock (hhash : HasWindowHashes files length)
    (hlength : 0 < length) {members : List Window} (hmembers : members ∈ classes files length) :
    referenceBlock files length members = grownBlock files length members := by
  have halike := alike_of_mem_classes hhash hlength hmembers
  have htwo := (mem_classes_iff.mp hmembers).1
  obtain ⟨first, more, rfl⟩ :=
    List.exists_cons_of_ne_nil (List.ne_nil_of_length_pos (by omega : 0 < members.length))
  have hleft := halike.leftGrowth_eq_leftExtension
  have hright := halike.rightGrowth_eq_rightExtension
  have hranges : (first :: more).map (fun m =>
      (⟨m.file, m.start - leftExtension files (first :: more),
        m.start + length + rightExtension files length (first :: more) - 1⟩ : Member)) =
      (first :: more).map (rangeOf (leftGrowth files first (first :: more))
        (grownLength files length first (first :: more))) := by
    rw [List.map_inj_left]
    intro m hm
    have hstart : leftGrowth files first (first :: more) ≤ m.start := leftGrowth_le_start hm
    rw [← hleft, ← hright]
    simp only [rangeOf, grownLength, Member.mk.injEq, true_and]
    omega
  have hsorted := halike.ranges_pairwise_le (grownLength files length first (first :: more))
  have hspan : ∀ m ∈ (first :: more).map (rangeOf (leftGrowth files first (first :: more))
      (grownLength files length first (first :: more))), m.start ≤ m.stop := by
    intro m hm
    obtain ⟨w, -, rfl⟩ := List.mem_map.mp hm
    simp only [rangeOf, grownLength]
    omega
  rw [grownBlock, halike.grow_block, referenceBlock, hranges,
    List.mergeSort_of_pairwise hsorted, keepDisjoint_nil hspan hsorted, ← hleft, ← hright]
  simp only [grownLength, Block.mk.injEq, true_and]
  omega

/-- Adding blocks one by one, unless their places are there, is dropping the later copies. -/
theorem foldl_addBlock_eq (blocks : List Block) (order : List (List Window)) :
    order.foldl (addBlock files length) blocks =
      blocks ++ (((order.map (grownBlock files length)).filter
        fun b => decide (2 ≤ b.members.length) &&
          !blocks.any fun c => c.members == b.members).eraseDupsBy
            fun a b => a.members == b.members) := by
  induction order generalizing blocks with
  | nil => simp
  | cons members order ih =>
      rw [List.foldl_cons, ih, List.map_cons, List.filter_cons]
      by_cases hadd : (decide (2 ≤ (grownBlock files length members).members.length) &&
          !blocks.any fun c => c.members == (grownBlock files length members).members) = true
      · rw [addBlock, if_pos hadd, if_pos hadd, List.eraseDupsBy_cons, List.append_assoc,
          List.singleton_append, List.filter_filter]
        congr 4
        funext b
        have hsame : ((grownBlock files length members).members == b.members) =
            (b.members == (grownBlock files length members).members) := BEq.comm
        simp only [List.any_append, List.any_cons, List.any_nil, Bool.or_false, hsame]
        cases b.members == (grownBlock files length members).members <;> simp
      · rw [addBlock, if_neg hadd, if_neg hadd]

/-- Nothing is lost by the shortcut: where equal windows have equal hashes, the sweep returns the
blocks of the reference in the same order. -/
theorem grownBlocks_eq_referenceBlocks (files : Array KeyedFile) (length : Nat)
    (hlength : 1 ≤ length) (hhash : HasWindowHashes files length)
    (hkeys : HashesFollowKeys files length) :
    grownBlocks files length = referenceBlocks files length := by
  have hblocks : (orderedClasses files length).map (referenceBlock files length) =
      (orderedClasses files length).map (grownBlock files length) := by
    rw [List.map_inj_left]
    intro members hmembers
    exact referenceBlock_eq_grownBlock hhash hlength (mem_orderedClasses.mp hmembers)
  rw [grownBlocks_eq_foldl hhash hkeys hlength, foldl_addBlock_eq, referenceBlocks, hblocks]
  simp

/-- Four classes, of which two grow to the block of the first and one thins out its ranges. -/
def chainedFiles : List IndexedFile :=
  [([1], [65, 66, 67, 65, 65, 65]), ([2], [65, 66, 67, 65, 65])].map fun f =>
    Cluster.letterFile 2 f.1 f.2

theorem grownBlocks_eq_referenceBlocks_chainedFiles :
    (classes (Cluster.keyed chainedFiles) 2).length = 4 ∧
      referenceBlocks (Cluster.keyed chainedFiles) 2 =
        [⟨[⟨0, 0, 4⟩, ⟨1, 0, 4⟩], 5⟩, ⟨[⟨0, 3, 4⟩, ⟨1, 3, 4⟩], 2⟩] ∧
      grownBlocks (Cluster.keyed chainedFiles) 2 =
        referenceBlocks (Cluster.keyed chainedFiles) 2 := by
  have hfiles : Cluster.HasKeyHashes chainedFiles 2 := Cluster.hasKeyHashes_letterFile _ 2
  exact ⟨by cbv, by cbv, grownBlocks_eq_referenceBlocks _ 2 (by decide)
    (hfiles.hasWindowHashes (by decide)) (hfiles.hashesFollowKeys (by decide))⟩

end CloneScan.Clone
