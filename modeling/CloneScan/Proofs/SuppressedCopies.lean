import CloneScan.Proofs.ClusterCopies

/-!
# Copies that suppression leaves over

Overlapping copies of a block are thinned before the suppressed ones are removed.  So the keys of a
cluster are reported exactly when two members of one grown block around them are left, and a copy
that is not suppressed itself counts only if thinning listed it.  A copy that overlaps an earlier
one is lost together with it when the earlier one is suppressed: then the keys can vanish from the
report although two copies that share no key are left.
-/

namespace CloneScan

namespace Clone

variable {files : Array KeyedFile} {length : Nat}

/-- A grown block with two accepted members lies, as far as it is accepted, inside a returned
block. -/
theorem exists_findBlocks_of_accepted (hlength : 0 < length) {keep : Member → Bool} {g : Block}
    (hg : g ∈ grownBlocks files length) (htwo : 2 ≤ (g.members.filter keep).length) :
    ∃ b ∈ findBlocks files length keep, ∀ m ∈ g.members, keep m = true →
      ∃ n ∈ b.members, Member.inside m n = true := by
  have haccepted : { g with members := g.members.filter keep } ∈ acceptedBlocks files length keep :=
    List.mem_filterMap.mpr ⟨g, hg, by simp [htwo]⟩
  obtain ⟨b, hb, hinside⟩ := exists_inside_dropContained haccepted
  rw [← findBlocks_eq hlength] at hb
  refine ⟨b, hb, ?_⟩
  intro m hm hkeep
  exact (Block.inside_iff.mp hinside).2 m (List.mem_filter.mpr ⟨hm, hkeep⟩)

end Clone

namespace Cluster

variable {files : List IndexedFile} {window : Nat} {keep : Location → Bool} {keys : List Text}

/-! ## Reported keys -/

/-- Some cluster holds the keys as a part of the keys at each of its places. -/
def Reports (files : List IndexedFile) (window : Nat) (keep : Location → Bool)
    (keys : List Text) : Prop :=
  ∃ b ∈ Clone.findBlocks (keyed files) window (fun m => keep (locate files.toArray m)),
    ofBlock files.toArray b ∈ findClusters files window keep ∧ 2 ≤ b.members.length ∧
      Repeats files b.members ∧ ∀ m ∈ b.members, keys <:+: keysOf files m

theorem keysOf_isInfix_of_inside {m n : Member} (hmn : Clone.Member.inside m n = true)
    (hbound : m.stop < Clone.keyCount (keyed files) m.file) (hspan : m.start ≤ m.stop) :
    keysOf files m <:+: keysOf files n := by
  obtain ⟨hfile, hstart, hstop⟩ := Clone.Member.inside_iff.mp hmn
  obtain ⟨f, hf, -⟩ := exists_file_of_lt_keyCount hbound
  have hkeys : keysOf files m = f.slice m.start (m.stop + 1 - m.start) := by
    simp only [keysOf, hf]
  rw [hkeys]
  refine slice_isInfix_keysOf hstart (by omega) ?_
  intro k hk
  rw [← hfile, keyAt_keyed hf]

/-- Keys are reported exactly when two members of one grown block around them are accepted. -/
theorem reports_iff (keep : Location → Bool) (keys : List Text) (hwindow : 0 < window)
    (hhash : Clone.HasWindowHashes (keyed files) window) :
    Reports files window keep keys ↔
      ∃ g ∈ Clone.grownBlocks (keyed files) window, (∀ m ∈ g.members, keys <:+: keysOf files m) ∧
        2 ≤ (g.members.filter fun m => keep (locate files.toArray m)).length := by
  constructor
  · rintro ⟨b, hb, -, -, -, hpart⟩
    obtain ⟨htwo, g, hg, rfl⟩ := Clone.mem_findBlocks hb
    obtain ⟨first, more, -, hgrown, hdup⟩ :=
      Clone.exists_class_of_mem_grownBlocks hhash hwindow hg
    have hlength : window ≤ g.length := hgrown ▸ Clone.length_le_grownBlock
    have hrepeats := repeats_of_isDuplicate hdup (by omega)
    refine ⟨g, hg, ?_, htwo⟩
    obtain ⟨n, hn⟩ := List.exists_mem_of_length_pos (Nat.lt_of_lt_of_le Nat.zero_lt_two htwo)
    intro m hm
    rw [hrepeats.sameKeys m hm n (List.mem_of_mem_filter hn)]
    exact hpart n hn
  · rintro ⟨g, hg, hpart, htwo⟩
    obtain ⟨first, more, -, hgrown, hdup⟩ :=
      Clone.exists_class_of_mem_grownBlocks hhash hwindow hg
    have hlength : window ≤ g.length := hgrown ▸ Clone.length_le_grownBlock
    obtain ⟨b, hb, hinside⟩ := Clone.exists_findBlocks_of_accepted hwindow hg htwo
    obtain ⟨hdupB, hlengthB, -⟩ := Clone.findBlocks_sound hhash hwindow hb
    have hrepeatsB := repeats_of_isDuplicate hdupB (by omega)
    refine ⟨b, hb, mem_findClusters.mpr ⟨b, hb, rfl⟩, hdupB.two_le, hrepeatsB, ?_⟩
    -- an accepted member lies inside a member of the returned block, and all of those are alike
    obtain ⟨m, hm⟩ := List.exists_mem_of_length_pos (Nat.lt_of_lt_of_le Nat.zero_lt_two htwo)
    obtain ⟨hmem, hkeep⟩ := List.mem_filter.mp hm
    obtain ⟨n, hn, hmn⟩ := hinside m hmem hkeep
    have hspan := hdup.spans m hmem
    intro x hx
    rw [hrepeatsB.sameKeys x hx n hn]
    exact (hpart m hmem).trans
      (keysOf_isInfix_of_inside hmn (hdup.bounded m hmem) (by omega))

/-! ## Copies with the lines of their own -/

/-- The place of some keys that stand at a window. -/
def placeOf (keys : List Text) (w : Window) : Member :=
  ⟨w.file, w.start, w.start + keys.length - 1⟩

/-- A location shares no line with the suppressed ranges. -/
def unsuppressed (suppressed : List Location) (l : Location) : Bool :=
  !isSpanSuppressed l suppressed

/-- Two copies of the keys of a cluster that share no key and are not suppressed are reported,
unless thinning left one of them out: it starts inside an earlier occurrence of the cluster. -/
theorem reports_or_leftOut (files : List IndexedFile) (window : Nat) (hwindow : 1 ≤ window)
    (hhashes : HasKeyHashes files window) (suppressed : List Location) :
    ∀ b ∈ Clone.findBlocks (keyed files) window (fun _ => true),
      ofBlock files.toArray b ∈ findClusters files window (fun _ => true) ∧ ∃ keys : List Text,
        keys.length = b.length ∧ (∀ m ∈ b.members, keysOf files m = keys) ∧
        (∀ v w : Window, StandsAt files keys v → StandsAt files keys w →
          (v.file = w.file → v.start + keys.length ≤ w.start) →
          unsuppressed suppressed (locate files.toArray (placeOf keys v)) = true →
          unsuppressed suppressed (locate files.toArray (placeOf keys w)) = true →
            Reports files window (unsuppressed suppressed) keys ∨
              LeftOutCopy files b.members (placeOf keys v) ∨
                LeftOutCopy files b.members (placeOf keys w)) ∧
        (Reports files window (unsuppressed suppressed) keys ↔
          ∃ g ∈ Clone.grownBlocks (keyed files) window,
            (∀ m ∈ g.members, keys <:+: keysOf files m) ∧
              2 ≤ (g.members.filter fun m =>
                unsuppressed suppressed (locate files.toArray m)).length) := by
  intro b hb
  have hhash := hhashes.hasWindowHashes hwindow
  have hgrown := Clone.mem_findBlocks_true hb
  obtain ⟨hdup, hlength, -⟩ := Clone.findBlocks_sound hhash hwindow hb
  have hrepeats := repeats_of_isDuplicate hdup (by omega)
  have htwo := hdup.two_le
  obtain ⟨n, hn⟩ := List.exists_mem_of_length_pos (by omega : 0 < b.members.length)
  have hcount := keysOf_length hdup hn
  have hsame : ∀ m ∈ b.members, keysOf files m = keysOf files n :=
    fun m hm => hrepeats.sameKeys m hm n hn
  have hiff := reports_iff (unsuppressed suppressed) (keysOf files n) hwindow hhash
  refine ⟨mem_findClusters.mpr ⟨b, hb, rfl⟩, keysOf files n, hcount, hsame, ?_, hiff⟩
  intro v w hv hw hapart hkeepV hkeepW
  -- a copy is a member of the block, or it was left out
  have hplace (x : Window) (hx : StandsAt files (keysOf files n) x) :
      placeOf (keysOf files n) x ∈ b.members ∨
        LeftOutCopy files b.members (placeOf (keysOf files n) x) := by
    have hcopy := hx.isCopy hdup (by omega) hsame hcount
    rcases Clone.mem_or_leftOut_of_isCopy hhash (hhashes.hashesFollowKeys hwindow) hwindow hgrown
      hcopy with hmem | hout
    · exact Or.inl hmem
    · exact Or.inr (leftOutCopy_of_leftOut hdup (by omega) hout)
  rcases hplace v hv with hmemV | hout
  · rcases hplace w hw with hmemW | hout
    · refine Or.inl (hiff.mpr ⟨b, hgrown, fun m hm => hsame m hm ▸ List.infix_rfl, ?_⟩)
      refine Clone.two_le_length_of_ne (List.mem_filter.mpr ⟨hmemV, hkeepV⟩)
        (List.mem_filter.mpr ⟨hmemW, hkeepW⟩) ?_
      intro heq
      simp only [placeOf, Member.mk.injEq] at heq
      have hfar := hapart heq.1
      omega
    · exact Or.inr (Or.inr hout)
  · exact Or.inr (Or.inl hout)

/-- Three files that start with the same two letters. -/
def commonStartFiles : List IndexedFile :=
  [([1], [65, 66]), ([2], [65, 66, 67]), ([3], [65, 66, 68])].map fun f => letterFile 2 f.1 f.2

/-- With the copy of the first file suppressed, those of the other two are reported. -/
theorem reports_commonStartFiles :
    StandsAt commonStartFiles [[65], [66]] ⟨1, 0⟩ ∧ StandsAt commonStartFiles [[65], [66]] ⟨2, 0⟩ ∧
      unsuppressed [⟨[1], 1, 1⟩] (locate commonStartFiles.toArray ⟨0, 0, 1⟩) = false ∧
      Reports commonStartFiles 2 (unsuppressed [⟨[1], 1, 1⟩]) [[65], [66]] := by
  have hmem : (Clone.findBlocks (keyed commonStartFiles) 2 fun _ => true).contains
      ⟨[⟨0, 0, 1⟩, ⟨1, 0, 1⟩, ⟨2, 0, 1⟩], 2⟩ = true := by cbv
  obtain ⟨-, keys, -, hkeys, hcopies, -⟩ := reports_or_leftOut commonStartFiles 2 (by decide)
    (hasKeyHashes_letterFile _ 2) [⟨[1], 1, 1⟩] _ (List.contains_iff_mem.mp hmem)
  obtain rfl : [[65], [66]] = keys := by
    rw [← hkeys ⟨0, 0, 1⟩ (by simp)]
    decide
  have hv : StandsAt commonStartFiles [[65], [66]] ⟨1, 0⟩ := ⟨_, rfl, by decide⟩
  have hw : StandsAt commonStartFiles [[65], [66]] ⟨2, 0⟩ := ⟨_, rfl, by decide⟩
  refine ⟨hv, hw, by cbv, ?_⟩
  -- nothing starts earlier than the first letter of a file
  rcases hcopies _ _ hv hw (by decide) (by cbv) (by cbv) with hreports | hout | hout
  · exact hreports
  · obtain ⟨n, -, -, hstart, -⟩ := hout.overlaps
    exact absurd hstart (Nat.not_lt_zero _)
  · obtain ⟨n, -, -, hstart, -⟩ := hout.overlaps
    exact absurd hstart (Nat.not_lt_zero _)

/-- Two files of three equal letters. -/
def equalTripleFiles : List IndexedFile :=
  [([1], [65, 65, 65]), ([2], [65, 65, 65])].map fun f => letterFile 2 f.1 f.2

/-- Two equal letters are a cluster, and with the first line of the first file suppressed they
still stand on the other lines of it and at the front of the second file.  Nothing is reported: the
copy on the other lines had been left out for the suppressed one. -/
theorem not_reports_equalTripleFiles :
    HasKeyHashes equalTripleFiles 2 ∧
      (findClusters equalTripleFiles 2 fun _ => true).map (·.occurrences) =
        [occurrencesAt equalTripleFiles [⟨0, 0, 1⟩, ⟨1, 0, 1⟩]] ∧
      (∀ m ∈ [(⟨0, 0, 1⟩ : Member), ⟨1, 0, 1⟩], keysOf equalTripleFiles m = [[65], [65]]) ∧
      StandsAt equalTripleFiles [[65], [65]] ⟨0, 1⟩ ∧
      StandsAt equalTripleFiles [[65], [65]] ⟨1, 0⟩ ∧
      unsuppressed [⟨[1], 1, 1⟩] (locate equalTripleFiles.toArray ⟨0, 1, 2⟩) = true ∧
      unsuppressed [⟨[1], 1, 1⟩] (locate equalTripleFiles.toArray ⟨1, 0, 1⟩) = true ∧
      findClusters equalTripleFiles 2 (unsuppressed [⟨[1], 1, 1⟩]) = [] := by
  refine ⟨hasKeyHashes_letterFile _ 2, by cbv, by decide, ⟨_, rfl, by decide⟩, ⟨_, rfl, by decide⟩,
    by cbv, by cbv, by cbv⟩

end Cluster

end CloneScan
