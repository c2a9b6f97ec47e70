import CloneScan.Proofs.DuplicateCluster
import CloneScan.Proofs.MaximalBlock

/-!
# No cluster inside another one

The members of a grown block have one length and share no key, whatever the hashes are, and
rejecting members keeps that so.  So the containment pass of the search is exact on every input: of
two reported clusters neither lies inside the other, and what the pass dropped lies inside a
reported one.
-/

namespace CloneScan

theorem Block.IsProper.filter {b : Block} (h : b.IsProper) {keep : Member → Bool}
    (htwo : 2 ≤ (b.members.filter keep).length) :
    ({ b with members := b.members.filter keep } : Block).IsProper :=
  ⟨htwo, h.pos, fun m hm => h.spans m (List.mem_of_mem_filter hm), h.disjoint.filter _⟩

namespace Clone

variable {files : Array KeyedFile} {length : Nat} {first : Window} {members : List Window}

/-! ## Grown blocks are proper -/

theorem grow_isProper (hlength : 0 < length)
    (htwo : 2 ≤ (grow files length first members).block.members.length) :
    (grow files length first members).block.IsProper := by
  have hpos : 0 < (grow files length first members).block.length := by
    rw [grow_length, grownLength]
    omega
  refine ⟨htwo, hpos, fun m hm => grow_spans hlength hm, ?_⟩
  refine (grow_pairwise_before hlength).imp ?_
  intro m n hmn hfile
  simp only [Member.Before] at hmn
  omega

theorem exists_grow_of_mem_grownBlocks {b : Block} (hb : b ∈ grownBlocks files length) :
    2 ≤ b.members.length ∧ ∃ first members, members ∈ classes files length ∧
      b = (grow files length first members).block := by
  obtain ⟨htwo, members, hclass, rfl⟩ := ofClasses_grownBlocks files length b hb
  cases members with
  | nil => simp [grownBlock] at htwo
  | cons first more => exact ⟨htwo, first, first :: more, hclass, rfl⟩

theorem acceptedBlocks_isProper (hlength : 0 < length) {keep : Member → Bool} {b : Block}
    (hb : b ∈ acceptedBlocks files length keep) : b.IsProper := by
  obtain ⟨htwo, g, hg, rfl⟩ := mem_acceptedBlocks hb
  obtain ⟨hgrown, first, members, -, rfl⟩ := exists_grow_of_mem_grownBlocks hg
  exact (grow_isProper hlength hgrown).filter htwo

theorem file_lt_of_mem_findBlocks {keep : Member → Bool} {b : Block}
    (hb : b ∈ findBlocks files length keep) {m : Member} (hm : m ∈ b.members) :
    m.file < files.size := by
  obtain ⟨-, g, hg, rfl⟩ := mem_findBlocks hb
  obtain ⟨-, first, members, hclass, rfl⟩ := exists_grow_of_mem_grownBlocks hg
  obtain ⟨w, hw, rfl⟩ := mem_grow_block (List.mem_of_mem_filter hm)
  obtain ⟨-, p, -, rfl⟩ := mem_classes_iff.mp hclass
  obtain ⟨f, hf, -⟩ := mem_windows_iff.mp (mem_windowClass_iff.mp hw).1
  exact (Array.getElem?_eq_some_iff.mp hf).1

theorem findBlocks_pairwise (files : Array KeyedFile) (length : Nat) (keep : Member → Bool) :
    (findBlocks files length keep).Pairwise fun a b =>
      ¬ Block.inside a b = true ∧ ¬ Block.inside b a = true := by
  rcases Nat.eq_zero_or_pos length with rfl | hlength
  · simp [findBlocks]
  · rw [findBlocks_eq hlength]
    exact dropContained_pairwise fun b hb => acceptedBlocks_isProper hlength hb

end Clone

namespace Cluster

variable {files : List IndexedFile} {window : Nat} {keep : Location → Bool}

/-! ## Containment of clusters -/

/-- A cluster has at most as many occurrences as another one, and each lies inside an occurrence of
the other one in the same file. -/
def Inside (a b : Cluster) : Prop :=
  a.occurrences.length ≤ b.occurrences.length ∧ ∀ o ∈ a.occurrences, ∃ p ∈ b.occurrences,
    o.location.file = p.location.file ∧ p.startToken ≤ o.startToken ∧ o.endToken ≤ p.endToken

theorem Inside.of_occurrences_eq {a b : Cluster} (h : a.occurrences = b.occurrences) :
    a.Inside b := by
  refine ⟨Nat.le_of_eq (congrArg List.length h), ?_⟩
  intro o ho
  exact ⟨o, h ▸ ho, rfl, Nat.le_refl _, Nat.le_refl _⟩

theorem file_eq_of_locate (hpaths : (files.map (·.path)).Nodup) {m n : Member}
    (hm : m.file < files.length) (hn : n.file < files.length)
    (h : (locate files.toArray m).file = (locate files.toArray n).file) : m.file = n.file := by
  have hpath : files[m.file].path = files[n.file].path := by
    simpa [locate, List.getElem?_eq_getElem hm, List.getElem?_eq_getElem hn] using h
  have hfile : files[m.file] = files[n.file] :=
    List.inj_on_of_nodup_map hpaths (List.getElem_mem hm) (List.getElem_mem hn) hpath
  exact (hpaths.of_map.getElem_inj_iff).mp hfile

theorem inside_of_ofBlock_inside (hpaths : (files.map (·.path)).Nodup) {a b : Block}
    (ha : a ∈ Clone.findBlocks (keyed files) window fun m => keep (locate files.toArray m))
    (hb : b ∈ Clone.findBlocks (keyed files) window fun m => keep (locate files.toArray m))
    (h : (ofBlock files.toArray a).Inside (ofBlock files.toArray b)) :
    Clone.Block.inside a b = true := by
  obtain ⟨hcount, hoccurrences⟩ := h
  refine Clone.Block.inside_iff.mpr ⟨by simpa [ofBlock] using hcount, ?_⟩
  intro m hm
  obtain ⟨p, hp, hfile, hstart, hstop⟩ := hoccurrences _ (List.mem_map_of_mem hm)
  obtain ⟨n, hn, rfl⟩ := List.mem_map.mp hp
  have hfileM := Clone.file_lt_of_mem_findBlocks ha hm
  have hfileN := Clone.file_lt_of_mem_findBlocks hb hn
  simp only [keyed, Array.size_map, List.size_toArray] at hfileM hfileN
  exact ⟨n, hn, Clone.Member.inside_iff.mpr
    ⟨file_eq_of_locate hpaths hfileM hfileN hfile, hstart, hstop⟩⟩

theorem findClusters_pairwise (hpaths : (files.map (·.path)).Nodup) (window : Nat)
    (keep : Location → Bool) :
    (findClusters files window keep).Pairwise fun a b =>
      ¬ a.Inside b ∧ ¬ b.Inside a ∧ a.occurrences ≠ b.occurrences := by
  have hblocks := Clone.findBlocks_pairwise (keyed files) window
    fun m => keep (locate files.toArray m)
  refine List.pairwise_map.mpr (hblocks.imp_of_mem ?_)
  rintro a b ha hb ⟨hab, hba⟩
  have hclusterAB : ¬ (ofBlock files.toArray a).Inside (ofBlock files.toArray b) :=
    fun h => hab (inside_of_ofBlock_inside hpaths ha hb h)
  have hclusterBA : ¬ (ofBlock files.toArray b).Inside (ofBlock files.toArray a) :=
    fun h => hba (inside_of_ofBlock_inside hpaths hb ha h)
  exact ⟨hclusterAB, hclusterBA, fun heq => hclusterAB (Inside.of_occurrences_eq heq)⟩

/-- The containment pass keeps one copy of each maximal block and nothing else, and looking
containers up by file changes nothing.  So the search, on every input, reports no cluster inside
another one and none twice, and what it drops as contained lies inside a reported block. -/
theorem containment_exact :
    (∀ blocks : List Block, (∀ b ∈ blocks, b.IsProper) →
      Clone.dropContainedByFile blocks = Clone.dropContained blocks ∧
      (∀ b ∈ Clone.dropContained blocks, b ∈ blocks ∧ Clone.IsMaximal blocks b) ∧
      ∀ b ∈ blocks, Clone.IsMaximal blocks b →
        (Clone.dropContained blocks).countP (fun c => decide (c.members.Perm b.members)) = 1) ∧
    ∀ (files : List IndexedFile) (window : Nat) (keep : Location → Bool), ∃ found : List Block,
      findClusters files window keep = found.map (ofBlock files.toArray) ∧
      (found.Pairwise fun a b => ¬ Clone.Block.inside a b = true ∧
        ¬ Clone.Block.inside b a = true ∧ ¬ a.members.Perm b.members) ∧
      ((files.map (·.path)).Nodup → (findClusters files window keep).Pairwise fun a b =>
        ¬ a.Inside b ∧ ¬ b.Inside a ∧ a.occurrences ≠ b.occurrences) ∧
      (1 ≤ window → ∀ g ∈ Clone.acceptedBlocks (keyed files) window
          (fun m => keep (locate files.toArray m)),
        ∃ b ∈ found, Clone.Block.inside g b = true) := by
  constructor
  · intro blocks hproper
    refine ⟨?_, ?_, ?_⟩
    · apply Clone.dropContainedByFile_eq
      intro b hb hnil
      have htwo := (hproper b hb).two_le
      simp [hnil] at htwo
    · intro b hb
      exact ⟨Clone.mem_of_mem_dropContained hb, Clone.isMaximal_of_mem_dropContained hproper hb⟩
    · intro b hb hmax
      exact Clone.countP_dropContained_of_isMaximal hproper hb hmax
  · intro files window keep
    have hpair := Clone.findBlocks_pairwise (keyed files) window
      fun m => keep (locate files.toArray m)
    refine ⟨_, rfl, ?_, fun hpaths => findClusters_pairwise hpaths window keep, ?_⟩
    · refine hpair.imp ?_
      rintro a b ⟨hab, hba⟩
      exact ⟨hab, hba, fun hperm => hab (Clone.Block.inside_of_perm hperm)⟩
    · intro hwindow g hg
      have hdropped := Clone.exists_inside_dropContained hg
      rwa [← Clone.findBlocks_eq hwindow] at hdropped

/-- A short block, a longer one that contains it, the longer one with its members exchanged, and a
short one with a third member. -/
def nestedBlocks : List Block :=
  [⟨[⟨0, 0, 1⟩, ⟨1, 0, 1⟩], 2⟩, ⟨[⟨0, 0, 3⟩, ⟨1, 0, 3⟩], 4⟩, ⟨[⟨1, 0, 3⟩, ⟨0, 0, 3⟩], 4⟩,
    ⟨[⟨0, 0, 1⟩, ⟨1, 0, 1⟩, ⟨2, 5, 6⟩], 2⟩]

theorem isProper_nestedBlocks : ∀ b ∈ nestedBlocks, b.IsProper := by
  intro b hb
  simp only [nestedBlocks, List.mem_cons, List.not_mem_nil, or_false] at hb
  rcases hb with rfl | rfl | rfl | rfl <;> exact ⟨by decide, by decide, by decide, by decide⟩

theorem containment_exact_nestedBlocks :
    Clone.dropContained nestedBlocks =
        [⟨[⟨0, 0, 3⟩, ⟨1, 0, 3⟩], 4⟩, ⟨[⟨0, 0, 1⟩, ⟨1, 0, 1⟩, ⟨2, 5, 6⟩], 2⟩] ∧
      Clone.IsMaximal nestedBlocks ⟨[⟨0, 0, 1⟩, ⟨1, 0, 1⟩, ⟨2, 5, 6⟩], 2⟩ ∧
      ¬ Clone.IsMaximal nestedBlocks ⟨[⟨0, 0, 1⟩, ⟨1, 0, 1⟩], 2⟩ := by
  have hkept : Clone.dropContained nestedBlocks =
      [⟨[⟨0, 0, 3⟩, ⟨1, 0, 3⟩], 4⟩, ⟨[⟨0, 0, 1⟩, ⟨1, 0, 1⟩, ⟨2, 5, 6⟩], 2⟩] := by cbv
  obtain ⟨-, hmaximal, honce⟩ := containment_exact.1 nestedBlocks isProper_nestedBlocks
  refine ⟨hkept, (hmaximal _ (by simp [hkept])).2, fun hmax => ?_⟩
  have hcount := honce ⟨[⟨0, 0, 1⟩, ⟨1, 0, 1⟩], 2⟩ (by simp [nestedBlocks]) hmax
  rw [hkept] at hcount
  exact absurd hcount (by decide)

end Cluster

end CloneScan
