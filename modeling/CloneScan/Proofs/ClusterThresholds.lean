import CloneScan.Proofs.ClusterContainment
import CloneScan.Report.Reporter

/-!
# Thresholds and containment

A cluster is dropped as contained before the thresholds are applied.  Nothing is lost by that order:
a block that contains another one has at least as many members and keys, and each of its members
holds a member of the other one, so on tokens in the order of their lines it spans no fewer lines.
Meeting the thresholds therefore passes from a block to its containers, and applying them before the
containment pass gives the same clusters in the same order.
-/

namespace CloneScan

theorem Block.IsDuplicate.eq_of_shared {files : Array KeyedFile} {b : Block}
    (h : b.IsDuplicate files) {m n : Member} (hm : m ∈ b.members) (hn : n ∈ b.members)
    (hfile : m.file = n.file) {k : Nat} (hkm : m.start ≤ k ∧ k ≤ m.stop)
    (hkn : n.start ≤ k ∧ k ≤ n.stop) : m = n := by
  obtain ⟨i, hi, rfl⟩ := List.mem_iff_getElem.mp hm
  obtain ⟨j, hj, rfl⟩ := List.mem_iff_getElem.mp hn
  have hordered := List.pairwise_iff_getElem.mp h.ordered
  rcases Nat.lt_trichotomy i j with hij | rfl | hij
  · have hbefore := hordered i j hi hj hij
    simp only [Member.Before] at hbefore
    omega
  · rfl
  · have hbefore := hordered j i hj hi hij
    simp only [Member.Before] at hbefore
    omega

namespace Clone

/-! ## Filtering before and after the pass -/

section Filter

variable {α : Type} {le : α → α → Bool}

theorem append_cut_unique {a : α} {front rear front' rear' : List α}
    (h : front ++ rear = front' ++ rear') (hfront : ∀ b ∈ front, le a b = false)
    (hrear : ∀ b ∈ rear, le a b = true) (hfront' : ∀ b ∈ front', le a b = false)
    (hrear' : ∀ b ∈ rear', le a b = true) : front = front' ∧ rear = rear' := by
  have htake (x y : List α) (hx : ∀ b ∈ x, le a b = false) (hy : ∀ b ∈ y, le a b = true) :
      (x ++ y).takeWhile (fun b => !le a b) = x := by
    rw [List.takeWhile_append_of_pos (by simpa using hx)]
    cases y with
    | nil => simp
    | cons b y => simp [hy b (by simp)]
  have heq : front = front' := by
    rw [← htake front rear hfront hrear, h, htake front' rear' hfront' hrear']
  subst heq
  exact ⟨rfl, List.append_cancel_left h⟩

/-- A stable sort may be filtered before or after. -/
theorem filter_mergeSort (htrans : ∀ a b c, le a b = true → le b c = true → le a c = true)
    (htotal : ∀ a b, (le a b || le b a) = true) (p : α → Bool) (l : List α) :
    (l.mergeSort le).filter p = (l.filter p).mergeSort le := by
  induction l with
  | nil => simp
  | cons a l ih =>
      obtain ⟨front, rear, hcons, hl, hfront⟩ := List.mergeSort_cons htrans htotal a l
      by_cases ha : p a = true
      · -- `a` goes to the same place among the kept items
        obtain ⟨front', rear', hcons', hl', hfront'⟩ :=
          List.mergeSort_cons htrans htotal a (l.filter p)
        have hrear := List.pairwise_mergeSort htrans htotal (a :: l)
        have hrear' := List.pairwise_mergeSort htrans htotal (a :: l.filter p)
        rw [hcons] at hrear
        rw [hcons'] at hrear'
        have hafter := (List.pairwise_cons.mp (List.pairwise_append.mp hrear).2.1).1
        have hafter' := (List.pairwise_cons.mp (List.pairwise_append.mp hrear').2.1).1
        have hparts : front.filter p ++ rear.filter p = front' ++ rear' := by
          rw [← List.filter_append, ← hl, ih, hl']
        obtain ⟨hf, hr⟩ := append_cut_unique hparts
          (fun b hb => by simpa using hfront b (List.mem_of_mem_filter hb))
          (fun b hb => hafter b (List.mem_of_mem_filter hb))
          (fun b hb => by simpa using hfront' b hb) hafter'
        rw [List.filter_cons_of_pos ha, hcons, hcons', List.filter_append,
          List.filter_cons_of_pos ha, hf, hr]
      · rw [List.filter_cons_of_neg ha, ← ih, hcons, hl, List.filter_append, List.filter_append,
          List.filter_cons_of_neg ha]

end Filter

/-- What holds of every container of a block that it holds of may be tested before or after the
pass. -/
theorem filter_keepMaximal {p : Block → Bool} {kept blocks : List Block}
    (hup : ∀ a ∈ blocks, ∀ b ∈ kept ++ blocks, p a = true → Block.inside a b = true → p b = true) :
    (keepMaximal kept blocks).filter p = keepMaximal (kept.filter p) (blocks.filter p) := by
  induction blocks generalizing kept with
  | nil => rfl
  | cons a rest ih =>
      have hrest' : ∀ b ∈ rest, ∀ c ∈ (kept ++ [a]) ++ rest,
          p b = true → Block.inside b c = true → p c = true := by
        intro b hb c hc
        refine hup b (List.mem_cons_of_mem a hb) c ?_
        simpa using hc
      have hrest : ∀ b ∈ rest, ∀ c ∈ kept ++ rest,
          p b = true → Block.inside b c = true → p c = true :=
        fun b hb c hc => hrest' b hb c (by grind)
      by_cases ha : p a = true
      · have hany : (kept.filter p).any (Block.inside a) = kept.any (Block.inside a) := by
          rw [Bool.eq_iff_iff, List.any_eq_true, List.any_eq_true]
          constructor
          · rintro ⟨b, hb, hab⟩
            exact ⟨b, List.mem_of_mem_filter hb, hab⟩
          · rintro ⟨b, hb, hab⟩
            have hpb := hup a List.mem_cons_self b (List.mem_append_left _ hb) ha hab
            exact ⟨b, List.mem_filter.mpr ⟨hb, hpb⟩, hab⟩
        rw [List.filter_cons_of_pos ha]
        simp only [keepMaximal, hany]
        split
        · exact ih hrest
        · rw [ih hrest', List.filter_append, List.filter_cons_of_pos ha, List.filter_nil]
      · rw [List.filter_cons_of_neg ha]
        simp only [keepMaximal]
        split
        · exact ih hrest
        · rw [ih hrest', List.filter_append, List.filter_cons_of_neg ha, List.filter_nil,
            List.append_nil]

theorem filter_dropContained {p : Block → Bool} {blocks : List Block}
    (hup : ∀ a ∈ blocks, ∀ b ∈ blocks, p a = true → Block.inside a b = true → p b = true) :
    (dropContained blocks).filter p = dropContained (blocks.filter p) := by
  rw [dropContained, dropContained, ← filter_mergeSort Block.le_trans Block.le_total]
  refine filter_keepMaximal ?_
  intro a ha b hb
  exact hup a (List.mem_mergeSort.mp ha) b (List.mem_mergeSort.mp hb)

/-! ## Members of a container -/

variable {files : Array KeyedFile} {length : Nat}

theorem isCopy_of_inside {a b : Block} (ha : a.IsDuplicate files) (hb : b.IsDuplicate files)
    (hlength : 0 < a.length) {m o n : Member} (hm : m ∈ a.members) (ho : o ∈ b.members)
    (hmo : Member.inside m o = true) (hn : n ∈ b.members) :
    a.IsCopy files ⟨n.file, n.start + (m.start - o.start),
      n.start + (m.start - o.start) + a.length - 1⟩ := by
  have hspanM := ha.spans m hm
  have hspanO := hb.spans o ho
  have hspanN := hb.spans n hn
  have hbound := hb.bounded n hn
  obtain ⟨hfile, hstart, hstop⟩ := Member.inside_iff.mp hmo
  refine ⟨by simp only; omega, by simp only; omega, ?_⟩
  intro x hx k hk
  have hcontainer := hb.sameKeys n hn o ho (m.start - o.start + k) (by omega)
  have hcontained := ha.sameKeys m hm x hx k hk
  rw [← hcontained, hfile]
  simp only [Nat.add_assoc] at hcontainer ⊢
  rw [hcontainer]
  congr 1
  omega

/-- Every member of a container holds a member of the block inside it, although thinning leaves
copies out. -/
theorem exists_member_inside (hhash : HasWindowHashes files length)
    (hkeys : HashesFollowKeys files length) (hlength : 0 < length) {a b : Block}
    (ha : a ∈ grownBlocks files length) (hb : b ∈ grownBlocks files length)
    (hab : Block.inside a b = true) {n : Member} (hn : n ∈ b.members) :
    ∃ m ∈ a.members, Member.inside m n = true := by
  obtain ⟨first, more, -, hgrown, hdupA⟩ := exists_class_of_mem_grownBlocks hhash hlength ha
  obtain ⟨-, -, -, -, hdupB⟩ := exists_class_of_mem_grownBlocks hhash hlength hb
  have hlong : length ≤ a.length := hgrown ▸ length_le_grownBlock
  have hinside := (Block.inside_iff.mp hab).2
  have htwo := hdupA.two_le
  obtain ⟨m, hm⟩ := List.exists_mem_of_length_pos (by omega : 0 < a.members.length)
  obtain ⟨o, ho, hmo⟩ := hinside m hm
  -- at the same distance as in `o`, the member `n` holds a copy
  have hcopy := isCopy_of_inside hdupA hdupB (by omega) hm ho hmo hn
  obtain ⟨hfile, hstart, hstop⟩ := Member.inside_iff.mp hmo
  have hspanM := hdupA.spans m hm
  have hspanO := hdupB.spans o ho
  have hspanN := hdupB.spans n hn
  rcases mem_or_leftOut_of_isCopy hhash hkeys hlength ha hcopy with hmem | hout
  · refine ⟨_, hmem, Member.inside_iff.mpr ⟨rfl, ?_, ?_⟩⟩
    · simp only
      omega
    · simp only
      omega
  · -- the member that the copy overlaps lies in the same member of the container
    obtain ⟨x, hx, hxfile, hxstart, hxstop⟩ := hout.overlaps
    simp only at hxfile hxstart hxstop
    obtain ⟨y, hy, hxy⟩ := hinside x hx
    have hspanX := hdupA.spans x hx
    have hin := Member.inside_iff.mp hxy
    obtain rfl := hdupB.eq_of_shared hy hn (hin.1.symm.trans hxfile)
      (by omega : y.start ≤ n.start + (m.start - o.start) ∧
        n.start + (m.start - o.start) ≤ y.stop) (by omega)
    exact ⟨x, hx, hxy⟩

theorem acceptedBlocks_true (files : Array KeyedFile) (length : Nat) :
    acceptedBlocks files length (fun _ => true) = grownBlocks files length := by
  refine Eq.trans (List.filterMap_congr ?_) List.filterMap_some
  intro b hb
  have htwo := (ofClasses_grownBlocks files length b hb).1
  simp [htwo]

theorem grownBlocks_eq_nil (h : ∀ f ∈ files, f.hashes = []) : grownBlocks files length = [] := by
  rw [List.eq_nil_iff_forall_not_mem]
  intro b hb
  obtain ⟨-, members, hclass, -⟩ := ofClasses_grownBlocks files length b hb
  obtain ⟨-, p, hp, -⟩ := mem_classes_iff.mp hclass
  obtain ⟨f, hf, hhash⟩ := mem_windows_iff.mp hp
  simp [h f (Array.mem_of_getElem? hf)] at hhash

end Clone

namespace Cluster

variable {files : List IndexedFile} {window : Nat}

/-! ## Lines -/

/-- First and last lines do not go back along the tokens of a file. -/
def LinesAscend (f : IndexedFile) : Prop :=
  f.tokens.toList.Pairwise fun a b => a.startLine ≤ b.startLine ∧ a.endLine ≤ b.endLine

theorem LinesAscend.lines_le {f : IndexedFile} (h : LinesAscend f) {i j : Nat} (hij : i ≤ j)
    (hj : j < f.tokens.size) : firstLine f i ≤ firstLine f j ∧ lastLine f i ≤ lastLine f j := by
  rcases Nat.eq_or_lt_of_le hij with rfl | hlt
  · exact ⟨Int.le_refl _, Int.le_refl _⟩
  · have hlines := List.pairwise_iff_getElem.mp h i j (by simp; omega) (by simpa using hj) hlt
    simp only [Array.getElem_toList] at hlines
    simp only [firstLine, lastLine, Array.getElem?_eq_getElem hj,
      Array.getElem?_eq_getElem (by omega : i < f.tokens.size)]
    omega

theorem lineCount_locate_le {f : IndexedFile} (h : LinesAscend f) {m n : Member}
    (hf : files[n.file]? = some f) (hmn : Clone.Member.inside m n = true)
    (hm : m.start ≤ m.stop) (hn : n.stop < f.tokens.size) :
    (locate files.toArray m).lineCount ≤ (locate files.toArray n).lineCount := by
  obtain ⟨hfile, hstart, hstop⟩ := Clone.Member.inside_iff.mp hmn
  have hfirst := (h.lines_le hstart (by omega)).1
  have hlast := (h.lines_le hstop hn).2
  have hfm : files[m.file]? = some f := hfile ▸ hf
  simp only [locate, List.getElem?_toArray, hf, hfm, Location.lineCount]
  omega

/-! ## Thresholds -/

theorem meets_iff {c : Cluster} {t : Thresholds} :
    c.meets t = true ↔ max 2 t.occurrences ≤ c.occurrences.length ∧ t.tokens ≤ c.tokenCount ∧
      ∀ o ∈ c.occurrences, (t.lines : Int) ≤ o.location.lineCount := by
  have hcounts : c.places.map Location.lineCount = c.occurrences.map (·.location.lineCount) := by
    simp [places]
  rw [meets, Bool.and_eq_true, Bool.and_eq_true, decide_eq_true_eq, decide_eq_true_eq, and_assoc]
  refine and_congr_right fun _ => and_congr_right fun _ => ?_
  cases hmin : c.lineCount with
  | none =>
      rw [lineCount, hcounts, List.min?_eq_none_iff, List.map_eq_nil_iff] at hmin
      simp [hmin]
  | some n =>
      rw [lineCount, hcounts] at hmin
      rw [decide_eq_true_eq, List.le_min?_iff hmin]
      simp

theorem meets_ofBlock_iff {b : Block} {t : Thresholds} :
    (ofBlock files.toArray b).meets t = true ↔
      max 2 t.occurrences ≤ b.members.length ∧ t.tokens ≤ b.length ∧
        ∀ m ∈ b.members, (t.lines : Int) ≤ (locate files.toArray m).lineCount := by
  rw [meets_iff]
  simp [ofBlock]

theorem grownBlocks_eq_nil_of_zero (hhashes : HasKeyHashes files 0) :
    Clone.grownBlocks (keyed files) 0 = [] := by
  apply Clone.grownBlocks_eq_nil
  intro f hf
  simp only [keyed, Array.mem_map, List.mem_toArray] at hf
  obtain ⟨g, hg, rfl⟩ := hf
  simp [hhashes g hg, windowHashes, rollingHashes]

/-- The container of a block that meets the thresholds meets them. -/
theorem meets_of_inside (hwindow : 1 ≤ window) (hhashes : HasKeyHashes files window)
    (hkeys : ∀ f ∈ files, f.keys.size = f.tokens.size) (hlines : ∀ f ∈ files, LinesAscend f)
    {t : Thresholds} {a b : Block} (ha : a ∈ Clone.grownBlocks (keyed files) window)
    (hb : b ∈ Clone.grownBlocks (keyed files) window) (hab : Clone.Block.inside a b = true)
    (hmeets : (ofBlock files.toArray a).meets t = true) :
    (ofBlock files.toArray b).meets t = true := by
  have hhash := hhashes.hasWindowHashes hwindow
  obtain ⟨-, -, -, -, hdup⟩ := Clone.exists_class_of_mem_grownBlocks hhash hwindow hb
  obtain ⟨htwoA, first, members, -, rfl⟩ := Clone.exists_grow_of_mem_grownBlocks ha
  obtain ⟨htwoB, first', members', -, rfl⟩ := Clone.exists_grow_of_mem_grownBlocks hb
  have hproperA := Clone.grow_isProper hwindow htwoA
  have hproperB := Clone.grow_isProper hwindow htwoB
  obtain ⟨hoccurrences, htokens, hspans⟩ := meets_ofBlock_iff.mp hmeets
  have hcount := (Clone.Block.inside_iff.mp hab).1
  have hlength := Clone.length_le_of_inside hproperA hproperB hab
  refine meets_ofBlock_iff.mpr ⟨by omega, by omega, ?_⟩
  intro n hn
  obtain ⟨m, hm, hmn⟩ := Clone.exists_member_inside hhash (hhashes.hashesFollowKeys hwindow)
    hwindow ha hb hab hn
  obtain ⟨f, hf, hstop⟩ := exists_file_of_lt_keyCount (hdup.bounded n hn)
  have hfile := List.mem_of_getElem? hf
  rw [hkeys f hfile] at hstop
  have hspan := hproperA.spans m hm
  have hpos := hproperA.pos
  exact (hspans m hm).trans (lineCount_locate_le (hlines f hfile) hf hmn (by omega) hstop)

/-- Dropping contained blocks before the thresholds are applied loses nothing. -/
theorem filter_meets_findClusters (files : List IndexedFile) (window : Nat)
    (hhashes : HasKeyHashes files window) (hkeys : ∀ f ∈ files, f.keys.size = f.tokens.size)
    (hlines : ∀ f ∈ files, LinesAscend f) (t : Thresholds) :
    (findClusters files window (fun _ => true)).filter (·.meets t) =
        (Clone.dropContained ((Clone.grownBlocks (keyed files) window).filter fun b =>
          (ofBlock files.toArray b).meets t)).map (ofBlock files.toArray) ∧
      ∀ g ∈ Clone.grownBlocks (keyed files) window, (ofBlock files.toArray g).meets t = true →
        ∃ b ∈ Clone.findBlocks (keyed files) window (fun _ => true),
          Clone.Block.inside g b = true ∧ ofBlock files.toArray b ∈
            findClusters files window (fun _ => true) ∧
              (ofBlock files.toArray b).meets t = true := by
  rcases Nat.eq_zero_or_pos window with rfl | hwindow
  · have hnone := grownBlocks_eq_nil_of_zero hhashes
    constructor
    · simp [findClusters, Clone.findBlocks, hnone, Clone.dropContained, Clone.keepMaximal]
    · simp [hnone]
  · have hup : ∀ a ∈ Clone.grownBlocks (keyed files) window,
        ∀ b ∈ Clone.grownBlocks (keyed files) window, (ofBlock files.toArray a).meets t = true →
          Clone.Block.inside a b = true → (ofBlock files.toArray b).meets t = true :=
      fun a ha b hb hmeets hab => meets_of_inside hwindow hhashes hkeys hlines ha hb hab hmeets
    constructor
    · calc
        _ = ((Clone.findBlocks (keyed files) window (fun _ => true)).filter fun b =>
              (ofBlock files.toArray b).meets t).map (ofBlock files.toArray) :=
            List.filter_map
        _ = _ := by
            rw [Clone.findBlocks_eq hwindow, Clone.acceptedBlocks_true,
              Clone.filter_dropContained hup]
    · intro g hg hmeets
      obtain ⟨b, hb, hinside⟩ := Clone.exists_inside_findBlocks hwindow hg
      have hgrown := Clone.mem_findBlocks_true hb
      exact ⟨b, hb, hinside, mem_findClusters.mpr ⟨b, hb, rfl⟩, hup g hg b hgrown hmeets hinside⟩

theorem linesAscend_letterFile (window : Nat) (path letters : Text) :
    LinesAscend (letterFile window path letters) := by
  refine Clone.pairwise_mapIdx_of_index_lt ?_ letters
  intro i j a b hij
  simp only [Token.make]
  omega

/-- Two files with three equal letters and a fourth one. -/
def tailedFiles : List IndexedFile :=
  [([1], [65, 65, 65, 66]), ([2], [65, 65, 65, 66])].map fun f => letterFile 2 f.1 f.2

theorem filter_meets_findClusters_tailedFiles :
    Clone.grownBlocks (keyed tailedFiles) 2 =
        [⟨[⟨0, 0, 1⟩, ⟨1, 0, 1⟩], 2⟩, ⟨[⟨0, 0, 3⟩, ⟨1, 0, 3⟩], 4⟩] ∧
      (findClusters tailedFiles 2 fun _ => true).length = 1 ∧
      ∃ b ∈ Clone.findBlocks (keyed tailedFiles) 2 (fun _ => true),
        Clone.Block.inside ⟨[⟨0, 0, 1⟩, ⟨1, 0, 1⟩], 2⟩ b = true ∧
          (ofBlock tailedFiles.toArray b).meets ⟨2, 2, 2⟩ = true := by
  have hgrown : Clone.grownBlocks (keyed tailedFiles) 2 =
      [⟨[⟨0, 0, 1⟩, ⟨1, 0, 1⟩], 2⟩, ⟨[⟨0, 0, 3⟩, ⟨1, 0, 3⟩], 4⟩] := by cbv
  have hkeys : ∀ f ∈ tailedFiles, f.keys.size = f.tokens.size := by decide
  have hlines : ∀ f ∈ tailedFiles, LinesAscend f := by
    intro f hf
    obtain ⟨g, -, rfl⟩ := List.mem_map.mp hf
    exact linesAscend_letterFile 2 g.1 g.2
  have hmeets :
      (ofBlock tailedFiles.toArray ⟨[⟨0, 0, 1⟩, ⟨1, 0, 1⟩], 2⟩).meets ⟨2, 2, 2⟩ = true := by cbv
  obtain ⟨-, hkept⟩ := filter_meets_findClusters tailedFiles 2 (hasKeyHashes_letterFile _ 2) hkeys
    hlines ⟨2, 2, 2⟩
  obtain ⟨b, hb, hinside, -, hb'⟩ := hkept _ (by rw [hgrown]; exact List.mem_cons_self) hmeets
  exact ⟨hgrown, by cbv, b, hb, hinside, hb'⟩

end Cluster

end CloneScan
