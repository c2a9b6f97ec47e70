import CloneScan.Proofs.DuplicateCluster

/-!
# Copies of the keys of a cluster

With the hashes of the keys, a cluster lists every copy of its keys, apart from those that overlap
an earlier occurrence.  A window of keys that stands at several places is reported as long as two of
its copies stay apart when they are taken together with the keys that surround all copies.  When
they all run into each other, growth makes the members of the class overlap, thinning leaves one of
them, and the window is not reported at all, even where two of its copies are apart.
-/

namespace CloneScan

namespace Clone

variable {files : Array KeyedFile} {length : Nat} {first : Window} {more members : List Window}

theorem mem_class_of_sameKeys (hhash : HasWindowHashes files length)
    (hkeys : HashesFollowKeys files length) (hlength : 0 < length)
    (hclass : members ∈ classes files length) {v w : Window} (hv : v ∈ members)
    (hw : w.start + length ≤ keyCount files w.file)
    (hsame : windowKeys files length w = windowKeys files length v) : w ∈ members := by
  by_cases hwv : w = v
  · exact hwv ▸ hv
  · have hbound := (alike_of_mem_classes hhash hlength hclass).bounded v hv
    obtain ⟨others, hothers, hwmem, hvmem⟩ :=
      exists_class_of_sameKeys hhash hkeys hlength hwv hw hbound hsame
    rwa [classes_eq_of_mem hclass hothers hv hvmem]

/-! What all members agree on in front of a part of their grown ranges, or behind it, is inside the
ranges: otherwise the growth would have gone on. -/

theorem le_offset_of_agree {offset before : Nat}
    (hroom : ∀ w ∈ first :: more,
      before ≤ w.start - leftGrowth files first (first :: more) + offset)
    (hagree : ∀ w ∈ first :: more, ∀ k < before,
      keyAt files w.file (w.start - leftGrowth files first (first :: more) + offset - before + k) =
        keyAt files first.file
          (first.start - leftGrowth files first (first :: more) + offset - before + k)) :
    before ≤ offset := by
  by_contra hlt
  -- all members would agree on the key before their ranges
  have hstopped : agreeBefore files first (first :: more)
      (leftGrowth files first (first :: more) + 1) = false :=
    not_agreeBefore_leftGrowth (by simp)
  apply Bool.eq_false_iff.mp hstopped
  rw [agreeBefore_iff]
  have hroomFirst := hroom first (by simp)
  intro w hw
  have hroomW := hroom w hw
  have hkey := hagree w hw (before - offset - 1) (by omega)
  refine ⟨by omega, by omega, ?_⟩
  convert hkey using 2 <;> omega

theorem le_grownLength_of_agree {offset behind : Nat}
    (hoffset : offset ≤ grownLength files length first (first :: more))
    (hroom : ∀ w ∈ first :: more,
      w.start - leftGrowth files first (first :: more) + offset + behind ≤ keyCount files w.file)
    (hagree : ∀ w ∈ first :: more, ∀ k < behind,
      keyAt files w.file (w.start - leftGrowth files first (first :: more) + offset + k) =
        keyAt files first.file
          (first.start - leftGrowth files first (first :: more) + offset + k)) :
    offset + behind ≤ grownLength files length first (first :: more) := by
  by_contra hlt
  have hstopped : agreeAfter files first (first :: more)
      (length + rightGrowth files length first (first :: more)) = false :=
    not_agreeAfter_rightGrowth (by simp)
  apply Bool.eq_false_iff.mp hstopped
  rw [agreeAfter_iff]
  have hleftFirst : leftGrowth files first (first :: more) ≤ first.start :=
    leftGrowth_le_start (by simp)
  intro w hw
  have hleft : leftGrowth files first (first :: more) ≤ w.start := leftGrowth_le_start hw
  have hroomW := hroom w hw
  have hkey := hagree w hw (grownLength files length first (first :: more) - offset) (by omega)
  simp only [grownLength] at hoffset hlt hkey
  refine ⟨by omega, ?_⟩
  convert hkey using 2 <;> omega

end Clone

namespace Cluster

variable {files : List IndexedFile} {window : Nat} {keys : List Text} {v w : Window}

/-! ## Copies -/

theorem slice_add (f : IndexedFile) (start count more : Nat) :
    f.slice start (count + more) = f.slice start count ++ f.slice (start + count) more := by
  simp [IndexedFile.slice, List.take_add, List.drop_drop]

theorem slice_length {f : IndexedFile} {start count : Nat} (h : start + count ≤ f.keys.size) :
    (f.slice start count).length = count := by
  simp only [IndexedFile.slice, List.length_take, List.length_drop, Array.length_toList]
  omega

/-- The keys from a window on are the given ones. -/
def StandsAt (files : List IndexedFile) (keys : List Text) (w : Window) : Prop :=
  ∃ f, files[w.file]? = some f ∧ f.slice w.start keys.length = keys

theorem StandsAt.keyAt_eq (h : StandsAt files keys w) {k : Nat} (hk : k < keys.length) :
    Clone.keyAt (keyed files) w.file (w.start + k) = keys[k]? := by
  obtain ⟨f, hf, hslice⟩ := h
  have hkey := congrArg (fun l => l[k]?) hslice
  simp only [slice_getElem?, hk, if_true] at hkey
  rw [keyAt_keyed hf, hkey]

theorem standsAt_of_keyAt (hne : 0 < keys.length)
    (h : ∀ k < keys.length, Clone.keyAt (keyed files) w.file (w.start + k) = keys[k]?) :
    StandsAt files keys w := by
  have hfirst := h 0 hne
  rw [List.getElem?_eq_getElem hne] at hfirst
  have hbound := Clone.isSome_keyAt_iff.mp (Option.isSome_of_eq_some hfirst)
  obtain ⟨f, hf, -⟩ := exists_file_of_lt_keyCount hbound
  refine ⟨f, hf, List.ext_getElem? fun k => ?_⟩
  rw [slice_getElem?]
  split
  · rename_i hk
    rw [← h k hk, keyAt_keyed hf]
  · rename_i hk
    rw [List.getElem?_eq_none (by omega)]

theorem StandsAt.bounded (h : StandsAt files keys w) (hne : 0 < keys.length) :
    w.start + keys.length ≤ Clone.keyCount (keyed files) w.file := by
  have hlast := h.keyAt_eq (by omega : keys.length - 1 < keys.length)
  rw [List.getElem?_eq_getElem (by omega)] at hlast
  have hbound := Clone.isSome_keyAt_iff.mp (Option.isSome_of_eq_some hlast)
  omega

theorem StandsAt.windowKeys_eq (hv : StandsAt files keys v) (hw : StandsAt files keys w) :
    Clone.windowKeys (keyed files) keys.length v =
      Clone.windowKeys (keyed files) keys.length w := by
  rw [Clone.windowKeys_eq_iff]
  intro k hk
  rw [hv.keyAt_eq hk, hw.keyAt_eq hk]

theorem keysOf_length {b : Block} (hdup : b.IsDuplicate (keyed files)) {m : Member}
    (hm : m ∈ b.members) : (keysOf files m).length = b.length := by
  obtain ⟨f, hf, hstop⟩ := exists_file_of_lt_keyCount (hdup.bounded m hm)
  have hspan := hdup.spans m hm
  simp only [keysOf, hf]
  rw [slice_length (by omega)]
  omega

theorem keysOf_getElem?_of_lt {b : Block} (hdup : b.IsDuplicate (keyed files)) {m : Member}
    (hm : m ∈ b.members) {k : Nat} (hk : k < b.length) :
    (keysOf files m)[k]? = Clone.keyAt (keyed files) m.file (m.start + k) := by
  have hspan := hdup.spans m hm
  rw [keysOf_getElem?, if_pos (by omega)]

theorem StandsAt.isCopy {b : Block} (hdup : b.IsDuplicate (keyed files)) (hlength : 0 < b.length)
    (hkeys : ∀ m ∈ b.members, keysOf files m = keys) (hcount : keys.length = b.length)
    (h : StandsAt files keys w) :
    b.IsCopy (keyed files) ⟨w.file, w.start, w.start + keys.length - 1⟩ := by
  have hbound := h.bounded (by omega)
  refine ⟨by simp only; omega, by simp only; omega, ?_⟩
  intro n hn k hk
  rw [h.keyAt_eq (by omega), ← hkeys n hn, keysOf_getElem?_of_lt hdup hn hk]

/-- Every copy of the keys of a cluster is an occurrence or starts inside one that starts no
later. -/
theorem findClusters_lists_copies (files : List IndexedFile) (window : Nat) (hwindow : 1 ≤ window)
    (hhashes : HasKeyHashes files window) :
    ∀ c ∈ findClusters files window (fun _ => true), ∃ (keys : List Text) (places : List Member),
      c.occurrences = occurrencesAt files places ∧ 2 ≤ places.length ∧ Repeats files places ∧
        keys.length = c.tokenCount ∧ (∀ m ∈ places, keysOf files m = keys) ∧
        ∀ w : Window, StandsAt files keys w →
          (⟨w.file, w.start, w.start + keys.length - 1⟩ : Member) ∈ places ∨
            ∃ m ∈ places, m.file = w.file ∧ m.start ≤ w.start ∧ w.start ≤ m.stop := by
  intro c hc
  obtain ⟨b, hb, rfl⟩ := mem_findClusters.mp hc
  have hhash := hhashes.hasWindowHashes hwindow
  obtain ⟨hdup, hlength, -⟩ := Clone.findBlocks_sound hhash hwindow hb
  have hrepeats := repeats_of_isDuplicate hdup (by omega)
  have htwo := hdup.two_le
  obtain ⟨n, hn⟩ := List.exists_mem_of_length_pos (by omega : 0 < b.members.length)
  have hcount := keysOf_length hdup hn
  have hsame : ∀ m ∈ b.members, keysOf files m = keysOf files n :=
    fun m hm => hrepeats.sameKeys m hm n hn
  refine ⟨keysOf files n, b.members, rfl, htwo, hrepeats, hcount, hsame, ?_⟩
  intro w hw
  have hcopy := hw.isCopy hdup (by omega) hsame hcount
  rcases Clone.mem_or_leftOut_of_isCopy hhash (hhashes.hashesFollowKeys hwindow) hwindow
    (Clone.mem_findBlocks_true hb) hcopy with hmem | hout
  · exact Or.inl hmem
  · obtain ⟨m, hm, hfile, hstart, hstop⟩ := hout.overlaps
    exact Or.inr ⟨m, hm, hfile, Nat.le_of_lt hstart, hstop⟩

/-- Two files with four and three equal letters. -/
def equalLetterFiles : List IndexedFile :=
  [([1], [65, 65, 65, 65]), ([2], [65, 65, 65])].map fun f => letterFile 2 f.1 f.2

theorem findClusters_lists_copies_equalLetterFiles :
    (findClusters equalLetterFiles 2 fun _ => true).map (·.occurrences) =
        [occurrencesAt equalLetterFiles [⟨0, 0, 1⟩, ⟨0, 2, 3⟩, ⟨1, 0, 1⟩]] ∧
      ∀ c ∈ findClusters equalLetterFiles 2 (fun _ => true), ∃ keys places,
        c.occurrences = occurrencesAt equalLetterFiles places ∧ keys.length = c.tokenCount ∧
        ∀ w : Window, StandsAt equalLetterFiles keys w →
          (⟨w.file, w.start, w.start + keys.length - 1⟩ : Member) ∈ places ∨
            ∃ m ∈ places, m.file = w.file ∧ m.start ≤ w.start ∧ w.start ≤ m.stop := by
  refine ⟨by cbv, fun c hc => ?_⟩
  obtain ⟨keys, places, hplaces, -, -, hcount, -, hcopies⟩ :=
    findClusters_lists_copies equalLetterFiles 2 (by decide) (hasKeyHashes_letterFile _ 2) c hc
  exact ⟨keys, places, hplaces, hcount, hcopies⟩

/-! ## Which windows are reported -/

/-- Every copy of the keys has `before` in front of it and `behind` after it. -/
def Surrounded (files : List IndexedFile) (keys before behind : List Text) : Prop :=
  ∀ w : Window, StandsAt files keys w → before.length ≤ w.start ∧
    StandsAt files (before ++ keys ++ behind) ⟨w.file, w.start - before.length⟩

/-- Taken together with keys that surround all of them, the copies of the keys overlap each
other. -/
def RunTogether (files : List IndexedFile) (keys : List Text) : Prop :=
  ∃ before behind, Surrounded files keys before behind ∧
    ∀ v w : Window, StandsAt files keys v → StandsAt files keys w →
      v.file = w.file ∧ w.start < v.start + (before ++ keys ++ behind).length

theorem surrounded_nil (files : List IndexedFile) (keys : List Text) :
    Surrounded files keys [] [] := by
  intro w hw
  exact ⟨Nat.zero_le _, by simpa using hw⟩

theorem exists_apart_of_not_runTogether (h : ¬ RunTogether files keys) {before behind : List Text}
    (hsurrounded : Surrounded files keys before behind) :
    ∃ v w : Window, StandsAt files keys v ∧ StandsAt files keys w ∧
      (v.file = w.file → v.start + (before ++ keys ++ behind).length ≤ w.start) := by
  by_contra hnone
  push Not at hnone
  refine h ⟨before, behind, hsurrounded, ?_⟩
  intro v w hv hw
  obtain ⟨hfile, hstart⟩ := hnone v w hv hw
  exact ⟨hfile, hstart⟩

theorem exists_surrounded_of_agree (left right : Nat) (hne : 0 < keys.length)
    (hv : StandsAt files keys v) (hleft : ∀ w, StandsAt files keys w → left ≤ w.start)
    (hright : v.start + keys.length + right ≤ Clone.keyCount (keyed files) v.file)
    (hagree : ∀ w, StandsAt files keys w → ∀ k < left + keys.length + right,
      Clone.keyAt (keyed files) w.file (w.start - left + k) =
        Clone.keyAt (keyed files) v.file (v.start - left + k)) :
    ∃ before behind, before.length = left ∧ behind.length = right ∧
      Surrounded files keys before behind := by
  have hleftV := hleft v hv
  obtain ⟨f, hf, hslice⟩ := hv
  rw [keyCount_keyed hf] at hright
  have hbefore := slice_length (by omega : v.start - left + left ≤ f.keys.size)
  have hbehind := slice_length hright
  -- the run of keys around the copy, cut where the copy starts and ends
  have hwhole : f.slice (v.start - left) (left + keys.length + right) =
      f.slice (v.start - left) left ++ keys ++ f.slice (v.start + keys.length) right := by
    rw [slice_add, slice_add, ← Nat.add_assoc, Nat.sub_add_cancel hleftV, hslice]
  refine ⟨_, _, hbefore, hbehind, ?_⟩
  intro w hw
  rw [hbefore, ← hwhole]
  refine ⟨hleft w hw, ?_⟩
  have hlength := slice_length
    (by omega : v.start - left + (left + keys.length + right) ≤ f.keys.size)
  apply standsAt_of_keyAt
  · omega
  · intro k hk
    rw [hlength] at hk
    rw [hagree w hw k hk, keyAt_keyed hf, slice_getElem?, if_pos hk]

theorem standsAt_iff_mem_class (hhashes : HasKeyHashes files keys.length) (hne : 0 < keys.length)
    {members : List Window} (hclass : members ∈ Clone.classes (keyed files) keys.length)
    (hv : StandsAt files keys v) (hvmem : v ∈ members) :
    StandsAt files keys w ↔ w ∈ members := by
  have hhash := hhashes.hasWindowHashes hne
  constructor
  · intro hw
    exact Clone.mem_class_of_sameKeys hhash (hhashes.hashesFollowKeys hne) hne hclass hvmem
      (hw.bounded hne) (hw.windowKeys_eq hv)
  · intro hw
    apply standsAt_of_keyAt hne
    intro k hk
    rw [← hv.keyAt_eq hk]
    exact (Clone.alike_of_mem_classes hhash hne hclass).sameKeys w hw v hvmem k hk

theorem exists_surrounded_of_class {first : Window} {more : List Window}
    (halike : Clone.Alike (keyed files) keys.length (first :: more)) (hne : 0 < keys.length)
    (hcopies : ∀ w, StandsAt files keys w ↔ w ∈ first :: more) :
    ∃ before behind, Surrounded files keys before behind ∧
      (before ++ keys ++ behind).length =
        Clone.grownLength (keyed files) keys.length first (first :: more) := by
  have hfirst := (hcopies first).mpr (by simp)
  have hstart : ∀ w, StandsAt files keys w →
      Clone.leftGrowth (keyed files) first (first :: more) ≤ w.start :=
    fun w hw => Clone.leftGrowth_le_start ((hcopies w).mp hw)
  have hbound := halike.grown_bounded first (by simp)
  have hroom := hstart first hfirst
  simp only [Clone.grownLength] at hbound
  obtain ⟨before, behind, hbefore, hbehind, hsurrounded⟩ := exists_surrounded_of_agree
    _ (Clone.rightGrowth (keyed files) keys.length first (first :: more)) hne hfirst hstart
    (by omega) fun w hw k hk => halike.grown_sameKeys
      (by simp only [Clone.grownLength]; omega) w ((hcopies w).mp hw)
  refine ⟨before, behind, hsurrounded, ?_⟩
  simp only [List.length_append, Clone.grownLength, hbefore, hbehind]
  omega

theorem exists_findBlocks_of_not_runTogether (hhashes : HasKeyHashes files keys.length)
    (hne : 0 < keys.length) (h : ¬ RunTogether files keys) :
    ∃ b ∈ Clone.findBlocks (keyed files) keys.length (fun _ => true),
      ∀ m ∈ b.members, keys <:+: keysOf files m := by
  have hhash := hhashes.hasWindowHashes hne
  have hfollow := hhashes.hashesFollowKeys hne
  obtain ⟨v, w, hv, hw, hapart⟩ := exists_apart_of_not_runTogether h (surrounded_nil files keys)
  have hvw : v ≠ w := by
    rintro rfl
    have hlength := hapart rfl
    simp only [List.nil_append, List.append_nil] at hlength
    omega
  obtain ⟨members, hclass, hvmem, -⟩ := Clone.exists_class_of_sameKeys hhash hfollow hne hvw
    (hv.bounded hne) (hw.bounded hne) (hv.windowKeys_eq hw)
  have hcopies : ∀ x, StandsAt files keys x ↔ x ∈ members :=
    fun x => standsAt_iff_mem_class hhashes hne hclass hv hvmem
  obtain ⟨first, more, rfl⟩ := List.exists_cons_of_ne_nil (List.ne_nil_of_mem hvmem)
  have halike := Clone.alike_of_mem_classes hhash hne hclass
  -- growth adds keys that surround all copies, and two copies stay apart with them
  obtain ⟨before, behind, hsurrounded, hlength⟩ := exists_surrounded_of_class halike hne hcopies
  obtain ⟨x, y, hx, hy, hfar⟩ := exists_apart_of_not_runTogether h hsurrounded
  rw [hlength] at hfar
  have htwo := halike.two_le_grownBlock hne ((hcopies x).mp hx) ((hcopies y).mp hy) hfar
  obtain ⟨b, hb, -, n, hn, start, hstart, hstop, hwindow⟩ :=
    Clone.exists_findBlocks_of_class hhash hfollow hne hclass htwo hvmem
  obtain ⟨hdup, hblock, -⟩ := Clone.findBlocks_sound hhash hne hb
  have hrepeats := repeats_of_isDuplicate hdup (by omega)
  refine ⟨b, hb, ?_⟩
  intro m hm
  rw [hrepeats.sameKeys m hm n hn]
  obtain ⟨f, hf, hslice⟩ := hv
  rw [← hslice]
  refine slice_isInfix_keysOf hstart hstop fun k hk => ?_
  rw [hwindow k hk, keyAt_keyed hf]

/-- Keys inside a member of a block stand at the same distance in the grown range of every window
of its class. -/
theorem standsAt_of_part {first : Window} {more : List Window}
    (halike : Clone.Alike (keyed files) window (first :: more))
    (hdup : (Clone.grownBlock (keyed files) window (first :: more)).IsDuplicate (keyed files))
    {m : Member} (hm : m ∈ (Clone.grownBlock (keyed files) window (first :: more)).members)
    (hne : 0 < keys.length) {front rear : List Text}
    (hparts : front ++ keys ++ rear = keysOf files m) (hw : w ∈ first :: more) :
    StandsAt files keys ⟨w.file,
      w.start - Clone.leftGrowth (keyed files) first (first :: more) + front.length⟩ := by
  have hlength := keysOf_length hdup hm
  have hblock : (Clone.grownBlock (keyed files) window (first :: more)).length =
      Clone.grownLength (keyed files) window first (first :: more) := Clone.grow_length
  rw [← hparts] at hlength
  simp only [List.length_append] at hlength
  obtain ⟨u, hu, hrange⟩ := Clone.mem_grow_block hm
  apply standsAt_of_keyAt hne
  intro k hk
  have hinside : front.length + k <
      Clone.grownLength (keyed files) window first (first :: more) := by omega
  calc
    _ = Clone.keyAt (keyed files) w.file
        (w.start - Clone.leftGrowth (keyed files) first (first :: more) + (front.length + k)) := by
      rw [Nat.add_assoc]
    _ = Clone.keyAt (keyed files) u.file
        (u.start - Clone.leftGrowth (keyed files) first (first :: more) + (front.length + k)) :=
      (halike.grown_sameKeys hinside w hw).trans (halike.grown_sameKeys hinside u hu).symm
    _ = (keysOf files m)[front.length + k]? := by
      rw [keysOf_getElem?_of_lt hdup hm (by omega), hrange]
      rfl
    _ = keys[k]? := by
      rw [← hparts, List.append_assoc, List.getElem?_append_right (by omega),
        Nat.add_sub_cancel_left, List.getElem?_append_left hk]

/-- Growth takes in what surrounds every copy of keys inside a block. -/
theorem length_le_grownLength_of_surrounded {first : Window} {more : List Window}
    (halike : Clone.Alike (keyed files) window (first :: more))
    (hdup : (Clone.grownBlock (keyed files) window (first :: more)).IsDuplicate (keyed files))
    {m : Member} (hm : m ∈ (Clone.grownBlock (keyed files) window (first :: more)).members)
    (hne : 0 < keys.length) (hpart : keys <:+: keysOf files m) {before behind : List Text}
    (hsurrounded : Surrounded files keys before behind) :
    (before ++ keys ++ behind).length ≤
      Clone.grownLength (keyed files) window first (first :: more) := by
  obtain ⟨front, rear, hparts⟩ := hpart
  have hwhole (w : Window) (hw : w ∈ first :: more) :=
    hsurrounded _ (standsAt_of_part halike hdup hm hne hparts hw)
  have hcount : front.length + (keys.length + rear.length) =
      Clone.grownLength (keyed files) window first (first :: more) := by
    have hlength := keysOf_length hdup hm
    rw [← hparts, Clone.grownBlock, Clone.grow_length] at hlength
    simpa only [List.length_append, Nat.add_assoc] using hlength
  -- the key at a distance from where the surrounding keys start is the same at every window
  have hagree (w : Window) (hw : w ∈ first :: more) (k : Nat)
      (hk : k < (before ++ keys ++ behind).length) :=
    ((hwhole w hw).2.keyAt_eq hk).trans ((hwhole first (by simp)).2.keyAt_eq hk).symm
  simp only [List.length_append] at hagree ⊢
  have hfront : before.length ≤ front.length :=
    Clone.le_offset_of_agree (fun w hw => (hwhole w hw).1)
      fun w hw k hk => hagree w hw k (by omega)
  have hrear : front.length + (keys.length + behind.length) ≤
      Clone.grownLength (keyed files) window first (first :: more) := by
    refine Clone.le_grownLength_of_agree (by omega) ?_ ?_
    · intro w hw
      have hroom := (hwhole w hw).1
      have hbound := (hwhole w hw).2.bounded (by simp only [List.length_append]; omega)
      simp only [List.length_append] at hroom hbound
      omega
    · intro w hw k hk
      have hroomW := (hwhole w hw).1
      have hroomFirst := (hwhole first (by simp)).1
      have hkey := hagree w hw (before.length + k) (by omega)
      rwa [← Nat.add_assoc, ← Nat.add_assoc, Nat.sub_add_cancel hroomW,
        Nat.sub_add_cancel hroomFirst] at hkey
  omega

theorem not_runTogether_of_part (hhashes : HasKeyHashes files keys.length)
    (hne : 0 < keys.length) {b : Block}
    (hb : b ∈ Clone.findBlocks (keyed files) keys.length (fun _ => true))
    (hpart : ∀ m ∈ b.members, keys <:+: keysOf files m) : ¬ RunTogether files keys := by
  rintro ⟨before, behind, hsurrounded, hoverlap⟩
  have hhash := hhashes.hasWindowHashes hne
  obtain ⟨first, more, hclass, rfl, hdup⟩ :=
    Clone.exists_class_of_mem_grownBlocks hhash hne (Clone.mem_findBlocks_true hb)
  have halike := Clone.alike_of_mem_classes hhash hne hclass
  -- two members that share no key, by the windows that they were grown from
  have htwo := hdup.two_le
  have hbefore := List.pairwise_iff_getElem.mp hdup.ordered 0 1 (by omega) (by omega) (by omega)
  have hm := List.getElem_mem (by omega :
    0 < (Clone.grownBlock (keyed files) keys.length (first :: more)).members.length)
  have hn := List.getElem_mem (by omega :
    1 < (Clone.grownBlock (keyed files) keys.length (first :: more)).members.length)
  have hgrown := length_le_grownLength_of_surrounded halike hdup hm hne (hpart _ hm) hsurrounded
  obtain ⟨front, rear, hparts⟩ := hpart _ hm
  obtain ⟨u, hu, hrangeU⟩ := Clone.mem_grow_block hm
  obtain ⟨v, hv, hrangeV⟩ := Clone.mem_grow_block hn
  obtain ⟨hfile, hstart⟩ := hoverlap _ _ (standsAt_of_part halike hdup hm hne hparts hu)
    (standsAt_of_part halike hdup hm hne hparts hv)
  rw [hrangeU, hrangeV] at hbefore
  simp only [Member.Before, Clone.rangeOf] at hbefore hfile hstart
  omega

/-- A window of keys is reported exactly when its copies, together with the keys that surround all
of them, do not all overlap each other. -/
theorem exists_findClusters_iff_not_runTogether (files : List IndexedFile) (window : Nat)
    (hwindow : 1 ≤ window) (hhashes : HasKeyHashes files window) (keys : List Text)
    (hkeys : keys.length = window) :
    (∃ c ∈ findClusters files window (fun _ => true),
      ∃ b ∈ Clone.findBlocks (keyed files) window (fun _ => true), c = ofBlock files.toArray b ∧
        2 ≤ b.members.length ∧ ∀ m ∈ b.members, keys <:+: keysOf files m) ↔
      ¬ RunTogether files keys := by
  subst hkeys
  constructor
  · rintro ⟨c, -, b, hb, -, -, hpart⟩
    exact not_runTogether_of_part hhashes hwindow hb hpart
  · intro h
    obtain ⟨b, hb, hpart⟩ := exists_findBlocks_of_not_runTogether hhashes hwindow h
    have htwo := (Clone.mem_findBlocks hb).1
    exact ⟨_, mem_findClusters.mpr ⟨b, hb, rfl⟩, b, hb, rfl, htwo, hpart⟩

/-- A file with two letters written twice. -/
def doubledFile : List IndexedFile :=
  [([1], [65, 66, 65, 66])].map fun f => letterFile 2 f.1 f.2

theorem not_runTogether_doubledFile : ¬ RunTogether doubledFile [[65], [66]] := by
  rintro ⟨before, behind, hsurrounded, hoverlap⟩
  have hfront : StandsAt doubledFile [[65], [66]] ⟨0, 0⟩ := ⟨_, rfl, by decide⟩
  have hrear : StandsAt doubledFile [[65], [66]] ⟨0, 2⟩ := ⟨_, rfl, by decide⟩
  -- nothing stands before the first copy and nothing behind the second
  obtain ⟨hroom, -⟩ := hsurrounded _ hfront
  have hbound := (hsurrounded _ hrear).2.bounded (by simp)
  obtain ⟨-, hstart⟩ := hoverlap _ _ hfront hrear
  have hcount : Clone.keyCount (keyed doubledFile) 0 = 4 := by cbv
  simp only [List.length_append, List.length_cons, List.length_nil, hcount] at hroom hbound hstart
  omega

theorem exists_findClusters_doubledFile :
    ∃ c ∈ findClusters doubledFile 2 (fun _ => true),
      ∃ b ∈ Clone.findBlocks (keyed doubledFile) 2 (fun _ => true),
        c = ofBlock doubledFile.toArray b ∧ 2 ≤ b.members.length ∧
          ∀ m ∈ b.members, [[65], [66]] <:+: keysOf doubledFile m :=
  (exists_findClusters_iff_not_runTogether doubledFile 2 (by decide) (hasKeyHashes_letterFile _ 2)
    [[65], [66]] rfl).mpr not_runTogether_doubledFile

/-- Two letters written twice, and the first of them once more. -/
def alternatingFile : List IndexedFile :=
  [([1], [65, 66, 65, 66, 65])].map fun f => letterFile 2 f.1 f.2

/-- The two letters stand at two places that share no key, and no cluster is reported: both copies
are followed by the first letter, and with it they overlap. -/
theorem findClusters_alternatingFile :
    HasKeyHashes alternatingFile 2 ∧
      (∃ f, alternatingFile[0]? = some f ∧ 0 + 2 ≤ 2 ∧ 2 + 2 ≤ f.keys.size ∧
        f.slice 0 2 = f.slice 2 2) ∧
      findClusters alternatingFile 2 (fun _ => true) = [] := by
  refine ⟨hasKeyHashes_letterFile _ 2, ⟨_, rfl, by decide, by decide, by decide⟩, ?_⟩
  cbv

end Cluster

end CloneScan
