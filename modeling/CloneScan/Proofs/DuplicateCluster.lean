import CloneScan.Clone.Cluster
import CloneScan.Proofs.DuplicateBlock
import CloneScan.Proofs.RollingHash
import Mathlib

/-!
# The clusters of the search

The main statements on duplicated code, in terms of files and their keys.  A reported cluster is a
real repetition at places that `keep` accepts, whatever the hashes are.  With the hashes of the
keys, equal windows of two files are never missed, and a cluster is as long as all copies of its
keys allow.
-/

namespace CloneScan

/-! ## Places in files -/

/-- A run of keys of a file. -/
def IndexedFile.slice (f : IndexedFile) (start count : Nat) : List Text :=
  (f.keys.toList.drop start).take count

namespace Cluster

/-- The keys at a place. -/
def keysOf (files : List IndexedFile) (m : Member) : List Text :=
  match files[m.file]? with
  | some f => f.slice m.start (m.stop + 1 - m.start)
  | none => []

/-- The occurrences at some places. -/
def occurrencesAt (files : List IndexedFile) (places : List Member) : List Occurrence :=
  places.map fun m => ⟨locate files.toArray m, m.start, m.stop⟩

/-- The same keys stand at places that lie in their files and share no key. -/
structure Repeats (files : List IndexedFile) (places : List Member) : Prop where
  inBounds : ∀ m ∈ places, ∃ f, files[m.file]? = some f ∧ m.start ≤ m.stop ∧ m.stop < f.keys.size
  sameKeys : ∀ m ∈ places, ∀ n ∈ places, keysOf files m = keysOf files n
  disjoint : places.Pairwise fun m n => m.file = n.file → m.stop < n.start ∨ n.stop < m.start

/-- The files as the search of blocks sees them. -/
def keyed (files : List IndexedFile) : Array KeyedFile :=
  files.toArray.map fun f => ⟨f.keys, f.hashes⟩

theorem mem_findClusters {files : List IndexedFile} {window : Nat} {keep : Location → Bool}
    {c : Cluster} :
    c ∈ findClusters files window keep ↔
      ∃ b ∈ Clone.findBlocks (keyed files) window fun m => keep (locate files.toArray m),
        ofBlock files.toArray b = c :=
  List.mem_map

variable {files : List IndexedFile} {window : Nat}

theorem keyed_getElem? (files : List IndexedFile) (i : Nat) :
    (keyed files)[i]? = files[i]?.map fun f => ⟨f.keys, f.hashes⟩ := by
  simp [keyed]

theorem keyCount_keyed {i : Nat} {f : IndexedFile} (hf : files[i]? = some f) :
    Clone.keyCount (keyed files) i = f.keys.size := by
  simp [Clone.keyCount, keyed_getElem?, hf]

theorem keyAt_keyed {i : Nat} {f : IndexedFile} (hf : files[i]? = some f) (k : Nat) :
    Clone.keyAt (keyed files) i k = f.keys[k]? := by
  simp [Clone.keyAt, keyed_getElem?, hf]

theorem exists_file_of_lt_keyCount {i k : Nat} (h : k < Clone.keyCount (keyed files) i) :
    ∃ f, files[i]? = some f ∧ k < f.keys.size := by
  cases hf : files[i]? with
  | none => simp [Clone.keyCount, keyed_getElem?, hf] at h
  | some f => exact ⟨f, rfl, by rwa [keyCount_keyed hf] at h⟩

theorem slice_getElem? (f : IndexedFile) (start count k : Nat) :
    (f.slice start count)[k]? = if k < count then f.keys[start + k]? else none := by
  simp only [IndexedFile.slice, List.getElem?_take, List.getElem?_drop, Array.getElem?_toList]

theorem keysOf_getElem? (files : List IndexedFile) (m : Member) (k : Nat) :
    (keysOf files m)[k]? =
      if k < m.stop + 1 - m.start then Clone.keyAt (keyed files) m.file (m.start + k)
      else none := by
  cases hf : files[m.file]? with
  | none => simp [keysOf, hf, Clone.keyAt, keyed_getElem?]
  | some f => simp only [keysOf, hf, slice_getElem?, keyAt_keyed hf]

/-- Places of one length hold the same keys when their keys agree one by one. -/
theorem keysOf_eq_iff {m n : Member} (hspan : m.stop + 1 - m.start = n.stop + 1 - n.start) :
    keysOf files m = keysOf files n ↔ ∀ k < m.stop + 1 - m.start,
      Clone.keyAt (keyed files) m.file (m.start + k) =
        Clone.keyAt (keyed files) n.file (n.start + k) := by
  constructor
  · intro h k hk
    have hkey := congrArg (fun l => l[k]?) h
    simpa [keysOf_getElem?, hk, hspan ▸ hk] using hkey
  · intro h
    apply List.ext_getElem?
    intro k
    by_cases hk : k < m.stop + 1 - m.start
    · rw [keysOf_getElem?, keysOf_getElem?, if_pos hk, if_pos (hspan ▸ hk), h k hk]
    · rw [keysOf_getElem?, keysOf_getElem?, if_neg hk, if_neg (hspan ▸ hk)]

/-! ## Reported clusters are repetitions -/

theorem hasWindowHashes_keyed
    (hhashes : ∀ f ∈ files, f.hashes.length = f.keys.size + 1 - window) :
    Clone.HasWindowHashes (keyed files) window := by
  intro f hf
  simp only [keyed, Array.mem_map, List.mem_toArray] at hf
  obtain ⟨g, hg, rfl⟩ := hf
  exact hhashes g hg

/-- The members of a duplicated block are places with the same keys. -/
theorem repeats_of_isDuplicate {b : Block} (h : b.IsDuplicate (keyed files))
    (hlength : 0 < b.length) : Repeats files b.members := by
  refine ⟨?_, ?_, ?_⟩
  · intro m hm
    obtain ⟨f, hf, hstop⟩ := exists_file_of_lt_keyCount (h.bounded m hm)
    have hspan := h.spans m hm
    exact ⟨f, hf, by omega, hstop⟩
  · intro m hm n hn
    have hspanM := h.spans m hm
    have hspanN := h.spans n hn
    rw [keysOf_eq_iff (by omega)]
    intro k hk
    exact h.sameKeys m hm n hn k (by omega)
  · refine h.ordered.imp ?_
    intro m n hmn hfile
    simp only [Member.Before] at hmn
    omega

/-- An occurrence of a place has its tokens, the path of its file and the lines from the start of
its first token to the end of its last one. -/
def OccursAt (files : List IndexedFile) (o : Occurrence) (m : Member) : Prop :=
  o.startToken = m.start ∧ o.endToken = m.stop ∧
    ∃ f first last, files[m.file]? = some f ∧ f.tokens[m.start]? = some first ∧
      f.tokens[m.stop]? = some last ∧ o.location = ⟨f.path, first.startLine, last.endLine⟩

theorem occursAt_occurrence {m : Member} {f : IndexedFile} (hf : files[m.file]? = some f)
    (hle : m.start ≤ m.stop) (hstop : m.stop < f.tokens.size) :
    OccursAt files ⟨locate files.toArray m, m.start, m.stop⟩ m := by
  have hfirst : f.tokens[m.start]? = some f.tokens[m.start] :=
    Array.getElem?_eq_getElem (by omega)
  have hlast : f.tokens[m.stop]? = some f.tokens[m.stop] := Array.getElem?_eq_getElem hstop
  refine ⟨rfl, rfl, f, _, _, hf, hfirst, hlast, ?_⟩
  simp [locate, firstLine, lastLine, hf, hfirst, hlast]

/-- No phantom duplicates. -/
theorem findClusters_repeats (files : List IndexedFile) (window : Nat) (keep : Location → Bool)
    (hwindow : 1 ≤ window) (hkeys : ∀ f ∈ files, f.keys.size = f.tokens.size)
    (hhashes : ∀ f ∈ files, f.hashes.length = f.tokens.size + 1 - window) :
    ∀ c ∈ findClusters files window keep, window ≤ c.tokenCount ∧ 2 ≤ c.occurrences.length ∧
      (∀ o ∈ c.occurrences, o.endToken - o.startToken + 1 = c.tokenCount ∧
        keep o.location = true) ∧
      ∃ places : List Member, List.Forall₂ (OccursAt files) c.occurrences places ∧
        Repeats files places ∧
        (places.Pairwise fun m n => m.file < n.file ∨ m.file = n.file ∧ m.start < n.start) ∧
        ∃ first rest f, places = first :: rest ∧ files[first.file]? = some f ∧
          c.tokens = (f.tokens.toList.drop first.start).take c.tokenCount := by
  intro c hc
  obtain ⟨b, hb, rfl⟩ := mem_findClusters.mp hc
  have hhash : Clone.HasWindowHashes (keyed files) window :=
    hasWindowHashes_keyed fun f hf => by rw [hhashes f hf, hkeys f hf]
  obtain ⟨hdup, hlength, hkeep⟩ := Clone.findBlocks_sound hhash hwindow hb
  have hrepeats := repeats_of_isDuplicate hdup (by omega)
  have htwo : 2 ≤ b.members.length := hdup.two_le
  refine ⟨hlength, by simpa [ofBlock] using htwo, ?_, b.members, ?_, hrepeats, ?_, ?_⟩
  · intro o ho
    obtain ⟨m, hm, rfl⟩ := List.mem_map.mp ho
    have hspan := hdup.spans m hm
    exact ⟨by simp only [ofBlock]; omega, hkeep m hm⟩
  · refine List.forall₂_map_left_iff.mpr (List.forall₂_same.mpr fun m hm => ?_)
    obtain ⟨f, hf, hle, hstop⟩ := hrepeats.inBounds m hm
    exact occursAt_occurrence hf hle (by rwa [← hkeys f (List.mem_of_getElem? hf)])
  · refine hdup.ordered.imp_of_mem ?_
    intro m n hm hn hmn
    have hspan := hdup.spans m hm
    simp only [Member.Before] at hmn
    omega
  · obtain ⟨first, rest, hmembers⟩ := List.exists_cons_of_length_pos
      (by omega : 0 < b.members.length)
    have hfirst : first ∈ b.members := by simp [hmembers]
    obtain ⟨f, hf, -, -⟩ := hrepeats.inBounds first hfirst
    have hcount : first.stop + 1 - first.start = b.length := by
      have hspan := hdup.spans first hfirst
      omega
    exact ⟨first, rest, f, hmembers, hf, by simp [ofBlock, hmembers, tokensOf, hf, hcount]⟩

/-- A file of tokens of one letter, each on a line of its own. -/
def letterFile (window : Nat) (path letters : Text) : IndexedFile where
  path := path
  tokens := (letters.mapIdx fun i u => Token.make [u] .identifier ⟨i, 0⟩ ⟨i, 1⟩).toArray
  keys := (letters.map fun u => [u]).toArray
  hashes := (windowHashes (letters.map fun u => [u]) window).map (·.toNat)

/-- Two files in which all windows have the same hash. -/
def collidingFiles : List IndexedFile :=
  [{ letterFile 2 [1] [65, 66, 67] with hashes := [7, 7] },
    { letterFile 2 [2] [66, 67, 68] with hashes := [7, 7] }]

theorem findClusters_repeats_collidingFiles :
    (findClusters collidingFiles 2 fun _ => true).map (fun c => c.tokens.map Token.text) =
        [[[66], [67]]] ∧
      ∀ c ∈ findClusters collidingFiles 2 (fun _ => true),
        2 ≤ c.tokenCount ∧ 2 ≤ c.occurrences.length ∧
          ∃ places, List.Forall₂ (OccursAt collidingFiles) c.occurrences places ∧
            Repeats collidingFiles places ∧
            ∃ first rest f, places = first :: rest ∧ collidingFiles[first.file]? = some f ∧
              c.tokens = (f.tokens.toList.drop first.start).take c.tokenCount := by
  refine ⟨by cbv, fun c hc => ?_⟩
  obtain ⟨hcount, htwo, -, places, hplaces, hrepeats, -, htokens⟩ :=
    findClusters_repeats collidingFiles 2 (fun _ => true) (by decide) (by decide) (by decide) c hc
  exact ⟨hcount, htwo, places, hplaces, hrepeats, htokens⟩

/-! ## Hashes of keys -/

/-- The hashes of a file are the window hashes of its keys. -/
def HasKeyHashes (files : List IndexedFile) (window : Nat) : Prop :=
  ∀ f ∈ files, f.hashes = (windowHashes f.keys.toList window).map (·.toNat)

theorem windowKeys_eq_iff_slice {i j s t : Nat} {f g : IndexedFile} (hf : files[i]? = some f)
    (hg : files[j]? = some g) :
    Clone.windowKeys (keyed files) window ⟨i, s⟩ = Clone.windowKeys (keyed files) window ⟨j, t⟩ ↔
      f.slice s window = g.slice t window := by
  rw [Clone.windowKeys_eq_iff]
  constructor
  · intro h
    apply List.ext_getElem?
    intro k
    rw [slice_getElem?, slice_getElem?]
    split
    · rename_i hk
      simpa only [keyAt_keyed hf, keyAt_keyed hg] using h k hk
    · rfl
  · intro h k hk
    have hkey := congrArg (fun l => l[k]?) h
    simpa only [slice_getElem?, hk, if_true, keyAt_keyed hf, keyAt_keyed hg] using hkey

theorem HasKeyHashes.hasWindowHashes (h : HasKeyHashes files window) (hwindow : 0 < window) :
    Clone.HasWindowHashes (keyed files) window :=
  hasWindowHashes_keyed fun f hf => by
    rw [h f hf, List.length_map, windowHashes_length _ hwindow, Array.length_toList]

/-- The hash of a window is the polynomial hash of its keys. -/
theorem HasKeyHashes.hash_eq (h : HasKeyHashes files window) (hwindow : 0 < window)
    {p : Window × Nat} (hp : p ∈ Clone.windows (keyed files)) :
    ∃ f, files[p.1.file]? = some f ∧
      p.2 = (Rolling.polynomial ((f.slice p.1.start window).map fnv1a)).toNat := by
  have hbound := (Clone.exists_mem_windows_iff (h.hasWindowHashes hwindow) hwindow).mp ⟨p.2, hp⟩
  obtain ⟨f, hf, hlt⟩ := exists_file_of_lt_keyCount
    (by omega : p.1.start + window - 1 < Clone.keyCount (keyed files) p.1.file)
  obtain ⟨k, hk, hhash⟩ := Clone.mem_windows_iff.mp hp
  rw [keyed_getElem?, hf] at hk
  obtain rfl := Option.some.inj hk
  have hlist := windowHashes_getElem? f.keys.toList hwindow
    (by rw [Array.length_toList]; omega : p.1.start + window ≤ f.keys.toList.length)
  dsimp only at hhash
  rw [h f (List.mem_of_getElem? hf), List.getElem?_map, hlist] at hhash
  exact ⟨f, hf, (Option.some.inj hhash).symm⟩

theorem HasKeyHashes.hashesFollowKeys (h : HasKeyHashes files window) (hwindow : 0 < window) :
    Clone.HashesFollowKeys (keyed files) window := by
  intro p hp q hq hsame
  obtain ⟨f, hf, hpf⟩ := h.hash_eq hwindow hp
  obtain ⟨g, hg, hqg⟩ := h.hash_eq hwindow hq
  rw [hpf, hqg, (windowKeys_eq_iff_slice hf hg).mp hsame]

/-! ## Equal windows of two files are reported -/

/-- A window inside a place is a part of its keys. -/
theorem slice_isInfix_keysOf {f : IndexedFile} {s start : Nat} {m : Member}
    (hstart : m.start ≤ start) (hstop : start + window ≤ m.stop + 1)
    (hkeys : ∀ k < window, Clone.keyAt (keyed files) m.file (start + k) = f.keys[s + k]?) :
    f.slice s window <:+: keysOf files m := by
  have hpart : f.slice s window = ((keysOf files m).drop (start - m.start)).take window := by
    apply List.ext_getElem?
    intro k
    rw [slice_getElem?, List.getElem?_take]
    split
    · rename_i hk
      rw [List.getElem?_drop, keysOf_getElem?, if_pos (by omega), ← hkeys k hk]
      congr 1
      omega
    · rfl
  rw [hpart]
  exact (List.take_prefix _ _).isInfix.trans (List.drop_suffix _ _).isInfix

/-- No missed duplicates across files. -/
theorem exists_findClusters_of_slice_eq (files : List IndexedFile) (window : Nat)
    (hwindow : 1 ≤ window) (hhashes : HasKeyHashes files window) {i j s t : Nat}
    {f g : IndexedFile} (hij : i ≠ j) (hf : files[i]? = some f) (hg : files[j]? = some g)
    (hs : s + window ≤ f.keys.size) (ht : t + window ≤ g.keys.size)
    (heq : f.slice s window = g.slice t window) :
    ∃ c ∈ findClusters files window (fun _ => true), ∃ places : List Member,
      c.occurrences = occurrencesAt files places ∧ Repeats files places ∧
        (∃ m ∈ places, m.file = i) ∧ (∃ m ∈ places, m.file = j) ∧
          ∀ m ∈ places, f.slice s window <:+: keysOf files m := by
  have hhash := hhashes.hasWindowHashes hwindow
  obtain ⟨b, hb, hv, hw, n, hn, start, hstart, hstop, hkeys⟩ :=
    Clone.exists_findBlocks_of_sameKeys (v := ⟨i, s⟩) (w := ⟨j, t⟩) hhash
      (hhashes.hashesFollowKeys hwindow) hwindow hij (by rwa [keyCount_keyed hf])
      (by rwa [keyCount_keyed hg]) ((windowKeys_eq_iff_slice hf hg).mpr heq)
  obtain ⟨hdup, hlength, -⟩ := Clone.findBlocks_sound hhash hwindow hb
  have hrepeats := repeats_of_isDuplicate hdup (by omega)
  refine ⟨_, mem_findClusters.mpr ⟨b, hb, rfl⟩, b.members, rfl, hrepeats, hv, hw, ?_⟩
  intro m hm
  rw [hrepeats.sameKeys m hm n hn]
  refine slice_isInfix_keysOf hstart hstop fun k hk => ?_
  rw [hkeys k hk, keyAt_keyed hf]

theorem hasKeyHashes_letterFile (files : List (Text × Text)) (window : Nat) :
    HasKeyHashes (files.map fun f => letterFile window f.1 f.2) window := by
  intro f hf
  obtain ⟨g, -, rfl⟩ := List.mem_map.mp hf
  rfl

/-- Two files that share two letters. -/
def sharingFiles : List IndexedFile :=
  [([1], [65, 66, 67]), ([2], [68, 65, 66])].map fun f => letterFile 2 f.1 f.2

theorem exists_findClusters_sharingFiles :
    ∃ c ∈ findClusters sharingFiles 2 (fun _ => true), ∃ places,
      c.occurrences = occurrencesAt sharingFiles places ∧ Repeats sharingFiles places ∧
        (∃ m ∈ places, m.file = 0) ∧ (∃ m ∈ places, m.file = 1) ∧
          ∀ m ∈ places, [[65], [66]] <:+: keysOf sharingFiles m :=
  exists_findClusters_of_slice_eq sharingFiles 2 (by decide) (hasKeyHashes_letterFile _ 2)
    (s := 0) (t := 1) (by decide : 0 ≠ 1) rfl rfl (by decide) (by decide) (by decide)

/-! ## Clusters are as long as all copies allow -/

/-- A place with one key more on the right. -/
def longerRight (m : Member) : Member :=
  { m with stop := m.stop + 1 }

/-- A place with one key more on the left. -/
def longerLeft (m : Member) : Member :=
  { m with start := m.start - 1 }

/-- All places can be longer by the same key on the right. -/
def CanExtendRight (files : List IndexedFile) (places : List Member) : Prop :=
  Repeats files (places.map longerRight)

/-- All places can be longer by the same key on the left. -/
def CanExtendLeft (files : List IndexedFile) (places : List Member) : Prop :=
  (∀ m ∈ places, 0 < m.start) ∧ Repeats files (places.map longerLeft)

/-- A copy of the keys of some places that is none of them, because it starts inside one. -/
structure LeftOutCopy (files : List IndexedFile) (places : List Member) (m : Member) : Prop where
  inBounds : ∃ f, files[m.file]? = some f ∧ m.start ≤ m.stop ∧ m.stop < f.keys.size
  sameKeys : ∀ n ∈ places, keysOf files m = keysOf files n
  notMem : m ∉ places
  overlaps : ∃ n ∈ places, n.file = m.file ∧ n.start < m.start ∧ m.start ≤ n.stop

theorem leftOutCopy_of_leftOut {b : Block} (hdup : b.IsDuplicate (keyed files))
    (hlength : 0 < b.length) {m : Member} (hm : Clone.LeftOut (keyed files) b m) :
    LeftOutCopy files b.members m := by
  have hspan := hm.isCopy.span
  refine ⟨?_, ?_, hm.notMem, hm.overlaps⟩
  · obtain ⟨f, hf, hstop⟩ := exists_file_of_lt_keyCount hm.isCopy.bounded
    exact ⟨f, hf, by omega, hstop⟩
  · intro n hn
    have hspanN := hdup.spans n hn
    rw [keysOf_eq_iff (by omega)]
    intro k hk
    exact hm.isCopy.sameKeys n hn k (by omega)

/-- Places that agree with one key more on the right agree on that key. -/
theorem keyAt_of_keysOf_longerRight {m n : Member} (hm : m.start ≤ m.stop + 1)
    (hspan : m.stop + 1 - m.start = n.stop + 1 - n.start) (hn : n.start ≤ n.stop + 1)
    (h : keysOf files (longerRight m) = keysOf files (longerRight n)) :
    Clone.keyAt (keyed files) m.file (m.stop + 1) =
      Clone.keyAt (keyed files) n.file (n.stop + 1) := by
  have hspan' : (longerRight m).stop + 1 - (longerRight m).start =
      (longerRight n).stop + 1 - (longerRight n).start := by
    simp only [longerRight]
    omega
  have hkey := (keysOf_eq_iff hspan').mp h (m.stop + 1 - m.start)
    (by simp only [longerRight]; omega)
  simp only [longerRight] at hkey
  rwa [Nat.add_sub_cancel' hm, hspan, Nat.add_sub_cancel' hn] at hkey

/-- Places that agree with one key more on the left agree on that key. -/
theorem keyAt_of_keysOf_longerLeft {m n : Member} (hm : 0 < m.start ∧ m.start ≤ m.stop + 1)
    (hspan : m.stop + 1 - m.start = n.stop + 1 - n.start)
    (hn : 0 < n.start ∧ n.start ≤ n.stop + 1)
    (h : keysOf files (longerLeft m) = keysOf files (longerLeft n)) :
    Clone.keyAt (keyed files) m.file (m.start - 1) =
      Clone.keyAt (keyed files) n.file (n.start - 1) := by
  have hspan' : (longerLeft m).stop + 1 - (longerLeft m).start =
      (longerLeft n).stop + 1 - (longerLeft n).start := by
    simp only [longerLeft]
    omega
  have hkey := (keysOf_eq_iff hspan').mp h 0 (by simp only [longerLeft]; omega)
  simpa only [longerLeft, Nat.add_zero] using hkey

/-- A cluster can only be longer at all of its occurrences when a copy of its keys that was left
out cannot. -/
theorem findClusters_maximal (files : List IndexedFile) (window : Nat) (hwindow : 1 ≤ window)
    (hhashes : HasKeyHashes files window) :
    ∀ c ∈ findClusters files window (fun _ => true), ∃ places : List Member,
      c.occurrences = occurrencesAt files places ∧ Repeats files places ∧
        (CanExtendRight files places → ∃ m, LeftOutCopy files places m ∧
          ∀ n ∈ places, keysOf files (longerRight m) ≠ keysOf files (longerRight n)) ∧
        (CanExtendLeft files places → ∃ m, LeftOutCopy files places m ∧
          (0 < m.start → ∀ n ∈ places,
            keysOf files (longerLeft m) ≠ keysOf files (longerLeft n))) := by
  intro c hc
  obtain ⟨b, hb, rfl⟩ := mem_findClusters.mp hc
  have hhash := hhashes.hasWindowHashes hwindow
  have hgrown := Clone.mem_findBlocks_true hb
  obtain ⟨hdup, hlength, -⟩ := Clone.findBlocks_sound hhash hwindow hb
  have hspans := hdup.spans
  refine ⟨b.members, rfl, repeats_of_isDuplicate hdup (by omega), ?_, ?_⟩
  · intro hlonger
    have hsame (m : Member) (hm : m ∈ b.members) (n : Member) (hn : n ∈ b.members) :=
      hlonger.sameKeys _ (List.mem_map_of_mem hm) _ (List.mem_map_of_mem hn)
    obtain ⟨m, hm, hdiffers⟩ := Clone.exists_leftOut_of_extendsRight hhash hwindow hgrown
      (fun m hm => by
        obtain ⟨f, hf, -, hstop⟩ := hlonger.inBounds _ (List.mem_map_of_mem hm)
        simp only [longerRight] at hf hstop
        rwa [keyCount_keyed hf])
      (fun m hm n hn => by
        have hspanM := hspans m hm
        have hspanN := hspans n hn
        exact keyAt_of_keysOf_longerRight (by omega) (by omega) (by omega) (hsame m hm n hn))
    refine ⟨m, leftOutCopy_of_leftOut hdup (by omega) hm, ?_⟩
    intro n hn hequal
    have hspanM := hm.isCopy.span
    have hspanN := hspans n hn
    exact hdiffers n hn
      (keyAt_of_keysOf_longerRight (by omega) (by omega) (by omega) hequal)
  · rintro ⟨hroom, hlonger⟩
    have hsame (m : Member) (hm : m ∈ b.members) (n : Member) (hn : n ∈ b.members) :=
      hlonger.sameKeys _ (List.mem_map_of_mem hm) _ (List.mem_map_of_mem hn)
    obtain ⟨m, hm, hdiffers⟩ := Clone.exists_leftOut_of_extendsLeft hhash hwindow hgrown hroom
      (fun m hm n hn => by
        have hspanM := hspans m hm
        have hspanN := hspans n hn
        have hroomM := hroom m hm
        have hroomN := hroom n hn
        exact keyAt_of_keysOf_longerLeft (by omega) (by omega) (by omega) (hsame m hm n hn))
    refine ⟨m, leftOutCopy_of_leftOut hdup (by omega) hm, ?_⟩
    intro hpos n hn hequal
    have hspanM := hm.isCopy.span
    have hspanN := hspans n hn
    have hroomN := hroom n hn
    exact hdiffers hpos n hn
      (keyAt_of_keysOf_longerLeft (by omega) (by omega) (by omega) hequal)

/-- Two files start with three equal letters and a fourth one, and a third file has the last two
letters after another one. -/
def tripledFiles : List IndexedFile :=
  [([1], [65, 65, 65, 66]), ([2], [65, 65, 65, 66]), ([3], [67, 65, 66])].map fun f =>
    letterFile 2 f.1 f.2

theorem findClusters_maximal_tripledFiles :
    (findClusters tripledFiles 2 fun _ => true).length = 2 ∧
      ∀ c ∈ findClusters tripledFiles 2 (fun _ => true), ∃ places,
        c.occurrences = occurrencesAt tripledFiles places ∧ Repeats tripledFiles places ∧
          (CanExtendRight tripledFiles places → ∃ m, LeftOutCopy tripledFiles places m) := by
  refine ⟨by cbv, fun c hc => ?_⟩
  obtain ⟨places, hplaces, hrepeats, hright, -⟩ :=
    findClusters_maximal tripledFiles 2 (by decide) (hasKeyHashes_letterFile _ 2) c hc
  refine ⟨places, hplaces, hrepeats, fun hlonger => ?_⟩
  obtain ⟨m, hm, -⟩ := hright hlonger
  exact ⟨m, hm⟩

/-- The two equal letters at the front of the first two files are a cluster that could be longer at
both occurrences: the copies one letter further on stopped its growth and were then left out. -/
theorem canExtendRight_tripledFiles :
    HasKeyHashes tripledFiles 2 ∧ ∃ c ∈ findClusters tripledFiles 2 (fun _ => true), ∃ places,
      c.occurrences = occurrencesAt tripledFiles places ∧ Repeats tripledFiles places ∧
        CanExtendRight tripledFiles places := by
  have hmem : (findClusters tripledFiles 2 fun _ => true).contains
      (ofBlock tripledFiles.toArray ⟨[⟨0, 0, 1⟩, ⟨1, 0, 1⟩], 2⟩) = true := by cbv
  refine ⟨hasKeyHashes_letterFile _ 2, _, List.contains_iff_mem.mp hmem,
    [⟨0, 0, 1⟩, ⟨1, 0, 1⟩], rfl, ⟨?_, by decide, by decide⟩, ⟨?_, by decide, by decide⟩⟩
  · intro m hm
    rcases List.mem_pair.mp hm with rfl | rfl <;> exact ⟨_, rfl, by decide, by decide⟩
  · intro m hm
    rcases List.mem_pair.mp hm with rfl | rfl <;> exact ⟨_, rfl, by decide, by decide⟩

end Cluster

end CloneScan
