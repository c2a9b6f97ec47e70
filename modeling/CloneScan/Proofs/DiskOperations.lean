import CloneScan.Proofs.StoreView
import CloneScan.Proofs.TreeEntries

/-!
# Operations of the store on disk

In a directory where nothing stands in the way of the store, its records are the files of its keys
and its index is the one in memory, or the one in the index file as long as none is loaded.  No part
of an operation then fails, and each changes the records and the stored index in a way that can be
said without the tree.
-/

namespace CloneScan

namespace DiskStore

open StoreM FileTree

/-! ## Paths -/

/-- The path of a record. -/
def recordPath (directory : List Text) (key : Text) : List Text :=
  entriesPath directory ++ [key ++ suffix]

theorem recordPath_inj {directory : List Text} {k q : Text} :
    recordPath directory k = recordPath directory q ↔ k = q := by
  simp [recordPath]

theorem recordPath_ne_nil (directory : List Text) (key : Text) : recordPath directory key ≠ [] := by
  simp [recordPath]

theorem recordPath_ne_indexPath (directory : List Text) (key : Text) :
    recordPath directory key ≠ indexPath directory := by
  intro h
  have hlength := congrArg List.length h
  simp [recordPath, indexPath, entriesPath] at hlength

theorem not_isPrefix_indexPath (directory : List Text) :
    ¬ indexPath directory <+: entriesPath directory := by
  rw [indexPath, entriesPath, List.prefix_append_right_inj]
  decide

theorem not_isPrefix_recordPath (directory : List Text) (key : Text) {path : List Text}
    (hpath : path.length ≤ directory.length + 1) : ¬ recordPath directory key <+: path := by
  intro h
  have hlength := h.length_le
  simp only [recordPath, entriesPath, List.length_append, List.length_singleton] at hlength
  omega

/-! ## Trees -/

/-- Nothing stands in the way of a store in a directory. -/
structure IsHealthy (directory : List Text) (t : FileTree) : Prop where
  rooted : t.IsRooted
  way : ∀ path, path <+: entriesPath directory → t.IsClear path
  records : ∀ key, isKey key = true → t.entry? (recordPath directory key) ≠ some .directory
  index : t.entry? (indexPath directory) ≠ some .directory

/-- The bytes of a record and the time of its file. -/
def recordAt (directory : List Text) (t : FileTree) (key : Text) :
    Option (List UInt8 × Option Number) :=
  match t.entry? (recordPath directory key) with
  | some (.file bytes time) => some (bytes, time)
  | _ => none

/-- The index in the index file; an unusable file counts as an empty index. -/
def storedIndex (directory : List Text) (t : FileTree) : PathIndex :=
  match t.read (indexPath directory) with
  | .ok bytes => (PathIndex.decode? (Text.ofUtf8 bytes)).getD .empty
  | .error _ => .empty

/-- The index in memory, or the stored one as long as none is loaded. -/
def indexOf (directory : List Text) (s : Surroundings DiskState) : PathIndex :=
  s.state.index.getD (storedIndex directory s.files)

variable {directory : List Text} {t t' : FileTree}

theorem IsHealthy.way_directory (ht : IsHealthy directory t) (path : List Text)
    (hpath : path <+: directory) : t.IsClear path :=
  ht.way path (hpath.trans (List.prefix_append _ _))

theorem IsHealthy.recordAt_eq_none_iff (ht : IsHealthy directory t) {key : Text}
    (hkey : isKey key = true) :
    recordAt directory t key = none ↔ t.entry? (recordPath directory key) = none := by
  have hfile := ht.records key hkey
  unfold recordAt
  cases hentry : t.entry? (recordPath directory key) with
  | none => simp
  | some e =>
      cases e with
      | directory => exact absurd hentry hfile
      | file bytes time => simp

theorem IsHealthy.find_of_recordAt_none (ht : IsHealthy directory t) {key : Text}
    (hkey : isKey key = true) (h : recordAt directory t key = none) :
    t.find (recordPath directory key) = .error .missing := by
  have hnone := (ht.recordAt_eq_none_iff hkey).mp h
  apply find_of_none _ hnone
  intro q hq bytes time hfile
  rw [recordPath, List.prefix_concat_iff] at hq
  rcases hq with rfl | hq
  · rw [recordPath] at hnone
    rw [hnone] at hfile
    cases hfile
  · exact ht.way q hq bytes time hfile

theorem entry?_of_recordAt {key : Text} {bytes : List UInt8} {time : Option Number}
    (h : recordAt directory t key = some (bytes, time)) :
    t.entry? (recordPath directory key) = some (.file bytes time) := by
  unfold recordAt at h
  split at h
  case h_1 hentry =>
      cases h
      exact hentry
  case h_2 => cases h

theorem IsHealthy.find_of_recordAt (ht : IsHealthy directory t) {key : Text} {bytes : List UInt8}
    {time : Option Number} (h : recordAt directory t key = some (bytes, time)) :
    t.find (recordPath directory key) = .ok (.file bytes time) :=
  ht.rooted.find_of_some (entry?_of_recordAt h)

/-! ### Changes of trees -/

theorem recordAt_congr {key : Text}
    (h : t'.entry? (recordPath directory key) = t.entry? (recordPath directory key)) :
    recordAt directory t' key = recordAt directory t key := by
  unfold recordAt
  rw [h]

theorem IsHealthy.read_index (ht : IsHealthy directory t) :
    t.read (indexPath directory) =
      match t.entry? (indexPath directory) with
      | some (.file bytes _) => .ok bytes
      | _ => .error .missing := by
  cases hentry : t.entry? (indexPath directory) with
  | none =>
      rw [FileTree.read, find_of_none _ hentry]
      intro q hq bytes time hfile
      rw [indexPath, List.prefix_concat_iff] at hq
      rcases hq with rfl | hq
      · rw [indexPath] at hentry
        rw [hentry] at hfile
        cases hfile
      · exact ht.way_directory q hq bytes time hfile
  | some e =>
      cases e with
      | directory => exact absurd hentry ht.index
      | file bytes time => rw [FileTree.read, ht.rooted.find_of_some hentry]

/-- The stored index is what the file of the index holds. -/
theorem storedIndex_congr (ht : IsHealthy directory t) (ht' : IsHealthy directory t')
    (h : t'.entry? (indexPath directory) = t.entry? (indexPath directory)) :
    storedIndex directory t' = storedIndex directory t := by
  rw [storedIndex, storedIndex, ht.read_index, ht'.read_index, h]

theorem IsHealthy.without (ht : IsHealthy directory t) {key : Text} (hkey : isKey key = true) :
    IsHealthy directory (t.without (recordPath directory key)) := by
  have hentry (q : List Text) {e : FileEntry}
      (h : FileTree.entry? (t.without (recordPath directory key)) q = some e) :
      t.entry? q = some e := by
    rw [entry?_without t (recordPath_ne_nil directory key)] at h
    split at h
    · cases h
    · exact h
  exact
    { rooted := ht.rooted.without (recordPath_ne_nil directory key) (ht.records key hkey)
      way := fun path hpath bytes time h => ht.way path hpath bytes time (hentry path h)
      records := fun k hk h => ht.records k hk (hentry _ h)
      index := fun h => ht.index (hentry _ h) }

theorem recordAt_without (directory : List Text) (t : FileTree) (gone key : Text) :
    recordAt directory (t.without (recordPath directory gone)) key =
      if key = gone then none else recordAt directory t key := by
  unfold recordAt
  rw [entry?_without t (recordPath_ne_nil directory gone)]
  simp only [recordPath_inj]
  by_cases hkey : key = gone <;> simp [hkey]

/-- Putting a record saves its file, and changes neither other records nor the stored index. -/
theorem IsHealthy.save_record (ht : IsHealthy directory t) {key : Text} (hkey : isKey key = true)
    (bytes : List UInt8) (now : Number) :
    ∃ t₁ t', t.makeDirectory (entriesPath directory) = .ok t₁ ∧
      t₁.write (recordPath directory key) bytes now = .ok t' ∧ IsHealthy directory t' ∧
      storedIndex directory t' = storedIndex directory t ∧
      ∀ k, recordAt directory t' k =
        if k = key then some (bytes, some now) else recordAt directory t k := by
  have hpath : recordPath directory key = entriesPath directory ++ [key ++ suffix] := rfl
  obtain ⟨t₁, t', hmake, hwrite, hrooted, hentry⟩ :=
    ht.rooted.save bytes now hpath ht.way (ht.records key hkey)
  have hrecord (k : Text) : t'.entry? (recordPath directory k) =
      if k = key then some (.file bytes (some now)) else t.entry? (recordPath directory k) := by
    have habove : ¬ recordPath directory k <+: entriesPath directory :=
      not_isPrefix_recordPath directory k (by simp [entriesPath])
    rw [hentry, if_neg habove]
    simp only [recordPath_inj]
  have hindex : t'.entry? (indexPath directory) = t.entry? (indexPath directory) := by
    rw [hentry, if_neg (recordPath_ne_indexPath directory key).symm,
      if_neg (not_isPrefix_indexPath directory)]
  have ht' : IsHealthy directory t' := by
    refine ⟨hrooted, fun path hpath bytes' time h => ?_, fun k hk h => ?_, fun h => ?_⟩
    · have hne : path ≠ recordPath directory key := by
        rintro rfl
        exact not_isPrefix_recordPath directory key (by simp [entriesPath]) hpath
      rw [hentry, if_neg hne, if_pos hpath] at h
      cases h
    · rw [hrecord] at h
      split at h
      · cases h
      · exact ht.records k hk h
    · exact ht.index (hindex ▸ h)
  refine ⟨t₁, t', hmake, hwrite, ht', storedIndex_congr ht ht' hindex, fun k => ?_⟩
  unfold recordAt
  rw [hrecord]
  by_cases hk : k = key <;> simp [hk]

/-- Flushing saves the file of the index, and changes no record. -/
theorem IsHealthy.save_index (ht : IsHealthy directory t) (bytes : List UInt8) (now : Number) :
    ∃ t₁ t', t.makeDirectory directory = .ok t₁ ∧
      t₁.write (indexPath directory) bytes now = .ok t' ∧ IsHealthy directory t' ∧
      storedIndex directory t' = (PathIndex.decode? (Text.ofUtf8 bytes)).getD .empty ∧
      ∀ key, recordAt directory t' key = recordAt directory t key := by
  have hpath : indexPath directory = directory ++ [Text.ofString "index.json"] := rfl
  obtain ⟨t₁, t', hmake, hwrite, hrooted, hentry⟩ :=
    ht.rooted.save bytes now hpath ht.way_directory ht.index
  have hrecord (k : Text) : t'.entry? (recordPath directory k) =
      t.entry? (recordPath directory k) := by
    rw [hentry, if_neg (recordPath_ne_indexPath directory k),
      if_neg (not_isPrefix_recordPath directory k (by simp))]
  have hindex : t'.entry? (indexPath directory) = some (.file bytes (some now)) := by
    rw [hentry, if_pos rfl]
  have ht' : IsHealthy directory t' := by
    refine ⟨hrooted, fun path hpath bytes' time h => ?_, fun k hk h => ?_, fun h => ?_⟩
    · have hne : path ≠ indexPath directory := by
        rintro rfl
        exact not_isPrefix_indexPath directory hpath
      rw [hentry, if_neg hne] at h
      split at h
      · cases h
      · exact ht.way path hpath bytes' time h
    · rw [hrecord] at h
      exact ht.records k hk h
    · rw [hindex] at h
      cases h
  refine ⟨t₁, t', hmake, hwrite, ht', ?_, fun k => recordAt_congr (hrecord k)⟩
  rw [storedIndex, ht'.read_index, hindex]

/-- Clearing leaves no record and no index. -/
theorem IsHealthy.removeAll (ht : IsHealthy directory t) :
    ∃ t', t.removeAll directory = .ok t' ∧ IsHealthy directory t' ∧
      storedIndex directory t' = .empty ∧ ∀ key, recordAt directory t' key = none := by
  obtain ⟨t', hremove, hrooted, hentry⟩ := ht.rooted.removeAll ht.way_directory
  have hsome {path : List Text} {e : FileEntry} (h : t'.entry? path = some e) :
      t.entry? path = some e := by
    rw [hentry] at h
    split at h
    · cases h
    · exact h
  have hbelow (name : Text) (rest : List Text) : t'.entry? (directory ++ name :: rest) = none := by
    rw [hentry, if_pos ⟨List.prefix_append _ _, by simp⟩]
  have hindex : t'.entry? (indexPath directory) = none := hbelow _ []
  have ht' : IsHealthy directory t' :=
    { rooted := hrooted
      way := fun path hpath bytes time h => ht.way path hpath bytes time (hsome h)
      records := fun k hk h => ht.records k hk (hsome h)
      index := fun h => ht.index (hsome h) }
  refine ⟨t', hremove, ht', ?_, fun key => ?_⟩
  · rw [storedIndex, ht'.read_index, hindex]
  · have hnone : t'.entry? (recordPath directory key) = none := by
      simpa [recordPath, entriesPath] using hbelow (Text.ofString "entries") [key ++ suffix]
    unfold recordAt
    rw [hnone]

/-! ## Removing records -/

open Classical in
/-- So many records among those of some keys were there, and none of them is; everything else
stays. -/
structure Removes (directory : List Text) (gone : Set Text) (t t' : FileTree) (count : Nat) :
    Prop where
  healthy : IsHealthy directory t'
  stored : storedIndex directory t' = storedIndex directory t
  others : ∀ path, (∀ key ∈ gone, path ≠ recordPath directory key) → t'.entry? path = t.entry? path
  records : ∀ key, recordAt directory t' key =
    if key ∈ gone then none else recordAt directory t key
  finite : gone.Finite
  count : {key | key ∈ gone ∧ (recordAt directory t key).isSome}.ncard = count

namespace Removes

variable {gone more : Set Text} {n m : Nat} {t'' : FileTree}

theorem refl (ht : IsHealthy directory t) : Removes directory ∅ t t 0 :=
  ⟨ht, rfl, fun _ _ => rfl, by simp, Set.finite_empty, by simp⟩

theorem single (ht : IsHealthy directory t) {key : Text} (hkey : isKey key = true) :
    Removes directory {key} t (t.without (recordPath directory key))
      (if (recordAt directory t key).isSome then 1 else 0) := by
  have ht' := ht.without hkey
  have hindex : FileTree.entry? (t.without (recordPath directory key)) (indexPath directory) =
      t.entry? (indexPath directory) := by
    rw [entry?_without t (recordPath_ne_nil directory key),
      if_neg (recordPath_ne_indexPath directory key).symm]
  refine ⟨ht', storedIndex_congr ht ht' hindex, fun path hpath => ?_, fun k => ?_,
    Set.finite_singleton key, ?_⟩
  · rw [entry?_without t (recordPath_ne_nil directory key), if_neg (hpath key rfl)]
  · rw [recordAt_without]
    by_cases hk : k = key <;> simp [hk]
  · cases hrecord : recordAt directory t key with
    | none =>
        have hset : {k | k ∈ ({key} : Set Text) ∧ (recordAt directory t k).isSome = true} = ∅ := by
          ext k
          simp only [Set.mem_singleton_iff, Set.mem_ofPred_eq, Set.mem_empty_iff_false, iff_false]
          rintro ⟨rfl, h⟩
          simp [hrecord] at h
        rw [hset, Set.ncard_empty]
        rfl
    | some r =>
        have hset : {k | k ∈ ({key} : Set Text) ∧ (recordAt directory t k).isSome = true} =
            {key} := by
          ext k
          simp only [Set.mem_singleton_iff, Set.mem_ofPred_eq, and_iff_left_iff_imp]
          rintro rfl
          simp [hrecord]
        rw [hset, Set.ncard_singleton]
        rfl

/-- Counts add up: what is gone is not counted again. -/
theorem trans (h : Removes directory gone t t' n) (h' : Removes directory more t' t'' m) :
    Removes directory (gone ∪ more) t t'' (n + m) := by
  refine ⟨h'.healthy, h'.stored.trans h.stored, fun path hpath => ?_, fun key => ?_,
    h.finite.union h'.finite, ?_⟩
  · rw [h'.others path fun key hkey => hpath key (.inr hkey),
      h.others path fun key hkey => hpath key (.inl hkey)]
  · rw [h'.records, h.records]
    by_cases hmore : key ∈ more <;> by_cases hgone : key ∈ gone <;> simp [hmore, hgone]
  · have hunion : {key | key ∈ gone ∪ more ∧ (recordAt directory t key).isSome = true} =
        {key | key ∈ gone ∧ (recordAt directory t key).isSome = true} ∪
          {key | key ∈ more ∧ (recordAt directory t' key).isSome = true} := by
      ext key
      simp only [Set.mem_union, Set.mem_ofPred_eq, h.records]
      by_cases hgone : key ∈ gone <;> simp [hgone]
    rw [hunion, Set.ncard_union_eq _ (h.finite.subset fun _ hkey => hkey.1)
      (h'.finite.subset fun _ hkey => hkey.1), h.count, h'.count]
    rw [Set.disjoint_left]
    rintro key ⟨hgone, -⟩ ⟨-, hkey⟩
    simp [h.records, hgone] at hkey

end Removes

/-! ## Running parts of operations -/

/-- Records are kept in files, as the bytes of their texts, beside the times of the files. -/
def shelf : Shelf (List UInt8 × Option Number) where
  write := fun now v => (Text.toUtf8 v.render, some now)
  read := fun r => .ofReading (CacheRecord.decode (Text.ofUtf8 r.1))
  isOld := fun r cutoff => r.2.any fun time => time.le cutoff

section

variable {s : Surroundings DiskState} {key : Text}

theorem exec_entryPath (hkey : isKey key = true) (s : Surroundings DiskState) :
    (entryPath directory key).exec s = (.ok (recordPath directory key), s) := by
  rw [entryPath, if_pos hkey]
  rfl

theorem exec_removeEntry (hs : IsHealthy directory s.files) (hkey : isKey key = true) :
    (removeEntry directory key).exec s =
      (.ok (recordAt directory s.files key).isSome,
        { s with files := s.files.without (recordPath directory key) }) := by
  unfold removeEntry
  rw [exec_bind, exec_entryPath hkey]
  dsimp only
  rw [exec_bind, exec_files]
  dsimp only
  cases hrecord : recordAt directory s.files key with
  | none =>
      have hnone := (hs.recordAt_eq_none_iff hkey).mp hrecord
      rw [FileTree.remove, hs.find_of_recordAt_none hkey hrecord,
        without_of_none (recordPath_ne_nil directory key) hnone]
      rfl
  | some r =>
      rw [hs.rooted.remove_of_file (entry?_of_recordAt hrecord)]
      rfl

theorem exec_removeEach (hs : IsHealthy directory s.files) {keys : List Text}
    (hkeys : ∀ key ∈ keys, isKey key = true) :
    ∃ n t, (removeEach directory keys).exec s = (.ok n, { s with files := t }) ∧
      Removes directory {key | key ∈ keys} s.files t n := by
  induction keys generalizing s with
  | nil => exact ⟨0, s.files, rfl, by simpa using Removes.refl hs⟩
  | cons key keys ih =>
      obtain ⟨hkey, hkeys⟩ := List.forall_mem_cons.mp hkeys
      have hfirst := Removes.single hs hkey
      obtain ⟨n, t, hrun, hrest⟩ :=
        @ih { s with files := s.files.without (recordPath directory key) } hfirst.healthy hkeys
      refine ⟨(if (recordAt directory s.files key).isSome then 1 else 0) + n, t, ?_, ?_⟩
      · rw [removeEach, exec_bind, exec_removeEntry hs hkey]
        dsimp only
        rw [exec_bind, hrun]
        rfl
      · have hset : {k | k ∈ key :: keys} = {key} ∪ {k | k ∈ keys} := by
          ext k
          simp
        rw [hset]
        exact hfirst.trans hrest

theorem exec_isOldFile (hs : IsHealthy directory s.files) (hkey : isKey key = true)
    (cutoff : Number) :
    (isOldFile directory cutoff key).exec s =
      (.ok ((recordAt directory s.files key).any fun r => shelf.isOld r cutoff), s) := by
  unfold isOldFile
  rw [exec_bind, exec_entryPath hkey]
  dsimp only
  rw [exec_bind, exec_files]
  dsimp only
  rcases hrecord : recordAt directory s.files key with _ | ⟨bytes, _ | time⟩
  · rw [hs.find_of_recordAt_none hkey hrecord]
    rfl
  · rw [hs.find_of_recordAt hrecord]
    rfl
  · rw [hs.find_of_recordAt hrecord]
    rfl

theorem exec_removeUntracked (hs : IsHealthy directory s.files) (cutoff : Number)
    {keys : List Text} (hkeys : ∀ key ∈ keys, isKey key = true) :
    ∃ n t, (removeUntracked directory cutoff keys).exec s = (.ok n, { s with files := t }) ∧
      Removes directory
        {key | key ∈ keys ∧ (recordAt directory s.files key).any (fun r => shelf.isOld r cutoff)}
        s.files t n := by
  induction keys generalizing s with
  | nil => exact ⟨0, s.files, rfl, by simpa using Removes.refl hs⟩
  | cons key keys ih =>
      obtain ⟨hkey, hkeys⟩ := List.forall_mem_cons.mp hkeys
      rcases hold : (recordAt directory s.files key).any fun r => shelf.isOld r cutoff with _ | _
      · obtain ⟨n, t, hrun, hrest⟩ := ih hs hkeys
        refine ⟨n, t, ?_, ?_⟩
        · rw [removeUntracked, exec_bind, exec_isOldFile hs hkey, hold]
          dsimp only
          rw [if_neg (by simp), pure_bind, exec_bind, hrun]
          simp
        · have hset : {k | k ∈ key :: keys ∧
                (recordAt directory s.files k).any (fun r => shelf.isOld r cutoff) = true} =
              {k | k ∈ keys ∧
                (recordAt directory s.files k).any (fun r => shelf.isOld r cutoff) = true} := by
            ext k
            simp only [List.mem_cons, Set.mem_ofPred_eq]
            constructor
            · rintro ⟨rfl | hk, h⟩
              · rw [hold] at h
                cases h
              · exact ⟨hk, h⟩
            · rintro ⟨hk, h⟩
              exact ⟨.inr hk, h⟩
          rw [hset]
          exact hrest
      · have hfirst := Removes.single hs hkey
        obtain ⟨n, t, hrun, hrest⟩ :=
          @ih { s with files := s.files.without (recordPath directory key) } hfirst.healthy hkeys
        refine ⟨(if (recordAt directory s.files key).isSome then 1 else 0) + n, t, ?_, ?_⟩
        · rw [removeUntracked, exec_bind, exec_isOldFile hs hkey, hold]
          dsimp only
          rw [if_pos rfl, exec_bind, exec_removeEntry hs hkey]
          dsimp only
          rw [exec_bind, hrun]
          rfl
        · have hset : {k | k ∈ key :: keys ∧
                (recordAt directory s.files k).any (fun r => shelf.isOld r cutoff) = true} =
              {key} ∪ {k | k ∈ keys ∧ (recordAt directory
                (s.files.without (recordPath directory key)) k).any
                  (fun r => shelf.isOld r cutoff) = true} := by
            ext k
            simp only [List.mem_cons, Set.mem_ofPred_eq, Set.mem_union, Set.mem_singleton_iff,
              recordAt_without]
            by_cases hk : k = key
            · simp [hk, hold]
            · simp [hk]
          rw [hset]
          exact hfirst.trans hrest

theorem exec_discard (hs : IsHealthy directory s.files) (hkey : isKey key = true)
    (reason : CorruptReason) :
    ∃ notes, (discard directory key reason).exec s =
      (.ok (.corrupt reason),
        { s with files := s.files.without (recordPath directory key), notes }) := by
  refine ⟨s.notes ++ [discardNote key reason], ?_⟩
  unfold discard
  rw [exec_bind, exec_say]
  dsimp only
  rw [exec_bind, exec_tryCatch, exec_bind, exec_removeEntry (by exact hs) hkey]
  rfl

theorem exec_get (hs : IsHealthy directory s.files) (hkey : isKey key = true) :
    (get directory key).exec s =
      match recordAt directory s.files key with
      | none => (.ok .miss, s)
      | some r =>
        match CacheRecord.decode (Text.ofUtf8 r.1) with
        | .ok found => (.ok (.hit found), s)
        | .error fault => (discard directory key (.record fault)).exec s := by
  unfold get
  rw [exec_bind, exec_entryPath hkey]
  dsimp only
  rw [exec_bind, exec_files]
  dsimp only
  cases hrecord : recordAt directory s.files key with
  | none =>
      rw [FileTree.read, hs.find_of_recordAt_none hkey hrecord]
      rfl
  | some r =>
      rw [FileTree.read, hs.find_of_recordAt hrecord]
      dsimp only
      cases CacheRecord.decode (Text.ofUtf8 r.1) <;> rfl

/-- An index whose file cannot be used is marked as changed. -/
theorem exec_readIndex (directory : List Text) (s : Surroundings DiskState) :
    ∃ dirty notes, (readIndex directory).exec s =
        (.ok (storedIndex directory s.files), ⟨s.files, ⟨s.state.index, dirty⟩, s.now, notes⟩) ∧
      (dirty = true ∨ dirty = s.state.dirty) := by
  unfold readIndex storedIndex
  rw [exec_bind, exec_files]
  dsimp only
  cases s.files.read (indexPath directory) with
  | error fault => cases fault <;> exact ⟨_, _, rfl, .inr rfl⟩
  | ok bytes =>
      dsimp only
      cases PathIndex.decode? (Text.ofUtf8 bytes) with
      | none => exact ⟨_, _, rfl, .inl rfl⟩
      | some index => exact ⟨_, _, rfl, .inr rfl⟩

theorem exec_loadIndex (directory : List Text) (s : Surroundings DiskState) :
    ∃ dirty notes, (loadIndex directory).exec s =
        (.ok (indexOf directory s),
          ⟨s.files, ⟨some (indexOf directory s), dirty⟩, s.now, notes⟩) ∧
      (dirty = true ∨ dirty = s.state.dirty) := by
  unfold loadIndex
  rw [exec_bind, exec_state]
  dsimp only
  cases hindex : s.state.index with
  | some index =>
      have hmemory : indexOf directory s = index := by simp [indexOf, hindex]
      have hself : s = ⟨s.files, ⟨some index, s.state.dirty⟩, s.now, s.notes⟩ := by rw [← hindex]
      refine ⟨s.state.dirty, s.notes, ?_, .inr rfl⟩
      rw [hmemory, ← hself]
      rfl
  | none =>
      obtain ⟨dirty, notes, hread, hdirty⟩ := exec_readIndex directory s
      have hstored : indexOf directory s = storedIndex directory s.files := by
        simp [indexOf, hindex]
      refine ⟨dirty, notes, ?_, hdirty⟩
      dsimp only
      rw [exec_bind, hread, hstored]
      rfl

theorem exec_put (hkey : isKey key = true) (value : Json) {s₁ : Surroundings DiskState}
    {index : PathIndex} (hload : (loadIndex directory).exec s = (.ok index, s₁)) :
    (put directory key value).exec s =
      match s₁.files.find (recordPath directory key) with
      | .ok _ => (.ok (), s₁)
      | .error .missing =>
        match s₁.files.makeDirectory (entriesPath directory) with
        | .ok t₁ =>
          match t₁.write (recordPath directory key) (Text.toUtf8 value.render) s₁.now with
          | .ok t =>
            (.ok (), { s₁ with files := t, state := ⟨some (index.touch key s₁.now none), true⟩ })
          | .error fault => (.error (.file fault), { s₁ with files := t₁ })
        | .error fault => (.error (.file fault), s₁)
      | .error fault => (.error (.file fault), s₁) := by
  unfold put
  rw [exec_bind, exec_entryPath hkey]
  dsimp only
  rw [exec_bind, hload]
  dsimp only
  rw [exec_bind, exec_files]
  dsimp only
  cases s₁.files.find (recordPath directory key) with
  | ok e => rfl
  | error fault =>
      cases fault with
      | missing =>
          dsimp only
          rw [exec_bind, exec_changeFiles]
          cases s₁.files.makeDirectory (entriesPath directory) with
          | error fault => rfl
          | ok t₁ =>
              dsimp only
              rw [exec_bind, exec_now]
              dsimp only
              rw [exec_bind, exec_changeFiles]
              cases t₁.write (recordPath directory key) (Text.toUtf8 value.render) s₁.now <;> rfl
      | _ => rfl

theorem exec_invalidate_of_none {path : Text} {s₁ : Surroundings DiskState} {index i : PathIndex}
    (hload : (loadIndex directory).exec s = (.ok index, s₁))
    (hremoved : index.removePath path = (none, i)) :
    (invalidate directory path).exec s =
      (.ok (), { s₁ with state := { s₁.state with index := some i } }) := by
  rw [invalidate, exec_bind, hload]
  dsimp only
  rw [hremoved]
  rfl

theorem exec_invalidate_of_some {path : Text} {s₁ : Surroundings DiskState} {index i : PathIndex}
    (hs : IsHealthy directory s₁.files) (hkey : isKey key = true)
    (hload : (loadIndex directory).exec s = (.ok index, s₁))
    (hremoved : index.removePath path = (some key, i)) :
    (invalidate directory path).exec s =
      (.ok (), { s₁ with
        files := s₁.files.without (recordPath directory key), state := ⟨some i, true⟩ }) := by
  have hremove := @exec_removeEntry directory { s₁ with state := ⟨some i, true⟩ } key hs hkey
  rw [invalidate, exec_bind, hload]
  dsimp only
  rw [hremoved]
  change StoreM.exec (removeEntry directory key >>= fun _ => pure ()) { s₁ with state := _ } = _
  rw [exec_bind, hremove]
  rfl

theorem exec_flush_of_clean (hdirty : s.state.dirty = false) :
    (flush directory).exec s = (.ok (), s) := by
  rw [flush, exec_bind, exec_state]
  dsimp only
  rw [hdirty]
  rfl

theorem exec_flush_of_dirty {i : PathIndex} {t₁ t : FileTree} (hdirty : s.state.dirty = true)
    (hi : s.state.index = some i) (hmake : s.files.makeDirectory directory = .ok t₁)
    (hwrite : t₁.write (indexPath directory) (Text.toUtf8 i.encode) s.now = .ok t) :
    (flush directory).exec s = (.ok (), { s with files := t, state := ⟨some i, false⟩ }) := by
  rw [flush, exec_bind, exec_state]
  dsimp only
  rw [hdirty, hi]
  dsimp only
  rw [exec_bind, exec_changeFiles, hmake]
  dsimp only
  rw [exec_bind, exec_now]
  dsimp only
  rw [exec_bind, exec_changeFiles]
  dsimp only
  rw [hwrite]
  dsimp only
  rw [exec_bind, exec_state]
  dsimp only
  rw [hi]
  rfl

/-- The key of a file name that ends as those of records do. -/
theorem mem_filterMap_suffix {names : List Text} {key : Text} :
    key ∈ (names.filterMap fun name =>
        if name.endsWith suffix then some (name.take (name.length - suffix.length)) else none) ↔
      key ++ suffix ∈ names := by
  rw [List.mem_filterMap]
  constructor
  · rintro ⟨name, hname, h⟩
    split at h
    case isFalse => cases h
    case isTrue hend =>
        obtain ⟨start, rfl⟩ := List.isSuffixOf_iff_suffix.mp hend
        have hkey : start = key := by simpa using h
        exact hkey ▸ hname
  · intro hname
    have hend : (key ++ suffix).endsWith suffix = true :=
      List.isSuffixOf_iff_suffix.mpr (List.suffix_append key suffix)
    exact ⟨key ++ suffix, hname, by simp [hend]⟩

theorem exec_listEntries (hs : IsHealthy directory s.files) :
    ∃ keys, (listEntries directory).exec s = (.ok keys, s) ∧
      ∀ key, key ∈ keys ↔ isKey key = true ∧ (recordAt directory s.files key).isSome = true := by
  unfold listEntries
  rw [exec_bind, exec_files]
  dsimp only
  cases hentry : s.files.entry? (entriesPath directory) with
  | none =>
      rw [FileTree.list, find_of_none hs.way hentry]
      refine ⟨[], rfl, fun key => ?_⟩
      simp only [List.not_mem_nil, false_iff, not_and]
      intro _ hsome
      obtain ⟨⟨bytes, time⟩, hrecord⟩ := Option.isSome_iff_exists.mp hsome
      rw [hs.rooted.entry?_of_append (by simp) (entry?_of_recordAt hrecord)] at hentry
      cases hentry
  | some e =>
      cases e with
      | file bytes time => exact absurd hentry (hs.way _ List.prefix_rfl bytes time)
      | directory =>
          obtain ⟨names, hlist, hnames⟩ := hs.rooted.mem_list hentry
          rw [hlist]
          refine ⟨_, rfl, fun key => ?_⟩
          rw [List.mem_filter, mem_filterMap_suffix, hnames, and_comm]
          refine and_congr_right fun hkey => ?_
          have hnone := hs.recordAt_eq_none_iff hkey
          rw [← Option.not_isSome_iff_eq_none, ← Option.not_isSome_iff_eq_none] at hnone
          exact (not_iff_not.mp hnone).symm

/-- The part of a prune that touches files: the dead records, and then the old ones among those
that the index does not know. -/
def sweep (directory : List Text) (options : PruneOptions) (now : Number) (dead : List Text)
    (i : PathIndex) : StoreM DiskState Nat := do
  let removed ← removeEach directory dead
  let untracked := (← listEntries directory).filter fun key =>
    !i.seen.has key && !options.live.contains key
  let more ← removeUntracked directory (options.cutoff now) untracked
  return removed + more

/-- A record that the index does not know is old. -/
def IsUntracked (directory : List Text) (t : FileTree) (i : PathIndex) (options : PruneOptions)
    (now : Number) (key : Text) : Prop :=
  isKey key = true ∧ key ∉ options.live ∧ i.view.seen key = none ∧
    ((recordAt directory t key).any fun r => shelf.isOld r (options.cutoff now)) = true

theorem exec_sweep (hs : IsHealthy directory s.files) (options : PruneOptions) (now : Number)
    {dead : List Text} (hdead : ∀ key ∈ dead, isKey key = true) (i : PathIndex) :
    ∃ n t, (sweep directory options now dead i).exec s = (.ok n, { s with files := t }) ∧
      Removes directory
        ({key | key ∈ dead} ∪
          {key | key ∉ dead ∧ IsUntracked directory s.files i options now key})
        s.files t n := by
  obtain ⟨n, t₁, hrun, hremoves⟩ := exec_removeEach hs hdead
  obtain ⟨keys, hlist, hkeys⟩ := @exec_listEntries directory { s with files := t₁ } hremoves.healthy
  obtain ⟨m, t, hrun', hremoves'⟩ := @exec_removeUntracked directory { s with files := t₁ }
    hremoves.healthy (options.cutoff now)
    (keys.filter fun key => !i.seen.has key && !options.live.contains key)
    fun key hkey => ((hkeys key).mp (List.mem_of_mem_filter hkey)).1
  refine ⟨n + m, t, ?_, ?_⟩
  · rw [sweep, exec_bind, hrun]
    dsimp only
    rw [exec_bind, hlist]
    dsimp only
    rw [exec_bind, hrun']
    rfl
  · have hset : {key | key ∉ dead ∧ IsUntracked directory s.files i options now key} =
        {key | key ∈ (keys.filter fun key => !i.seen.has key && !options.live.contains key) ∧
          (recordAt directory t₁ key).any (fun r => shelf.isOld r (options.cutoff now)) =
            true} := by
      ext key
      simp only [Set.mem_ofPred_eq, IsUntracked, List.mem_filter, hkeys, hremoves.records,
        PathIndex.view_seen, TextMap.has_eq_isSome]
      by_cases hgone : key ∈ dead
      · simp [hgone]
      · cases hrecord : recordAt directory s.files key with
        | none => simp [hgone]
        | some r => simp [hgone, and_comm, and_assoc, and_left_comm]
    rw [hset]
    exact hremoves.trans hremoves'

theorem exec_prune (options : PruneOptions) {s₁ : Surroundings DiskState} {index i : PathIndex}
    {dead : List Text} (hload : (loadIndex directory).exec s = (.ok index, s₁))
    (htake : index.takeDead options s₁.now = (dead, i)) :
    (prune directory options).exec s =
      (sweep directory options s₁.now dead i).exec
        { s₁ with state := ⟨some i, s₁.state.dirty || !dead.isEmpty⟩ } := by
  unfold prune
  rw [exec_bind, hload]
  dsimp only
  rw [exec_bind, exec_now]
  dsimp only
  rw [htake]
  dsimp only
  rw [exec_bind]
  cases hempty : dead.isEmpty with
  | true =>
      rw [Bool.not_true, Bool.or_false]
      rfl
  | false =>
      rw [Bool.not_false, Bool.or_true]
      rfl

end

end DiskStore

end CloneScan
