import CloneScan.Proofs.DiskDurability

/-!
# The file of the index

A flush puts the text of a marked index into the index file, and a store that is opened on the
directory reads it from there.  The names of paths and keys are any texts, so the text has to carry
code units that no UTF-8 spells, names that an object keeps in an order of its own, and times.  A
file that holds no index counts as an empty one; it is marked, so that the next flush replaces the
file.
-/

namespace CloneScan

namespace DiskStore

open StoreM FileTree

variable {directory : List Text} {s : Surroundings DiskState} {bytes : List UInt8} {i j : PathIndex}

/-! ## Reading the file -/

/-- What is noted about an index file that holds no index. -/
def unusableNote (directory : List Text) : Note where
  level := .warn
  message := Text.ofString "[Cache] Path index is corrupt or from another version, starting empty"
  fields := [("path", .string (Path.ofSegments (indexPath directory)))]

theorem exec_readIndex_of_read (hread : s.files.read (indexPath directory) = .ok bytes) :
    (readIndex directory).exec s =
      match PathIndex.decode? (Text.ofUtf8 bytes) with
      | some index => (.ok index, s)
      | none =>
        (.ok .empty,
          { s with
            state := { s.state with dirty := true }
            notes := s.notes ++ [unusableNote directory] }) := by
  unfold readIndex
  rw [exec_bind, exec_files]
  dsimp only
  rw [hread]
  dsimp only
  cases PathIndex.decode? (Text.ofUtf8 bytes) <;> rfl

theorem exec_loadIndex_of_none (hopened : s.state.index = none) :
    (loadIndex directory).exec s =
      match (readIndex directory).exec s with
      | (.ok index, s₁) => (.ok index, { s₁ with state := { s₁.state with index := some index } })
      | (.error fault, s₁) => (.error fault, s₁) := by
  unfold loadIndex
  rw [exec_bind, exec_state]
  dsimp only
  rw [hopened]
  dsimp only
  rw [exec_bind]
  rcases (readIndex directory).exec s with ⟨_ | index, s₁⟩ <;> rfl

theorem exec_loadIndex_of_some (hopened : s.state.index = none)
    (hread : s.files.read (indexPath directory) = .ok bytes)
    (hdecode : PathIndex.decode? (Text.ofUtf8 bytes) = some i) :
    (loadIndex directory).exec s = (.ok i, { s with state := ⟨some i, s.state.dirty⟩ }) := by
  rw [exec_loadIndex_of_none hopened, exec_readIndex_of_read hread, hdecode]

/-- A file that holds no index is noted, and counts as an empty index that is marked. -/
theorem exec_loadIndex_of_unusable (hopened : s.state.index = none)
    (hread : s.files.read (indexPath directory) = .ok bytes)
    (hdecode : PathIndex.decode? (Text.ofUtf8 bytes) = none) :
    (loadIndex directory).exec s =
      (.ok .empty,
        { s with
          state := ⟨some .empty, true⟩
          notes := s.notes ++ [unusableNote directory] }) := by
  rw [exec_loadIndex_of_none hopened, exec_readIndex_of_read hread, hdecode]

/-! ## Writing the file -/

/-- A flush leaves the text of a marked index in the index file. -/
theorem exec_flush_of_marked (hs : IsHealthy directory s.files)
    (hmarked : s.state = ⟨some i, true⟩) :
    ∃ t, (flush directory).exec s = (.ok (), { s with files := t, state := ⟨some i, false⟩ }) ∧
      t.read (indexPath directory) = .ok (Text.toUtf8 i.encode) := by
  obtain ⟨t₁, t, hmake, hwrite, ht, -, -⟩ := hs.save_index (Text.toUtf8 i.encode) s.now
  have hentry : t.entry? (indexPath directory) =
      some (.file (Text.toUtf8 i.encode) (some s.now)) := by
    rw [write_eq hwrite, setEntry_spec t₁ (by simp [indexPath]), beq_self_eq_true, if_pos rfl]
  refine ⟨t, exec_flush_of_dirty ?_ ?_ hmake hwrite, ?_⟩
  · rw [hmarked]
  · rw [hmarked]
  · rw [ht.read_index, hentry]

/-- A store that is opened after a flush has the index that the text of the flushed one reads as. -/
theorem exec_loadIndex_of_flush (hs : IsHealthy directory s.files)
    (hmarked : s.state = ⟨some i, true⟩)
    (hdecode : PathIndex.decode? (Text.ofUtf8 (Text.toUtf8 i.encode)) = some j) :
    ∃ s', (flush directory).exec s = (.ok (), s') ∧
      (loadIndex directory).exec (reopen s') = (.ok j, { s' with state := ⟨some j, false⟩ }) := by
  obtain ⟨t, hflush, hread⟩ := exec_flush_of_marked hs hmarked
  exact ⟨_, hflush, exec_loadIndex_of_some rfl hread hdecode⟩

/-- The mark lets a flush replace a file that holds no index: a store that is opened then finds an
empty one, and neither notes nor marks anything. -/
theorem exec_loadIndex_of_replaced (hs : IsHealthy directory s.files)
    (hopened : s.state.index = none) (hread : s.files.read (indexPath directory) = .ok bytes)
    (hdecode : PathIndex.decode? (Text.ofUtf8 bytes) = none) :
    ∃ s', (loadIndex directory >>= fun _ => flush directory).exec s = (.ok (), s') ∧
      (loadIndex directory).exec (reopen s') =
        (.ok .empty, { s' with state := ⟨some .empty, false⟩ }) := by
  have hempty : PathIndex.decode? (Text.ofUtf8 (Text.toUtf8 PathIndex.empty.encode)) =
      some .empty := by decide +kernel
  rw [exec_bind, exec_loadIndex_of_unusable hopened hread hdecode]
  exact exec_loadIndex_of_flush hs rfl hempty

/-! ## Reading back -/

/-- Whatever texts its paths and keys are, the text of an index with finite times reads back as one
that looks the same from outside and has the same text, and so does the index file in a store that
is opened after a flush.  Any text that does not read as an index gives an empty one that is
marked. -/
theorem index_reads_back (directory : List Text) :
    (∀ i : PathIndex, i.Unique → (∀ e ∈ i.seen, e.2.IsFinite) →
      ∃ j, PathIndex.decode? i.encode = some j ∧ j.view = i.view ∧ j.Unique ∧
        j.encode = i.encode ∧
        ∀ s : Surroundings DiskState, IsHealthy directory s.files → s.state = ⟨some i, true⟩ →
          ∃ s', (flush directory).exec s = (.ok (), s') ∧
            (loadIndex directory).exec (reopen s') =
              (.ok j, { s' with state := ⟨some j, false⟩ })) ∧
      ∀ (s : Surroundings DiskState) (bytes : List UInt8), s.state.index = none →
        s.files.read (indexPath directory) = .ok bytes →
        PathIndex.decode? (Text.ofUtf8 bytes) = none →
        (loadIndex directory).exec s =
          (.ok .empty,
            { s with
              state := ⟨some .empty, true⟩
              notes := s.notes ++ [unusableNote directory] }) := by
  constructor
  · intro i hi htimes
    obtain ⟨j, htext, hbytes, hview, hunique, hencode⟩ := PathIndex.decode?_encode hi htimes
    refine ⟨j, htext, hview, hunique, hencode, fun s hs hmarked => ?_⟩
    exact exec_loadIndex_of_flush hs hmarked hbytes
  · intro s bytes hopened hread hdecode
    exact exec_loadIndex_of_unusable hopened hread hdecode

/-- Its names are lone surrogates, array indices out of order and the name of a prototype. -/
def oddIndex : PathIndex where
  paths :=
    [([0xD800], Text.ofString "10"), (Text.ofString "10", [0xDFFF, 0xD800]),
      (Text.ofString "__proto__", Text.ofString "10"), (Text.ofString "7", Text.ofString "__proto__")]
  seen :=
    [(Text.ofString "__proto__", clock 3), (Text.ofString "10", clock 2),
      ([0xDFFF, 0xD800], clock 1)]

/-- A tree whose index file holds a list. -/
def listTree : FileTree :=
  ⟨[(indexPath [], .file (Text.toUtf8 (Text.ofString "[]")) none)]⟩

theorem index_reads_back_oddIndex :
    (∃ s' j, (flush []).exec ⟨.empty, ⟨some oddIndex, true⟩, clock 4, []⟩ = (.ok (), s') ∧
        (loadIndex []).exec (reopen s') = (.ok j, { s' with state := ⟨some j, false⟩ }) ∧
        j.view = oddIndex.view) ∧
      (loadIndex []).exec ⟨listTree, .opened, clock 4, []⟩ =
        (.ok .empty, ⟨listTree, ⟨some .empty, true⟩, clock 4, [unusableNote []]⟩) := by
  obtain ⟨hreads, hunusable⟩ := index_reads_back []
  have hunique : oddIndex.Unique :=
    ⟨show List.Nodup _ by decide, show List.Nodup _ by decide⟩
  have htimes : ∀ e ∈ oddIndex.seen, e.2.IsFinite := by
    simp only [oddIndex, List.forall_mem_cons]
    exact ⟨clock_isFinite (by decide), clock_isFinite (by decide), clock_isFinite (by decide),
      by simp⟩
  obtain ⟨j, -, hview, -, -, hstore⟩ := hreads oddIndex hunique htimes
  obtain ⟨s', hflush, hload⟩ := hstore ⟨.empty, ⟨some oddIndex, true⟩, clock 4, []⟩
    (isHealthy_of_isBare (FileTree.isBare_empty [])) rfl
  exact ⟨⟨s', j, hflush, hload, hview⟩,
    hunusable ⟨listTree, .opened, clock 4, []⟩ (Text.toUtf8 (Text.ofString "[]")) rfl rfl
      (by decide +kernel)⟩

end DiskStore

end CloneScan
