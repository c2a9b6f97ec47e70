import CloneScan.Cache.DiskStore
import CloneScan.Proofs.StoreRun

/-!
# The files of a store on disk

What the operations of a store on disk do to files: a put brings the file of its record, a flush
the file of the index, and whatever else happens brings no file.  Each operation moves the
surroundings along every relation that permits changes in the directory of the store.
-/

namespace CloneScan

/-! ## Files -/

namespace FileTree

/-- A file with some bytes stands under a path, wherever the directories above it are. -/
def HasFile (t : FileTree) (path : List Text) (bytes : List UInt8) : Prop :=
  ∃ time, t.entry? path = some (.file bytes time)

/-- The files of the second tree are files of the first or new ones. -/
def Brings (new : List Text → List UInt8 → Prop) (t t' : FileTree) : Prop :=
  ∀ path bytes, t'.HasFile path bytes → t.HasFile path bytes ∨ new path bytes

variable {new : List Text → List UInt8 → Prop}

theorem Brings.refl (t : FileTree) : Brings new t t :=
  fun _ _ h => .inl h

theorem Brings.trans {t t' t'' : FileTree} (h : Brings new t t') (h' : Brings new t' t'') :
    Brings new t t'' := by
  intro path bytes hfile
  rcases h' path bytes hfile with hfile | hnew
  · exact h path bytes hfile
  · exact .inr hnew

theorem setEntry_spec (t : FileTree) {path : List Text} (hpath : path ≠ []) (e : FileEntry)
    (q : List Text) :
    FileTree.entry? (t.setEntry path e) q = if q == path then some e else t.entry? q := by
  cases q with
  | nil =>
      have hne : ([] == path) = false := by simpa using Ne.symm hpath
      rw [hne]
      rfl
  | cons a q =>
      have hentries : (t.setEntry path e).entries =
          if t.entries.any fun x => x.1 == path then
            t.entries.map fun x => if x.1 == path then (path, e) else x
          else t.entries ++ [(path, e)] := by
        unfold setEntry
        split <;> rfl
      unfold entry?
      rw [hentries]
      exact find?_set t.entries path e (a :: q)

theorem hasFile_of_filter {t : FileTree} (keep : List Text → Bool) {q : List Text}
    {bytes : List UInt8} (h : HasFile ⟨t.entries.filter fun x => keep x.1⟩ q bytes) :
    t.HasFile q bytes := by
  obtain ⟨time, h⟩ := h
  refine ⟨time, ?_⟩
  cases q with
  | nil => cases h
  | cons a q =>
      unfold entry? at h ⊢
      rw [find?_filter_key] at h
      cases hkeep : keep (a :: q) with
      | true =>
          rw [hkeep] at h
          exact h
      | false =>
          rw [hkeep] at h
          cases h

theorem descend_spec {t : FileTree} {here rest : List Text} {e : FileEntry}
    (h : t.descend here rest = .ok e) : t.entry? (here ++ rest) = some e := by
  induction rest generalizing here with
  | nil =>
      rw [List.append_nil]
      unfold descend at h
      split at h
      case h_1 => cases h
      case h_2 hentry =>
          cases h
          exact hentry
  | cons s rest ih =>
      unfold descend at h
      split at h
      case h_1 => cases h
      case h_2 => cases h
      case h_3 => simpa using ih h

theorem hasFile_of_read {t : FileTree} {path : List Text} {bytes : List UInt8}
    (h : t.read path = .ok bytes) : t.HasFile path bytes := by
  unfold read at h
  split at h
  case h_1 => cases h
  case h_2 => cases h
  case h_3 time hfind =>
      cases h
      have hentry : t.entry? ([] ++ path) = some (.file bytes time) := descend_spec hfind
      exact ⟨time, hentry⟩

theorem brings_setEntry_directory {t : FileTree} {path : List Text} (hpath : path ≠ []) :
    Brings new t (t.setEntry path .directory) := by
  rintro q bytes ⟨time, h⟩
  rw [setEntry_spec t hpath] at h
  split at h
  · cases h
  · exact .inl ⟨time, h⟩

theorem brings_makeFrom {t t' : FileTree} {here rest : List Text}
    (h : makeFrom t here rest = .ok t') : Brings new t t' := by
  induction rest generalizing t here with
  | nil =>
      cases h
      exact Brings.refl _
  | cons s rest ih =>
      unfold makeFrom at h
      simp only at h
      split at h
      case h_1 => exact (brings_setEntry_directory (by simp)).trans (ih h)
      case h_2 => exact ih h
      case h_3 => cases h

theorem write_eq {t t' : FileTree} {path : List Text} {bytes : List UInt8} {now : Number}
    (h : t.write path bytes now = .ok t') : t' = t.setEntry path (.file bytes (some now)) := by
  unfold write at h
  split at h
  case h_1 => cases h
  case h_2 => exact (Except.ok.inj h).symm
  case h_3 =>
      split at h
      case h_1 => exact (Except.ok.inj h).symm
      case h_2 => cases h
      case h_3 => cases h
  case h_4 => cases h

/-- A write brings one file. -/
theorem brings_write {t t' : FileTree} {path : List Text} {bytes : List UInt8} {now : Number}
    (hpath : path ≠ []) (h : t.write path bytes now = .ok t') (hnew : new path bytes) :
    Brings new t t' := by
  rw [write_eq h]
  rintro q found ⟨time, hq⟩
  rw [setEntry_spec t hpath] at hq
  split at hq
  case isTrue heq =>
      cases hq
      rw [eq_of_beq heq]
      exact .inr hnew
  case isFalse => exact .inl ⟨time, hq⟩

theorem brings_remove {t t' : FileTree} {path : List Text} (h : t.remove path = .ok t') :
    Brings new t t' := by
  unfold remove at h
  split at h
  case h_1 => cases h
  case h_2 => cases h
  case h_3 =>
      cases h
      exact fun q bytes hq => .inl (hasFile_of_filter (fun p => p != path) hq)

theorem brings_removeAll {t t' : FileTree} {path : List Text} (h : t.removeAll path = .ok t') :
    Brings new t t' := by
  unfold removeAll at h
  split at h
  case h_1 =>
      cases h
      exact Brings.refl t
  case h_2 => cases h
  case h_3 =>
      cases h
      exact fun q bytes hq => .inl (hasFile_of_filter (fun p => !path.isPrefixOf p) hq)

end FileTree

/-! ## The store on disk -/

namespace DiskStore

open StoreM

/-- A relation that a store in a directory may move its surroundings along: it does not look at the
state of the store or the log, and making directories and removing files in the directory is
within it. -/
structure Permits (directory : List Text)
    (R : Surroundings DiskState → Surroundings DiskState → Prop) : Prop where
  trans : ∀ {s t u}, R s t → R t u → R s u
  beside : ∀ s state notes, R s { s with state, notes }
  make : ∀ {s t path}, directory <+: path → s.files.makeDirectory path = .ok t →
    R s { s with files := t }
  remove : ∀ {s t path}, directory <+: path → s.files.remove path = .ok t →
    R s { s with files := t }
  removeAll : ∀ {s t}, s.files.removeAll directory = .ok t → R s { s with files := t }

/-- Whatever else a store does, it brings no files. -/
theorem permits_brings (directory : List Text) (new : List Text → List UInt8 → Prop) :
    Permits directory fun s t => FileTree.Brings new s.files t.files where
  trans h h' := h.trans h'
  beside s _ _ := FileTree.Brings.refl s.files
  make _ h := FileTree.brings_makeFrom h
  remove _ h := FileTree.brings_remove h
  removeAll h := FileTree.brings_removeAll h

section

variable {α β : Type} {directory : List Text}
  {R : Surroundings DiskState → Surroundings DiskState → Prop} (hR : Permits directory R)

include hR

theorem Permits.refl (s : Surroundings DiskState) : R s s :=
  hR.beside s s.state s.notes

theorem Permits.bind {op : StoreM DiskState α} {next : α → StoreM DiskState β}
    (hop : Moves R op) (hnext : ∀ a, Moves R (next a)) : Moves R (op >>= next) :=
  Moves.bind (R := R) hR.trans hop hnext

theorem Permits.pure (a : α) : Moves R (pure a : StoreM DiskState α) :=
  hR.refl

theorem Permits.throw (fault : StoreFault) : Moves R (throw fault : StoreM DiskState α) :=
  hR.refl

theorem Permits.files : Moves R (files : StoreM DiskState FileTree) :=
  hR.refl

theorem Permits.now : Moves R (now : StoreM DiskState Number) :=
  hR.refl

theorem Permits.state : Moves R (state : StoreM DiskState DiskState) :=
  hR.refl

theorem Permits.say (note : Note) : Moves R (say note : StoreM DiskState Unit) :=
  fun s => hR.beside s s.state _

theorem Permits.setState (d : DiskState) : Moves R (setState d) :=
  fun s => hR.beside s d s.notes

theorem Permits.changeFiles {change : FileTree → Except FileFault FileTree}
    (h : ∀ {s t}, change s.files = .ok t → R s { s with files := t }) :
    Moves R (changeFiles change) := by
  intro s
  rw [exec_changeFiles]
  cases hchange : change s.files with
  | ok t => exact h hchange
  | error fault => exact hR.refl s

theorem moves_markDirty : Moves R markDirty :=
  hR.bind hR.state fun _ => hR.setState _

theorem moves_setIndex (index : PathIndex) : Moves R (setIndex index) :=
  hR.bind hR.state fun _ => hR.setState _

theorem moves_entryPath (key : Text) : Moves R (entryPath directory key) := by
  unfold entryPath
  split
  · exact hR.pure _
  · exact hR.throw _

theorem moves_readIndex : Moves R (readIndex directory) := by
  unfold readIndex
  refine hR.bind hR.files fun t => ?_
  split
  · exact hR.pure _
  · exact hR.bind (hR.say _) fun _ => hR.pure _
  · split
    · exact hR.pure _
    · exact hR.bind (hR.say _) fun _ => hR.bind (moves_markDirty hR) fun _ => hR.pure _

theorem moves_loadIndex : Moves R (loadIndex directory) := by
  unfold loadIndex
  refine hR.bind hR.state fun d => ?_
  split
  · exact hR.pure _
  · exact hR.bind (moves_readIndex hR) fun index =>
      hR.bind (moves_setIndex hR index) fun _ => hR.pure _

theorem moves_removeEntry (key : Text) : Moves R (removeEntry directory key) := by
  unfold removeEntry entryPath
  split
  case isFalse => exact hR.refl
  case isTrue =>
      rw [pure_bind]
      -- The tree that is put back was made from the tree of the same moment.
      intro s
      rw [exec_bind, exec_files]
      simp only
      cases hremove : s.files.remove (entriesPath directory ++ [key ++ suffix]) with
      | ok t => exact hR.remove (by simp [entriesPath]) hremove
      | error fault => cases fault <;> exact hR.refl s

theorem moves_discard (key : Text) (reason : CorruptReason) :
    Moves R (discard directory key reason) := by
  unfold discard
  refine hR.bind (hR.say _) fun _ => hR.bind ?_ fun _ => hR.pure _
  refine Moves.tryCatch (R := R) hR.trans ?_ fun _ => hR.say _
  exact hR.bind (moves_removeEntry hR key) fun _ => hR.pure _

theorem moves_get (key : Text) : Moves R (get directory key) := by
  unfold get
  refine hR.bind (moves_entryPath hR key) fun path => hR.bind hR.files fun t => ?_
  split
  · exact hR.pure _
  · exact moves_discard hR key _
  · split
    · exact hR.pure _
    · exact moves_discard hR key _

theorem moves_invalidate (path : Text) : Moves R (invalidate directory path) := by
  unfold invalidate
  refine hR.bind (moves_loadIndex hR) fun index => ?_
  split
  · exact moves_setIndex hR _
  · exact hR.bind (moves_setIndex hR _) fun _ => hR.bind (moves_markDirty hR) fun _ =>
      hR.bind (moves_removeEntry hR _) fun _ => hR.pure _

theorem moves_recordSeen (path key : Text) : Moves R (recordSeen directory path key) := by
  unfold recordSeen
  exact hR.bind (moves_loadIndex hR) fun index => hR.bind hR.now fun now =>
    hR.bind (moves_setIndex hR _) fun _ => moves_markDirty hR

theorem moves_listEntries : Moves R (listEntries directory) := by
  unfold listEntries
  refine hR.bind hR.files fun t => ?_
  split
  · exact hR.pure _
  · exact hR.pure _
  · exact hR.throw _

theorem moves_removeEach (keys : List Text) : Moves R (removeEach directory keys) := by
  induction keys with
  | nil => exact hR.pure _
  | cons key keys ih =>
      exact hR.bind (moves_removeEntry hR key) fun _ => hR.bind ih fun _ => hR.pure _

theorem moves_isOldFile (cutoff : Number) (key : Text) :
    Moves R (isOldFile directory cutoff key) := by
  unfold isOldFile
  refine hR.bind (moves_entryPath hR key) fun path => hR.bind hR.files fun t => ?_
  split
  · exact hR.pure _
  · exact hR.pure _

theorem moves_removeUntracked (cutoff : Number) (keys : List Text) :
    Moves R (removeUntracked directory cutoff keys) := by
  induction keys with
  | nil => exact hR.pure _
  | cons key keys ih =>
      unfold removeUntracked
      refine hR.bind (moves_isOldFile hR cutoff key) fun old => ?_
      dsimp only
      split
      · exact hR.bind (moves_removeEntry hR key) fun _ => hR.bind ih fun _ => hR.pure _
      · exact hR.bind (hR.pure _) fun _ => hR.bind ih fun _ => hR.pure _

theorem moves_prune (options : PruneOptions) : Moves R (prune directory options) := by
  unfold prune
  refine hR.bind (moves_loadIndex hR) fun index => hR.bind hR.now fun now => ?_
  refine hR.bind (moves_setIndex hR _) fun _ => ?_
  have hrest : ∀ u : Unit, Moves R (do
      let removed ← removeEach directory (index.takeDead options now).1
      let entries ← listEntries directory
      let more ← removeUntracked directory (options.cutoff now) (entries.filter fun key =>
        !(index.takeDead options now).2.seen.has key && !options.live.contains key)
      return removed + more) := fun _ =>
    hR.bind (moves_removeEach hR _) fun _ => hR.bind (moves_listEntries hR) fun _ =>
      hR.bind (moves_removeUntracked hR _ _) fun _ => hR.pure _
  dsimp only
  split
  · exact hR.bind (moves_markDirty hR) hrest
  · exact hrest ()

theorem moves_clear : Moves R (clear directory) := by
  unfold clear
  exact hR.bind (hR.changeFiles hR.removeAll) fun _ => hR.setState _

/-- A put writes the file of its record. -/
theorem moves_put (key : Text) (value : Json)
    (hwrite : ∀ {s t now}, s.files.write (entriesPath directory ++ [key ++ suffix])
      (Text.toUtf8 value.render) now = .ok t → R s { s with files := t }) :
    Moves R (put directory key value) := by
  unfold put entryPath
  split
  case isFalse => exact hR.refl
  case isTrue =>
      rw [pure_bind]
      refine hR.bind (moves_loadIndex hR) fun index => hR.bind hR.files fun t => ?_
      split
      · exact hR.pure _
      · refine hR.bind (hR.changeFiles (hR.make (by simp [entriesPath]))) fun _ => ?_
        refine hR.bind hR.now fun now => hR.bind (hR.changeFiles hwrite) fun _ => ?_
        exact hR.bind (moves_setIndex hR _) fun _ => moves_markDirty hR
      · exact hR.throw _

/-- A flush writes the file of the index. -/
theorem moves_flush
    (hwrite : ∀ {s t bytes now}, s.files.write (indexPath directory) bytes now = .ok t →
      R s { s with files := t }) : Moves R (flush directory) := by
  unfold flush
  refine hR.bind hR.state fun d => ?_
  split
  · refine hR.bind (hR.changeFiles (hR.make List.prefix_rfl)) fun _ => ?_
    refine hR.bind hR.now fun now => hR.bind (hR.changeFiles hwrite) fun _ => ?_
    exact hR.bind hR.state fun _ => hR.setState _
  · exact hR.pure _

end

theorem exec_discard_ne_hit (directory : List Text) (key : Text) (reason : CorruptReason)
    (s : Surroundings DiskState) (r : CacheRecord) :
    ((discard directory key reason).exec s).1 ≠ .ok (.hit r) := by
  unfold discard
  rw [exec_bind, exec_say]
  dsimp only
  rw [exec_bind]
  split
  · simp
  · simp

/-- A look-up hits what the file of the record holds. -/
theorem decode_of_exec_get {directory : List Text} {key : Text} {s : Surroundings DiskState}
    {r : CacheRecord} (h : ((get directory key).exec s).1 = .ok (.hit r)) :
    ∃ bytes, s.files.HasFile (entriesPath directory ++ [key ++ suffix]) bytes ∧
      CacheRecord.decode (Text.ofUtf8 bytes) = .ok r := by
  unfold get entryPath at h
  split at h
  case isFalse => cases h
  case isTrue =>
      rw [pure_bind, exec_bind, exec_files] at h
      dsimp only at h
      split at h
      case h_1 => cases h
      case h_2 => exact absurd h (exec_discard_ne_hit _ _ _ _ _)
      case h_3 bytes hread =>
          split at h
          case h_1 found hdecode =>
              cases h
              exact ⟨bytes, FileTree.hasFile_of_read hread, hdecode⟩
          case h_2 => exact absurd h (exec_discard_ne_hit _ _ _ _ _)

end DiskStore

end CloneScan
