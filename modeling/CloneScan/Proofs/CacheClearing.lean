import CloneScan.Proofs.ScanReports
import CloneScan.Proofs.TreeEntries

/-!
# Clearing the cache

A store on disk changes nothing outside its directory, and clearing it removes the directory with
everything in it.  So clearing leaves the reports of scans as they are exactly as long as the files
that they read lie elsewhere.  The directory is where the settings put it, which may be the root of
the project or a directory above.
-/

namespace CloneScan

open Relation

/-! ## Files outside a directory -/

namespace FileTree

variable {t t' : FileTree} {path q directory : List Text} {bytes : List UInt8}

theorem entry?_of_find {e : FileEntry} (h : t.find path = .ok e) (hq : q <+: path)
    (hne : q ≠ path) : t.entry? q = some .directory := by
  have hdescend : ∀ rest here, t.descend here rest = .ok e → here <+: q → q <+: here ++ rest →
      q ≠ here ++ rest → t.entry? q = some .directory := by
    intro rest
    induction rest with
    | nil =>
        intro here _ hfrom hto hne
        rw [List.append_nil] at hto hne
        exact absurd (hto.eq_of_length_le hfrom.length_le) hne
    | cons s rest ih =>
        intro here h hfrom hto hne
        rw [descend] at h
        cases hentry : t.entry? here with
        | none => simp [hentry] at h
        | some found =>
            cases found with
            | file bytes time => simp [hentry] at h
            | directory =>
                rw [hentry] at h
                rcases (between_cons_iff here rest q s).mp ⟨hfrom, hto⟩ with rfl | ⟨hfrom, hto⟩
                · exact hentry
                · exact ih _ h hfrom hto (by simpa using hne)
  exact hdescend path [] h List.nil_prefix hq hne

theorem find_congr (h : ∀ q, q <+: path → t.entry? q = t'.entry? q) :
    t.find path = t'.find path := by
  have hdescend : ∀ rest here, here ++ rest = path →
      t.descend here rest = t'.descend here rest := by
    intro rest
    induction rest with
    | nil =>
        intro here hpath
        rw [descend, descend, h here ⟨[], hpath⟩]
    | cons s rest ih =>
        intro here hpath
        rw [descend, descend, h here ⟨_, hpath⟩, ih (here ++ [s]) (by simpa using hpath)]
  exact hdescend path [] rfl

theorem read_congr (h : ∀ q, q <+: path → t.entry? q = t'.entry? q) :
    t.read path = t'.read path := by
  rw [read, read, find_congr h]

theorem find_of_read (h : t.read path = .ok bytes) :
    ∃ time, t.find path = .ok (.file bytes time) := by
  unfold read at h
  split at h
  case h_1 => cases h
  case h_2 => cases h
  case h_3 time hfind =>
      cases h
      exact ⟨time, hfind⟩

/-- What stands outside a directory stays there. -/
def Spares (directory : List Text) (t t' : FileTree) : Prop :=
  ∀ q e, ¬ directory <+: q → t.entry? q = some e → t'.entry? q = some e

theorem Spares.read (h : Spares directory t t') (houtside : ¬ directory <+: path)
    (hread : t.read path = .ok bytes) : t'.read path = .ok bytes := by
  obtain ⟨time, hfind⟩ := find_of_read hread
  have hsame : ∀ q, q <+: path → t.entry? q = t'.entry? q := by
    intro q hq
    have hout : ¬ directory <+: q := fun hbelow => houtside (hbelow.trans hq)
    by_cases hne : q = path
    · obtain ⟨modified, hentry⟩ := hasFile_of_read hread
      rw [hne, hentry, h path _ houtside hentry]
    · have hentry := entry?_of_find hfind hq hne
      rw [hentry, h q _ hout hentry]
  rw [← read_congr hsame]
  exact hread

theorem spares_setEntry (hpath : path ≠ []) (e : FileEntry)
    (h : directory <+: path ∨ t.entry? path = none) : Spares directory t (t.setEntry path e) := by
  intro q e' houtside hentry
  rw [setEntry_spec t hpath]
  split
  case isFalse => exact hentry
  case isTrue heq =>
      obtain rfl := eq_of_beq heq
      rcases h with hbelow | hnone
      · exact absurd hbelow houtside
      · rw [hnone] at hentry
        cases hentry

theorem spares_filter (keep : List Text → Bool)
    (h : ∀ q, ¬ directory <+: q → keep q = true) :
    Spares directory t ⟨t.entries.filter fun e => keep e.1⟩ := by
  intro q e houtside hentry
  by_cases hq : q = []
  · rw [hq] at hentry ⊢
    exact hentry
  · rw [entry?_filter t keep hq, if_pos (h q houtside)]
    exact hentry

theorem spares_makeFrom {here rest : List Text} (h : makeFrom t here rest = .ok t') :
    Spares directory t t' := by
  induction rest generalizing t here with
  | nil =>
      obtain rfl := Except.ok.inj h
      exact fun q e _ hentry => hentry
  | cons s rest ih =>
      unfold makeFrom at h
      simp only at h
      split at h
      case h_1 hnone =>
          have hmade : Spares directory t (t.setEntry (here ++ [s]) .directory) :=
            spares_setEntry (by simp) .directory (.inr hnone)
          exact fun q e hq hentry => ih h q e hq (hmade q e hq hentry)
      case h_2 => exact ih h
      case h_3 => cases h

theorem spares_write {bytes : List UInt8} {now : Number} (hpath : path ≠ [])
    (hbelow : directory <+: path) (h : t.write path bytes now = .ok t') :
    Spares directory t t' := by
  rw [write_eq h]
  exact spares_setEntry hpath _ (.inl hbelow)

theorem spares_remove (hbelow : directory <+: path) (h : t.remove path = .ok t') :
    Spares directory t t' := by
  unfold remove at h
  split at h
  case h_1 => cases h
  case h_2 => cases h
  case h_3 =>
      obtain rfl := Except.ok.inj h
      apply spares_filter fun p => p != path
      intro q hq
      simpa using fun heq : q = path => hq (heq ▸ hbelow)

/-! ## Removing a directory -/

theorem removeAll_cases (h : t.removeAll directory = .ok t') :
    t.find directory = .error .missing ∧ t' = t ∨
      (∃ e, t.find directory = .ok e) ∧
        t' = ⟨t.entries.filter fun e => !directory.isPrefixOf e.1⟩ := by
  unfold removeAll at h
  split at h
  case h_1 hfind => exact .inl ⟨hfind, (Except.ok.inj h).symm⟩
  case h_2 => cases h
  case h_3 e hfind => exact .inr ⟨⟨e, hfind⟩, (Except.ok.inj h).symm⟩

theorem entry?_outside (t : FileTree) (hq : ¬ directory <+: q) :
    FileTree.entry? ⟨t.entries.filter fun e => !directory.isPrefixOf e.1⟩ q = t.entry? q := by
  by_cases hne : q = []
  · rw [hne]
    rfl
  · rw [entry?_filter t (fun p => !directory.isPrefixOf p) hne, if_pos]
    rw [Bool.eq_false_iff.mpr (mt List.isPrefixOf_iff_prefix.mp hq)]
    rfl

theorem entry?_inside (t : FileTree) (hne : q ≠ []) (hq : directory <+: q) :
    FileTree.entry? ⟨t.entries.filter fun e => !directory.isPrefixOf e.1⟩ q = none := by
  rw [entry?_filter t (fun p => !directory.isPrefixOf p) hne, if_neg]
  simpa using hq

theorem read_removeAll (h : t.removeAll directory = .ok t') (houtside : ¬ directory <+: path) :
    t'.read path = t.read path := by
  obtain ⟨-, rfl⟩ | ⟨-, rfl⟩ := removeAll_cases h
  · rfl
  · apply read_congr
    intro q hq
    exact entry?_outside t fun hbelow => houtside (hbelow.trans hq)

theorem find_of_directories {e : FileEntry}
    (habove : ∀ q, q <+: path → q ≠ path → t.entry? q = some .directory)
    (h : t.entry? path = some e) : t.find path = .ok e := by
  have hdescend : ∀ rest here, here ++ rest = path → t.descend here rest = .ok e := by
    intro rest
    induction rest with
    | nil =>
        intro here hpath
        rw [List.append_nil] at hpath
        simp [descend, hpath, h]
    | cons s rest ih =>
        intro here hpath
        have hhere := habove here ⟨_, hpath⟩ fun heq => by simp [heq] at hpath
        simp only [descend, hhere]
        exact ih _ (by simpa using hpath)
  exact hdescend path [] rfl

/-- A file in the directory could be read, so the directory is found and the file goes with it. -/
theorem read_removeAll_of_prefix (hbelow : directory <+: path) (hread : t.read path = .ok bytes) :
    ∃ t', t.removeAll directory = .ok t' ∧ t'.read path = .error .missing := by
  obtain ⟨time, hfind⟩ := find_of_read hread
  obtain ⟨modified, hentry⟩ := hasFile_of_read hread
  have hfound : ∃ e, t.find directory = .ok e := by
    by_cases heq : directory = path
    · exact ⟨_, heq ▸ hfind⟩
    · refine ⟨.directory, find_of_directories ?_ (entry?_of_find hfind hbelow heq)⟩
      intro q hq hne
      refine entry?_of_find hfind (hq.trans hbelow) fun hpath => hne ?_
      exact hq.eq_of_length_le (by rw [hpath]; exact hbelow.length_le)
  obtain ⟨e, hfound⟩ := hfound
  refine ⟨⟨t.entries.filter fun e => !directory.isPrefixOf e.1⟩, by rw [removeAll, hfound], ?_⟩
  have hne : path ≠ [] := by
    rintro rfl
    cases hentry
  have hmissing : FileTree.find ⟨t.entries.filter fun e => !directory.isPrefixOf e.1⟩ path =
      .error .missing := by
    refine find_of_none ?_ (entry?_inside t hne hbelow)
    intro q hq bytes' time' hfile
    by_cases hq' : directory <+: q
    · rw [entry?_inside t (by rintro rfl; cases hfile) hq'] at hfile
      cases hfile
    · rw [entry?_outside t hq', entry?_of_find hfind hq fun heq => hq' (heq ▸ hbelow)] at hfile
      cases hfile
  rw [read, hmissing]

end FileTree

/-! ## The store in its directory -/

namespace DiskStore

variable {directory : List Text}

/-- A store changes nothing outside its directory, and not the time. -/
theorem permits_spares (directory : List Text) :
    Permits directory fun s t => FileTree.Spares directory s.files t.files ∧ t.now = s.now where
  trans h h' := ⟨fun q e hq hentry => h'.1 q e hq (h.1 q e hq hentry), h'.2.trans h.2⟩
  beside _ _ _ := ⟨fun _ _ _ hentry => hentry, rfl⟩
  make _ h := ⟨FileTree.spares_makeFrom h, rfl⟩
  remove hbelow h := ⟨FileTree.spares_remove hbelow h, rfl⟩
  removeAll h := by
    refine ⟨?_, rfl⟩
    obtain ⟨-, rfl⟩ | ⟨-, rfl⟩ := FileTree.removeAll_cases h
    · exact fun _ _ _ hentry => hentry
    · exact fun q e hq hentry => (FileTree.entry?_outside _ hq).trans hentry

end DiskStore

/-- Files outside the directory of a store on disk can be read at every time. -/
theorem StoreKind.keeps_disk (directory : List Text) (files : FileTree) (now : Number) :
    (StoreKind.disk directory).Keeps fun t time => time = now ∧
      ∀ path bytes, ¬ directory <+: path → files.read path = .ok bytes →
        t.read path = .ok bytes := by
  have hR := DiskStore.permits_spares directory
  have hkeeps : ∀ {α : Type} {op : StoreM DiskState α} {s : Surroundings DiskState},
      (FileTree.Spares directory s.files (op.exec s).2.files ∧ (op.exec s).2.now = s.now) →
      (s.now = now ∧ ∀ path bytes, ¬ directory <+: path → files.read path = .ok bytes →
        s.files.read path = .ok bytes) →
      (op.exec s).2.now = now ∧ ∀ path bytes, ¬ directory <+: path →
        files.read path = .ok bytes → (op.exec s).2.files.read path = .ok bytes := by
    intro α op s hspares hs
    refine ⟨hspares.2.trans hs.1, ?_⟩
    intro path bytes houtside hread
    exact hspares.1.read houtside (hs.2 path bytes houtside hread)
  constructor
  · intro c s
    cases c with
    | get key => exact hkeeps (DiskStore.moves_get hR key s)
    | put key r =>
        refine hkeeps (DiskStore.moves_put hR key r.toJson (fun h => ⟨?_, rfl⟩) s)
        exact FileTree.spares_write (by simp) (by simp [DiskStore.entriesPath]) h
    | recordSeen path key => exact hkeeps (DiskStore.moves_recordSeen hR path key s)
  · intro u s
    cases u with
    | invalidate path => exact hkeeps (DiskStore.moves_invalidate hR path s)
    | prune options =>
        rw [← Upkeep.exec_prune]
        exact hkeeps (DiskStore.moves_prune hR options s)
    | flush =>
        refine hkeeps (DiskStore.moves_flush hR (fun h => ⟨?_, rfl⟩) s)
        exact FileTree.spares_write (by simp [DiskStore.indexPath])
          (by simp [DiskStore.indexPath]) h
    | clear => exact hkeeps (DiskStore.moves_clear hR s)

/-! ## Clearing -/

/-- Where a configuration keeps its store on disk. -/
def Config.cachePath (c : Config) : List Text :=
  Path.normalSegments c.cache.directory

theorem Config.directory_of_resolveCache {environment : Environment} {root : Text}
    {settings : CacheSettings} {options : CacheOptions}
    (h : Config.resolveCache environment root settings = .ok options) :
    options.directory = Path.resolve root
      ((environment.cacheDirectory.or settings.directory).getD Config.defaultDirectory) := by
  unfold Config.resolveCache at h
  dsimp only at h
  split at h
  · cases h
  · obtain rfl := Except.ok.inj h
    rfl

/-- The directory is what the environment or the settings name, seen from the root. -/
theorem Config.directory_of_load {environment : Environment} {root source origin : Text}
    {config : Config} (h : Config.load environment root source origin = .ok config) :
    config.cache.directory = Path.resolve config.root
      ((environment.cacheDirectory.or (config.settings.cache.getD {}).directory).getD
        Config.defaultDirectory) := by
  unfold Config.load Config.loadWith Config.resolve at h
  cases hparse : Settings.parseWith Yaml.load? source origin with
  | error fault => simp [hparse, bind, Except.bind] at h
  | ok settings =>
      simp only [hparse, bind, Except.bind] at h
      split at h
      case isTrue => cases h
      case isFalse =>
          split at h
          case h_1 => cases h
          case h_2 =>
              split at h
              case h_1 => cases h
              case h_2 hcache =>
                  split at h
                  case h_1 => cases h
                  case h_2 =>
                      obtain rfl := Except.ok.inj h
                      exact directory_of_resolveCache hcache

/-- The files once the store in a directory is cleared; a clear that fails removes nothing. -/
def FileTree.cleared (t : FileTree) (directory : List Text) : FileTree :=
  match t.removeAll directory with
  | .ok t' => t'
  | .error _ => t

namespace FileTree

variable {t : FileTree} {path directory : List Text} {bytes : List UInt8}

theorem read_cleared (houtside : ¬ directory <+: path) :
    (t.cleared directory).read path = t.read path := by
  unfold cleared
  cases h : t.removeAll directory with
  | ok t' => exact read_removeAll h houtside
  | error fault => rfl

theorem read_cleared_of_prefix (hbelow : directory <+: path) (hread : t.read path = .ok bytes) :
    (t.cleared directory).read path = .error .missing := by
  obtain ⟨t', hremove, hmissing⟩ := read_removeAll_of_prefix hbelow hread
  unfold cleared
  rw [hremove]
  exact hmissing

end FileTree

theorem files_clearCache (directory : List Text) (config : Config) (s : Surroundings DiskState) :
    ((clearCache (diskStore directory) config).exec s).2.files = s.files.cleared directory := by
  unfold clearCache diskStore DiskStore.clear FileTree.cleared
  simp only [StoreM.exec_bind, StoreM.exec_changeFiles]
  cases s.files.removeAll directory <;> rfl

namespace ScanJob

variable {job : ScanJob} {files files' : FileTree} {input : ScanInput}

theorem read_of_sound (h : job.failure? files input = none) :
    ∃ language bytes, Language.ofTag? input.language = some language ∧
      files.read (job.pathOf input) = .ok bytes := by
  unfold failure? at h
  cases hlanguage : Language.ofTag? input.language with
  | none => simp [hlanguage] at h
  | some language =>
      cases hread : files.read (job.pathOf input) with
      | error fault => simp [hlanguage, hread] at h
      | ok bytes => exact ⟨language, bytes, rfl, rfl⟩

theorem failure?_congr
    (h : files'.read (job.pathOf input) = files.read (job.pathOf input)) :
    job.failure? files' input = job.failure? files input := by
  rw [failure?, failure?, h]

theorem reports_congr (inputs : List ScanInput)
    (h : ∀ input ∈ inputs, files'.read (job.pathOf input) = files.read (job.pathOf input)) :
    job.findings files' inputs = job.findings files inputs ∧
      inputs.filterMap (job.warning? files') = inputs.filterMap (job.warning? files) := by
  constructor
  · have houtcomes : inputs.map (job.uncached files') = inputs.map (job.uncached files) := by
      apply List.map_congr_left
      intro input hinput
      rw [uncached, uncached, h input hinput]
    rw [findings, findings, houtcomes]
  · apply List.filterMap_congr
    intro input hinput
    rw [warning?, warning?, failure?_congr (h input hinput)]

theorem failure?_cleared {directory : List Text} (hsound : job.failure? files input = none)
    (hbelow : directory <+: job.pathOf input) :
    job.failure? (files.cleared directory) input =
      some (.fileRead input.path FileFault.missing.code) := by
  obtain ⟨language, bytes, hlanguage, hread⟩ := read_of_sound hsound
  rw [failure?, hlanguage, FileTree.read_cleared_of_prefix hbelow hread]

theorem file_ne_of_sound {inputs : List ScanInput} (hinput : input ∈ job.included inputs)
    (hsound : job.failure? files input = none) :
    ∀ warning ∈ (job.included inputs).filterMap (job.warning? files),
      warning.file ≠ input.path := by
  intro warning hwarning heq
  obtain ⟨other, hother, hwarns⟩ := List.mem_filterMap.mp hwarning
  obtain ⟨failure, hfailure, rfl⟩ := Option.map_eq_some_iff.mp hwarns
  -- no two inputs of a scan have one path
  have hsame : other = input :=
    List.inj_on_of_nodup_map (job.nodup_path_included inputs) hother hinput heq
  rw [hsame, hsound] at hfailure
  cases hfailure

/-- **Clearing spares what lies outside the cache directory, and nothing else.**  The directory is
what the environment or the settings name, seen from the root.  A file that could be read can be
read as before exactly when it lies outside.  When all files of a scan do, a scan after the clear
has the violations and warnings of the scan before; a file that was scanned and lies inside is a
missing file afterwards. -/
theorem reports_after_clearing {environment : Environment} {root source origin : Text}
    {config : Config} (hload : Config.load environment root source origin = .ok config)
    (s : Surroundings DiskState) {files : FileTree}
    (hfiles : ((clearCache (diskStore config.cachePath) config).exec s).2.files = files)
    {tokenizer : Tokenizer} (htokenizer : FollowsDialect tokenizer) {k k' : StoreKind}
    {w : World k} {w' : World k'} (hw : w.InUse tokenizer) (hw' : w'.InUse tokenizer)
    {job : ScanJob} (hjob : job.config = config) {inputs : List ScanInput}
    {before after : ScanResult} (hbefore : job.Completes s.files w inputs before)
    (hafter : job.Completes files w' inputs after) :
    config.cachePath = Path.normalSegments (Path.resolve config.root
        ((environment.cacheDirectory.or (config.settings.cache.getD {}).directory).getD
          Config.defaultDirectory)) ∧
      (∀ path bytes, s.files.read path = .ok bytes →
        (files.read path = .ok bytes ↔ ¬ config.cachePath <+: path)) ∧
      ((∀ input ∈ job.included inputs, ¬ job.config.cachePath <+: job.pathOf input) →
        after.violations = before.violations ∧ after.warnings = before.warnings) ∧
      (∀ input ∈ job.included inputs, job.failure? s.files input = none →
        job.config.cachePath <+: job.pathOf input →
        (∀ warning ∈ before.warnings, warning.file ≠ input.path) ∧
          ⟨input.path, .readError, (Failure.fileRead input.path FileFault.missing.code).message⟩ ∈
            after.warnings) := by
  rw [files_clearCache] at hfiles
  subst hfiles hjob
  refine ⟨congrArg Path.normalSegments (Config.directory_of_load hload), ?_, ?_, ?_⟩
  · intro path bytes hread
    constructor
    · intro hsame hbelow
      rw [FileTree.read_cleared_of_prefix hbelow hread] at hsame
      cases hsame
    · intro houtside
      rw [FileTree.read_cleared houtside]
      exact hread
  · intro houtside
    obtain ⟨hfindings, hwarnings⟩ := reports_congr (job.included inputs)
      fun input hinput => FileTree.read_cleared (houtside input hinput)
    rw [hafter.violations htokenizer hw', hbefore.violations htokenizer hw,
      hafter.warnings htokenizer hw', hbefore.warnings htokenizer hw]
    exact ⟨hfindings, hwarnings⟩
  · intro input hinput hsound hbelow
    rw [hafter.warnings htokenizer hw', hbefore.warnings htokenizer hw]
    refine ⟨file_ne_of_sound hinput hsound, List.mem_filterMap.mpr ⟨input, hinput, ?_⟩⟩
    rw [warning?, failure?_cleared hsound hbelow]
    rfl

/-! ### A directory of its own, and the root -/

/-- Clearing the cache is clearing its store, with a note. -/
theorem exists_notes_clearCache {σ : Type} (store : CacheStore σ) (config : Config)
    (s : Surroundings σ) : ∃ notes, ((clearCache store config).exec s).2 =
      { ((store.clear).exec s).2 with notes } := by
  unfold clearCache
  rw [StoreM.exec_bind]
  rcases (store.clear).exec s with ⟨fault | _, t⟩
  · exact ⟨t.notes, rfl⟩
  · exact ⟨_, rfl⟩

/-- A scan of the twin files on a new store on disk. -/
def scanBefore (job : ScanJob) : Except Failure ScanResult × Surroundings DiskState :=
  job.run (diskStore job.config.cachePath) twinInputs (twinAround .opened)

/-- The store is cleared. -/
def afterClear (job : ScanJob) : Surroundings DiskState :=
  ((clearCache (diskStore job.config.cachePath) job.config).exec (scanBefore job).2).2

/-- The scan is run again. -/
def scanAfter (job : ScanJob) : Except Failure ScanResult × Surroundings DiskState :=
  job.run (diskStore job.config.cachePath) twinInputs (afterClear job)

/-- A whole scan that reads the twin files outside its cache directory. -/
structure ReadsTwins (job : ScanJob) : Prop where
  tokenizer : job.tokenizer = tokenizeAs
  whole : job.abortAfter = none
  window : (job.config.thresholds .python).tokens < 2 ^ 53
  included : job.included twinInputs = twinInputs
  outside : ∀ input ∈ twinInputs, ¬ job.config.cachePath <+: job.pathOf input
  twins : ∀ input ∈ twinInputs, (twinFiles.read (job.pathOf input)).toOption = some twinBytes

section

variable {job : ScanJob}

/-- What holds of the twin files while the store is in use. -/
def IsUndisturbed (job : ScanJob) (t : FileTree) (now : Number) : Prop :=
  now = .finite 1 ∧ ∀ path bytes, ¬ job.config.cachePath <+: path →
    twinFiles.read path = .ok bytes → t.read path = .ok bytes

theorem keeps_isUndisturbed (job : ScanJob) :
    (StoreKind.disk job.config.cachePath).Keeps job.IsUndisturbed :=
  StoreKind.keeps_disk job.config.cachePath twinFiles (.finite 1)

theorem ReadsTwins.read (hjob : job.ReadsTwins) {t : FileTree} {now : Number}
    (ht : job.IsUndisturbed t now) {input : ScanInput} (hinput : input ∈ job.included twinInputs) :
    t.read (job.pathOf input) = .ok twinBytes := by
  rw [hjob.included] at hinput
  apply ht.2 _ _ (hjob.outside input hinput)
  have htwin := hjob.twins input hinput
  cases hread : twinFiles.read (job.pathOf input) with
  | error fault =>
      rw [hread] at htwin
      cases htwin
  | ok bytes =>
      rw [hread] at htwin
      rw [Option.some.inj htwin]

/-- Scans of the twin files keep the store in use. -/
theorem ReadsTwins.exists_inUse (hjob : job.ReadsTwins) {w : World (.disk job.config.cachePath)}
    (hw : w.InUse tokenizeAs) (hcontents : w.contents ⊆ {twinBytes})
    (haround : job.IsUndisturbed w.around.files w.around.now) {files : FileTree} {now : Number}
    (hfiles : job.IsUndisturbed files now) :
    ∃ w' : World (.disk job.config.cachePath),
      w'.around = (job.run (diskStore job.config.cachePath) twinInputs w.around).2 ∧
      w'.InUse tokenizeAs ∧ w'.contents ⊆ {twinBytes} ∧
      ∃ result, (job.run (diskStore job.config.cachePath) twinInputs w.around).1 = .ok result ∧
        job.Completes files w' twinInputs result := by
  have hread : ∀ t time, job.IsUndisturbed t time → ∀ input ∈ job.included twinInputs,
      t.read (job.pathOf input) = files.read (job.pathOf input) := by
    intro t time ht input hinput
    rw [hjob.read ht hinput, hjob.read hfiles hinput]
  have hknown : job.contents files twinInputs ⊆ {twinBytes} := by
    rintro bytes ⟨input, hinput, hbytes⟩
    rw [hjob.read hfiles hinput] at hbytes
    exact (Except.ok.inj hbytes).symm
  have hunion := Set.union_subset hcontents hknown
  have hnumbers : ∀ r : Reading, r.job = job → r.input ∈ job.included twinInputs →
      r.content = files.read (job.pathOf r.input) → (∃ t, job.IsUndisturbed t r.now) →
      r.HasExactNumbers := by
    rintro r hsame hinput hcontent ⟨t, ht⟩
    apply hasExactNumbers_of_twinBytes
    · rw [hsame]
      exact hjob.tokenizer
    · rw [hjob.included] at hinput
      exact hinput
    · exact hcontent.trans (hjob.read hfiles hinput)
    · exact ht.1
    · rw [hsame]
      exact hjob.window
  obtain ⟨w', haround', -, hw', hcontents', hcompletes, hends⟩ := exists_inUse_run
    (keeps_isUndisturbed job) hw job hjob.tokenizer twinInputs haround hread
    ((Set.injOn_singleton contentHash twinBytes).mono hunion) (.inr hnumbers)
  obtain ⟨result, hresult⟩ := hends followsDialect_tokenizeAs hjob.whole
  exact ⟨w', haround', hw', hcontents'.trans hunion, result, hresult, hcompletes result hresult⟩

/-- Both scans complete on a store in use, one with the files before the clear and one with the
files after it. -/
theorem ReadsTwins.exists_completes (hjob : job.ReadsTwins)
    (hempty : ∀ key r, ¬ StoreKind.Holds (.disk job.config.cachePath)
      (twinAround DiskState.opened) key r) :
    ∃ (w w' : World (.disk job.config.cachePath)) (before after : ScanResult),
      w.InUse tokenizeAs ∧ w'.InUse tokenizeAs ∧ (scanBefore job).1 = .ok before ∧
      (scanAfter job).1 = .ok after ∧ job.Completes (scanBefore job).2.files w twinInputs before ∧
      job.Completes (afterClear job).files w' twinInputs after := by
  have hkeeps := keeps_isUndisturbed job
  have hstart : job.IsUndisturbed twinFiles (.finite 1) := ⟨rfl, fun _ _ _ hread => hread⟩
  have hbetween : job.IsUndisturbed (scanBefore job).2.files (scanBefore job).2.now := by
    obtain ⟨_, _, _, -, hafter, -⟩ :=
      run_reachable hkeeps job twinInputs (twinAround .opened) hstart []
    exact hafter
  have hnone : World.contents (⟨twinAround .opened, []⟩ : World (.disk job.config.cachePath)) ⊆
      {twinBytes} := by
    simp [World.contents, World.readings]
  obtain ⟨w, haround, hw, hcontents, before, hbefore, hcompletes⟩ :=
    hjob.exists_inUse (World.inUse_new tokenizeAs hempty) hnone hstart hbetween
  obtain ⟨notes, hclear⟩ : ∃ notes, afterClear job =
      { (((diskStore job.config.cachePath).clear).exec (scanBefore job).2).2 with notes } :=
    exists_notes_clearCache _ _ _
  have hcleared : job.IsUndisturbed (afterClear job).files (afterClear job).now := by
    rw [hclear]
    exact hkeeps.upkeep .clear (scanBefore job).2 hbetween
  have hreach : ReflTransGen Step w ⟨afterClear job, w.visits⟩ := by
    obtain ⟨around, visits⟩ := w
    obtain rfl : around = (scanBefore job).2 := haround
    rw [hclear]
    exact .head (.upkeep visits .clear .whole) (.single (Step.note _ visits notes))
  obtain ⟨w', -, hw', -, after, hafter, hcompletes'⟩ :=
    hjob.exists_inUse (hw.after hreach rfl) hcontents hcleared hcleared
  exact ⟨w, w', before, after, hw, hw', hbefore, hafter, hcompletes, hcompletes'⟩

end

/-- Settings that ask for blocks of two tokens on one line. -/
def clearingSource : Text :=
  Text.ofString "duplicates:\n  min_duplicate_lines: 1\n  min_duplicate_tokens: 2\n"

/-- What the settings come to when the environment names a cache directory. -/
def clearingLoad (directory : Text) : Except ConfigFault Config :=
  Config.load { cacheDirectory := some directory } (Text.ofString "/") clearingSource []

def clearingJob (directory : Text) : ScanJob :=
  { twinJob 2 with config := (clearingLoad directory).toOption.getD (twinJob 2).config }

theorem load_clearingJob {directory : Text} (h : (clearingLoad directory).toOption.isSome = true) :
    clearingLoad directory = .ok (clearingJob directory).config := by
  unfold clearingJob
  cases hload : clearingLoad directory with
  | error fault =>
      rw [hload] at h
      cases h
  | ok config => rfl

theorem readsTwins_ownDirectory :
    (clearingLoad (Text.ofString "c")).toOption.isSome = true ∧
      (clearingJob (Text.ofString "c")).config.cachePath = [Text.ofString "c"] ∧
      (clearingJob (Text.ofString "c")).ReadsTwins := by
  have hfacts : (clearingLoad (Text.ofString "c")).toOption.isSome = true ∧
      (clearingJob (Text.ofString "c")).config.cachePath = [Text.ofString "c"] ∧
      ((clearingJob (Text.ofString "c")).config.thresholds .python).tokens < 2 ^ 53 ∧
      (clearingJob (Text.ofString "c")).included twinInputs = twinInputs ∧
      (∀ input ∈ twinInputs, ¬ (clearingJob (Text.ofString "c")).config.cachePath <+:
        (clearingJob (Text.ofString "c")).pathOf input) ∧
      ∀ input ∈ twinInputs, (twinFiles.read ((clearingJob (Text.ofString "c")).pathOf
        input)).toOption = some twinBytes := by
    decide +kernel
  obtain ⟨hload, hpath, hwindow, hincluded, houtside, htwins⟩ := hfacts
  exact ⟨hload, hpath, rfl, rfl, hwindow, hincluded, houtside, htwins⟩

theorem reports_after_clearing_ownDirectory :
    ∃ before after, (scanBefore (clearingJob (Text.ofString "c"))).1 = .ok before ∧
      (scanAfter (clearingJob (Text.ofString "c"))).1 = .ok after ∧
      (∀ path bytes,
        (scanBefore (clearingJob (Text.ofString "c"))).2.files.read path = .ok bytes →
        ((afterClear (clearingJob (Text.ofString "c"))).files.read path = .ok bytes ↔
          ¬ [Text.ofString "c"] <+: path)) ∧
      after.violations = before.violations ∧ after.warnings = before.warnings := by
  -- said of any such scan, so that nothing is evaluated
  have hreports : ∀ (job : ScanJob) (directory : Text), clearingLoad directory = .ok job.config →
      job.ReadsTwins → (∀ key r, ¬ StoreKind.Holds (.disk job.config.cachePath)
        (twinAround DiskState.opened) key r) →
      ∃ before after, (scanBefore job).1 = .ok before ∧ (scanAfter job).1 = .ok after ∧
        (∀ path bytes, (scanBefore job).2.files.read path = .ok bytes →
          ((afterClear job).files.read path = .ok bytes ↔ ¬ job.config.cachePath <+: path)) ∧
        after.violations = before.violations ∧ after.warnings = before.warnings := by
    intro job directory hload hjob hempty
    obtain ⟨w, w', before, after, hw, hw', hbefore, hafter, hcompletes, hcompletes'⟩ :=
      hjob.exists_completes hempty
    obtain ⟨-, hfiles, hsame, -⟩ := reports_after_clearing hload (scanBefore job).2 rfl
      followsDialect_tokenizeAs hw hw' rfl hcompletes hcompletes'
    refine ⟨before, after, hbefore, hafter, hfiles, hsame ?_⟩
    intro input hinput
    rw [hjob.included] at hinput
    exact hjob.outside input hinput
  obtain ⟨hload, hpath, hjob⟩ := readsTwins_ownDirectory
  have hempty : ∀ key r, ¬ StoreKind.Holds (.disk [Text.ofString "c"])
      (twinAround DiskState.opened) key r := by
    rintro key r ⟨bytes, ⟨time, hfile⟩, -⟩
    simp [FileTree.entry?, twinAround, twinFiles, DiskStore.entriesPath] at hfile
  rw [← hpath] at hempty ⊢
  exact hreports _ _ (load_clearingJob hload) hjob hempty

/-- A configuration that names the root as its cache directory is accepted, and clearing the cache
removes the files of the scan with it. -/
theorem clearing_removes_scanned_files :
    ∃ config, clearingLoad [] = .ok config ∧ config.backend {} = .ok .disk ∧
      (∀ input ∈ twinInputs, (clearingJob []).pathOf input ≠ DiskStore.indexPath config.cachePath ∧
        ¬ DiskStore.entriesPath config.cachePath <+: (clearingJob []).pathOf input) ∧
      ∃ before after, (scanBefore (clearingJob [])).1 = .ok before ∧
        (scanAfter (clearingJob [])).1 = .ok after ∧
        before.warnings.length = 0 ∧ after.warnings.length = 2 := by
  have hfacts : (clearingLoad []).toOption.isSome = true ∧
      ((clearingJob []).config.backend {}).toOption = some .disk ∧
      (∀ input ∈ twinInputs,
        (clearingJob []).pathOf input ≠ DiskStore.indexPath (clearingJob []).config.cachePath ∧
        ¬ DiskStore.entriesPath (clearingJob []).config.cachePath <+:
          (clearingJob []).pathOf input) ∧
      ((scanBefore (clearingJob [])).1.toOption.any fun before =>
        (scanAfter (clearingJob [])).1.toOption.any fun after =>
          before.warnings.length == 0 && after.warnings.length == 2) = true := by
    decide +kernel
  obtain ⟨hload, hbackend, hinputs, hscans⟩ := hfacts
  refine ⟨(clearingJob []).config, load_clearingJob hload, ?_, hinputs, ?_⟩
  · cases h : (clearingJob []).config.backend {} with
    | error fault =>
        rw [h] at hbackend
        cases hbackend
    | ok backend =>
        rw [h] at hbackend
        rw [Option.some.inj hbackend]
  · obtain ⟨before, hbefore, hscans⟩ := exists_of_any_toOption hscans
    obtain ⟨after, hafter, hcounts⟩ := exists_of_any_toOption hscans
    simp only [Bool.and_eq_true, beq_iff_eq] at hcounts
    exact ⟨before, after, hbefore, hafter, hcounts⟩

end ScanJob

end CloneScan
