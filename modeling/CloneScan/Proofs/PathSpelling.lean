import CloneScan.Proofs.ClusterContainment
import CloneScan.Proofs.ScanReports

/-!
# Spellings of a path

A file can be named by many paths, and a scan takes the paths that it is given as they are: it drops
a path that it was given before, and it matches globs with a relative path as it is spelled.  Paths
that are spelled as the root sees them are one for each file, and with those every file is read at
most once and is ignored by its absolute path.
-/

namespace CloneScan

namespace Path

/-! ## Segments -/

theorem splitBy_ne_nil (sep : UInt16 → Bool) (p : Text) : p.splitBy sep ≠ [] := by
  cases p with
  | nil => simp [Text.splitBy]
  | cons u rest =>
      simp only [Text.splitBy]
      split
      · simp
      · split <;> simp

/-- A separator parts what stands before it from what stands after it. -/
theorem splitBy_append_slash (p q : Text) :
    (p ++ slash :: q).splitBy (· == slash) = p.splitBy (· == slash) ++ q.splitBy (· == slash) := by
  induction p with
  | nil => simp [Text.splitBy]
  | cons u p ih =>
      rw [List.cons_append, Text.splitBy, ih, Text.splitBy]
      by_cases hu : (u == slash) = true
      · simp [hu]
      · rw [if_neg hu, if_neg hu]
        obtain ⟨piece, more, hpieces⟩ :=
          List.exists_cons_of_ne_nil (splitBy_ne_nil (· == slash) p)
        simp [hpieces]

theorem slash_notMem_of_mem_splitBy {p s : Text} (h : s ∈ p.splitBy (· == slash)) : slash ∉ s := by
  induction p generalizing s with
  | nil =>
      obtain rfl : s = [] := by simpa [Text.splitBy] using h
      simp
  | cons u p ih =>
      obtain ⟨piece, more, hpieces⟩ := List.exists_cons_of_ne_nil (splitBy_ne_nil (· == slash) p)
      rw [Text.splitBy] at h
      by_cases hu : (u == slash) = true
      · rw [if_pos hu] at h
        rcases List.mem_cons.mp h with rfl | h
        · simp
        · exact ih h
      · rw [if_neg hu, hpieces] at h
        rcases List.mem_cons.mp h with rfl | h
        · have hpiece := ih (s := piece) (by simp [hpieces])
          have hne : ¬ u = slash := by simpa using hu
          simp [hpiece, Ne.symm hne]
        · exact ih (by simp [hpieces, h])

theorem splitBy_of_notMem {s : Text} (h : slash ∉ s) : s.splitBy (· == slash) = [s] := by
  induction s with
  | nil => rfl
  | cons u s ih =>
      obtain ⟨hu, hs⟩ := not_or.mp (mt List.mem_cons.mpr h)
      have hne : ¬ (u == slash) = true := by simpa using Ne.symm hu
      rw [Text.splitBy, if_neg hne, ih hs]

theorem segments_append_slash (p q : Text) :
    segments (p ++ slash :: q) = segments p ++ segments q := by
  rw [segments, splitBy_append_slash, List.filter_append]
  rfl

/-- A name of a file or a directory, as it stands in a path without detours. -/
structure IsSegment (s : Text) : Prop where
  nonempty : s ≠ []
  noSlash : slash ∉ s
  notHere : s ≠ here
  notAbove : s ≠ above

theorem segments_of_notMem {s : Text} (hne : s ≠ []) (h : slash ∉ s) : segments s = [s] := by
  simp [segments, splitBy_of_notMem h, hne]

theorem segments_join {segs : List Text} (h : ∀ s ∈ segs, s ≠ [] ∧ slash ∉ s) :
    segments (Text.join [slash] segs) = segs := by
  induction segs with
  | nil => rfl
  | cons s rest ih =>
      obtain ⟨hne, hslash⟩ := h s List.mem_cons_self
      have hrest := ih fun t ht => h t (List.mem_cons_of_mem s ht)
      cases rest with
      | nil => exact segments_of_notMem hne hslash
      | cons t rest =>
          have hjoin : Text.join [slash] (s :: t :: rest) =
              s ++ slash :: Text.join [slash] (t :: rest) := by
            simp [Text.join]
          rw [hjoin, segments_append_slash, segments_of_notMem hne hslash, hrest]
          rfl

theorem head?_join {segs : List Text} (h : ∀ s ∈ segs, s ≠ [] ∧ slash ∉ s) :
    (Text.join [slash] segs).head? ≠ some slash := by
  cases segs with
  | nil => simp [Text.join]
  | cons s rest =>
      obtain ⟨hne, hslash⟩ := h s List.mem_cons_self
      obtain ⟨u, s, rfl⟩ := List.exists_cons_of_ne_nil hne
      have hu : u ≠ slash := fun heq => hslash (heq ▸ List.mem_cons_self)
      cases rest with
      | nil => simpa [Text.join] using hu
      | cons t rest => simpa [Text.join] using hu

/-! ## Normal paths -/

theorem isSegment_of_mem_foldl {segs stack : List Text} (hsegs : ∀ s ∈ segs, s ≠ [] ∧ slash ∉ s)
    (hstack : ∀ s ∈ stack, IsSegment s) : ∀ s ∈ segs.foldl enter stack, IsSegment s := by
  induction segs generalizing stack with
  | nil => exact hstack
  | cons s segs ih =>
      apply ih fun t ht => hsegs t (List.mem_cons_of_mem s ht)
      intro t ht
      unfold enter at ht
      split at ht
      case isTrue => exact hstack t ht
      case isFalse hhere =>
          split at ht
          case isTrue => exact hstack t (List.mem_of_mem_drop ht)
          case isFalse habove =>
              rcases List.mem_cons.mp ht with rfl | ht
              · obtain ⟨hne, hslash⟩ := hsegs t List.mem_cons_self
                exact ⟨hne, hslash, by simpa using hhere, by simpa using habove⟩
              · exact hstack t ht

theorem isSegment_of_mem {p s : Text} (h : s ∈ normalSegments p) : IsSegment s := by
  apply isSegment_of_mem_foldl ?_ (by simp) s (List.mem_reverse.mp h)
  intro t ht
  obtain ⟨hsplit, hne⟩ := List.mem_filter.mp ht
  exact ⟨by simpa using hne, slash_notMem_of_mem_splitBy hsplit⟩

theorem foldl_enter {segs : List Text} (h : ∀ s ∈ segs, IsSegment s) (stack : List Text) :
    segs.foldl enter stack = segs.reverse ++ stack := by
  induction segs generalizing stack with
  | nil => rfl
  | cons s segs ih =>
      have hs := h s List.mem_cons_self
      have henter : enter stack s = s :: stack := by
        simp [enter, hs.notHere, hs.notAbove]
      rw [List.foldl_cons, henter, ih fun t ht => h t (List.mem_cons_of_mem s ht)]
      simp

theorem normalSegments_append (p : Text) {segs : List Text} (h : ∀ s ∈ segs, IsSegment s) :
    normalSegments (p ++ slash :: Text.join [slash] segs) = normalSegments p ++ segs := by
  have hparts : ∀ s ∈ segs, s ≠ [] ∧ slash ∉ s := fun s hs => ⟨(h s hs).nonempty, (h s hs).noSlash⟩
  rw [normalSegments, segments_append_slash, segments_join hparts, List.foldl_append,
    foldl_enter h]
  simp [normalSegments]

theorem normalSegments_ofSegments {segs : List Text} (h : ∀ s ∈ segs, IsSegment s) :
    normalSegments (ofSegments segs) = segs :=
  normalSegments_append [] h

/-- A path is resolved to the normal path of its segments. -/
theorem resolve_eq (directory p : Text) : resolve directory p = ofSegments (normalSegments
    (if isAbsolute p then p else directory ++ slash :: p)) := by
  unfold resolve
  split <;> rfl

theorem isAbsolute_resolve (directory p : Text) : isAbsolute (resolve directory p) = true := by
  rw [resolve_eq]
  simp [isAbsolute, ofSegments]

theorem normalSegments_resolve (directory p : Text) : normalSegments (resolve directory p) =
    normalSegments (if isAbsolute p then p else directory ++ slash :: p) := by
  rw [resolve_eq]
  exact normalSegments_ofSegments fun s hs => isSegment_of_mem hs

/-! ## Paths as a directory sees them -/

/-- A path that is spelled as it is seen from a directory. -/
def IsPlain (directory p : Text) : Prop :=
  relative directory (resolve directory p) = p

instance (directory p : Text) : Decidable (IsPlain directory p) :=
  inferInstanceAs (Decidable (_ = _))

theorem mem_dropCommon {as bs : List Text} {s : Text} (h : s ∈ (dropCommon as bs).2) : s ∈ bs := by
  fun_induction dropCommon as bs with
  | case1 a as b bs heq ih => exact List.mem_cons_of_mem b (ih h)
  | case2 => exact h
  | case3 => exact h

theorem dropCommon_append (as bs : List Text) : dropCommon as (as ++ bs) = ([], bs) := by
  induction as with
  | nil => cases bs <;> rfl
  | cons a as ih => simpa [dropCommon] using ih

/-- The way to a path is a relative path. -/
theorem not_isAbsolute_relative (directory p : Text) :
    isAbsolute (relative directory p) = false := by
  have hparts : ∀ s ∈ (dropCommon (normalSegments directory) (normalSegments p)).1.map
      (fun _ => above) ++ (dropCommon (normalSegments directory) (normalSegments p)).2,
      s ≠ [] ∧ slash ∉ s := by
    intro s hs
    rcases List.mem_append.mp hs with hs | hs
    · obtain ⟨-, -, rfl⟩ := List.mem_map.mp hs
      decide
    · have hsegment := isSegment_of_mem (mem_dropCommon hs)
      exact ⟨hsegment.nonempty, hsegment.noSlash⟩
  simpa [isAbsolute, relative] using head?_join hparts

theorem IsPlain.not_isAbsolute {directory p : Text} (h : IsPlain directory p) :
    isAbsolute p = false :=
  h ▸ not_isAbsolute_relative directory _

/-- There is one plain spelling for each file. -/
theorem IsPlain.eq {directory p q : Text} (hp : IsPlain directory p) (hq : IsPlain directory q)
    (h : resolve directory p = resolve directory q) : p = q := by
  rw [← hp, h, hq]

/-- Names with separators between them are a plain path. -/
theorem isPlain_join (directory : Text) {segs : List Text} (h : ∀ s ∈ segs, IsSegment s) :
    IsPlain directory (Text.join [slash] segs) := by
  have hparts : ∀ s ∈ segs, s ≠ [] ∧ slash ∉ s := fun s hs => ⟨(h s hs).nonempty, (h s hs).noSlash⟩
  have hrelative : ¬ isAbsolute (Text.join [slash] segs) = true := by
    simpa [isAbsolute] using head?_join hparts
  rw [IsPlain, relative, normalSegments_resolve, if_neg hrelative, normalSegments_append _ h,
    dropCommon_append]
  rfl

end Path

/-! ## What is ignored -/

/-- A file is ignored by its absolute path when it is named by an absolute path or plainly. -/
theorem Config.isIgnoredWith_resolve (c : Config) (isMatch : Text → Text → Bool) {p : Text}
    (h : Path.isAbsolute p = true ∨ Path.IsPlain c.root p) :
    c.isIgnoredWith isMatch (Path.resolve c.root p) = c.isIgnoredWith isMatch p := by
  have hsame : c.globPath (Path.resolve c.root p) = c.globPath p := by
    rw [globPath, globPath, if_pos (Path.isAbsolute_resolve c.root p)]
    rcases h with habsolute | hplain
    · rw [if_pos habsolute, Path.relative, Path.relative, Path.normalSegments_resolve,
        if_pos habsolute]
    · rw [hplain.not_isAbsolute, if_neg Bool.false_ne_true, hplain]
  rw [isIgnoredWith, isIgnoredWith, hsame]

theorem exists_mem_uniqueInputs {inputs : List ScanInput} {input : ScanInput}
    (h : input ∈ inputs) : ∃ kept ∈ uniqueInputs inputs, kept.path = input.path := by
  have hpaths : ∀ (rest kept : List ScanInput), input.path ∈ kept.map ScanInput.path ∨
      input ∈ rest → input.path ∈ (rest.foldl keepInput kept).map ScanInput.path := by
    intro rest
    induction rest with
    | nil => simp
    | cons next rest ih =>
        intro kept hmem
        apply ih
        rw [map_path_keepInput]
        rcases hmem with hkept | hmem
        · left
          split
          · exact hkept
          · exact List.mem_append_left _ hkept
        · rcases List.mem_cons.mp hmem with rfl | hmem
          · left
            split
            · assumption
            · simp
          · exact .inr hmem
  exact List.mem_map.mp (hpaths inputs [] (.inr h))

namespace ScanJob

theorem mem_path_included {job : ScanJob} {inputs : List ScanInput} {p : Text} :
    p ∈ (job.included inputs).map ScanInput.path ↔
      (∃ input ∈ inputs, input.path = p) ∧ job.isIgnored p = false := by
  constructor
  · intro h
    obtain ⟨input, hinput, rfl⟩ := List.mem_map.mp h
    obtain ⟨hunique, hkept⟩ := List.mem_filter.mp hinput
    exact ⟨⟨input, mem_of_mem_uniqueInputs hunique, rfl⟩, by simpa using hkept⟩
  · rintro ⟨⟨input, hinput, rfl⟩, hkept⟩
    obtain ⟨kept, hunique, hpath⟩ := exists_mem_uniqueInputs hinput
    refine List.mem_map.mpr ⟨kept, List.mem_filter.mpr ⟨hunique, ?_⟩, hpath⟩
    simpa [hpath] using hkept

theorem isIgnored_resolve (job : ScanJob) {p : Text}
    (h : Path.isAbsolute p = true ∨ Path.IsPlain job.config.root p) :
    job.isIgnored (Path.resolve job.config.root p) = job.isIgnored p :=
  job.config.isIgnoredWith_resolve job.isMatch h

/-- The files that a scan reads, by their absolute paths. -/
def filesRead (job : ScanJob) (inputs : List ScanInput) : List Text :=
  (job.included inputs).map fun input => Path.resolve job.config.root input.path

/-- A file is read twice exactly when two spellings of it are given and not ignored. -/
theorem nodup_filesRead_iff (job : ScanJob) (inputs : List ScanInput) :
    (job.filesRead inputs).Nodup ↔ ∀ a ∈ inputs, ∀ b ∈ inputs,
      job.isIgnored a.path = false → job.isIgnored b.path = false →
      Path.resolve job.config.root a.path = Path.resolve job.config.root b.path →
      a.path = b.path := by
  have hpaths : job.filesRead inputs =
      ((job.included inputs).map ScanInput.path).map (Path.resolve job.config.root) := by
    rw [List.map_map]
    rfl
  rw [hpaths, List.nodup_map_iff_inj_on (job.nodup_path_included inputs)]
  constructor
  · intro h a ha b hb hkeptA hkeptB hsame
    exact h _ (mem_path_included.mpr ⟨⟨a, ha, rfl⟩, hkeptA⟩) _
      (mem_path_included.mpr ⟨⟨b, hb, rfl⟩, hkeptB⟩) hsame
  · intro h p hp q hq hsame
    obtain ⟨⟨a, ha, rfl⟩, hkeptA⟩ := mem_path_included.mp hp
    obtain ⟨⟨b, hb, rfl⟩, hkeptB⟩ := mem_path_included.mp hq
    exact h a ha b hb hkeptA hkeptB hsame

/-- With plain spellings a file is read when its absolute path is given and not ignored. -/
theorem mem_filesRead_of_isPlain {job : ScanJob} {inputs : List ScanInput}
    (hplain : ∀ input ∈ inputs, Path.IsPlain job.config.root input.path) {p : Text} :
    p ∈ job.filesRead inputs ↔
      (∃ input ∈ inputs, Path.resolve job.config.root input.path = p) ∧
        job.isIgnored p = false := by
  have hread : p ∈ job.filesRead inputs ↔ ∃ q ∈ (job.included inputs).map ScanInput.path,
      Path.resolve job.config.root q = p := by
    simp [filesRead]
  rw [hread]
  constructor
  · rintro ⟨q, hq, rfl⟩
    obtain ⟨⟨input, hinput, rfl⟩, hkept⟩ := mem_path_included.mp hq
    refine ⟨⟨input, hinput, rfl⟩, ?_⟩
    rw [job.isIgnored_resolve (.inr (hplain input hinput))]
    exact hkept
  · rintro ⟨⟨input, hinput, rfl⟩, hkept⟩
    rw [job.isIgnored_resolve (.inr (hplain input hinput))] at hkept
    exact ⟨input.path, mem_path_included.mpr ⟨⟨input, hinput, rfl⟩, hkept⟩, rfl⟩

end ScanJob

/-! ## Blocks in files that are read once -/

namespace Detect

variable {files group : List AnalyzedFile} {config : Config}

/-- The copies of a block in one file share no token. -/
theorem occurrences_disjoint {suppressed : SuppressedRanges} {language : Language}
    (hpaths : (group.map (·.path)).Nodup)
    (hhashes : ∀ f ∈ group, f.hashes.length =
      f.tokens.length + 1 - (config.thresholds language).tokens)
    {c : Cluster} (hc : c ∈ clusters config suppressed language group) :
    c.occurrences.Pairwise fun o o' => o.location.file = o'.location.file →
      o.endToken < o'.startToken ∨ o'.endToken < o.startToken := by
  have hpos := tokens_pos_of_mem_clusters hc
  obtain ⟨b, hb, rfl⟩ := Cluster.mem_findClusters.mp hc
  obtain ⟨hdup, hlength, -⟩ :=
    Clone.findBlocks_sound (hasWindowHashes_indexed hhashes _) hpos hb
  have hrepeats := Cluster.repeats_of_isDuplicate hdup (by omega)
  have hindexed : ((group.map (indexed config.duplicates.normalize)).map (·.path)).Nodup := by
    rw [List.map_map]
    exact hpaths
  have hfile : ∀ m ∈ b.members,
      m.file < (group.map (indexed config.duplicates.normalize)).length := by
    intro m hm
    obtain ⟨f, hf, -⟩ := hrepeats.inBounds m hm
    exact (List.getElem?_eq_some_iff.mp hf).1
  refine List.pairwise_map.mpr (hrepeats.disjoint.imp_of_mem ?_)
  intro m n hm hn hdisjoint hsame
  exact hdisjoint (Cluster.file_eq_of_locate hindexed (hfile m hm) (hfile n hn) hsame)

/-- The locations of a reported block are those of copies in the files that share no token. -/
theorem exists_occurrences {suppressed : List Location} {filters : FilterRegistry}
    (hpaths : (files.map (·.path)).Nodup)
    (hhashes : ∀ f ∈ files, 0 < (config.thresholds f.language).tokens →
      f.hashes.length = f.tokens.length + 1 - (config.thresholds f.language).tokens)
    {v : Violation} (hv : v ∈ fromBlocks files config suppressed filters) :
    ∃ occurrences : List Occurrence, v.locations.Perm (occurrences.map (·.location)) ∧
      (∀ o ∈ occurrences, ∃ f ∈ files, o.location.file = f.path) ∧
      occurrences.Pairwise fun o o' => o.location.file = o'.location.file →
        o.endToken < o'.startToken ∨ o'.endToken < o.startToken := by
  rw [fromBlocks] at hv
  split at hv
  case isFalse => simp at hv
  case isTrue =>
      obtain ⟨first, more, hgroup, c, hc, -, rfl⟩ := mem_blockViolations hv
      obtain ⟨a, -, hclass⟩ := (languageGroups_areClasses files).isClass _ hgroup
      have hfirst : first.language = a.language :=
        (Clone.mem_classIn.mp (hclass ▸ List.mem_cons_self)).2
      have hmember : ∀ f ∈ first :: more, f ∈ files ∧ f.language = first.language := by
        intro f hf
        obtain ⟨hmem, hlanguage⟩ := Clone.mem_classIn.mp (hclass ▸ hf)
        exact ⟨hmem, hlanguage.trans hfirst.symm⟩
      have hgroupPaths : ((first :: more).map (·.path)).Nodup := by
        rw [hclass]
        exact hpaths.sublist (List.filter_sublist.map _)
      have hgroupHashes : ∀ f ∈ first :: more, f.hashes.length =
          f.tokens.length + 1 - (config.thresholds first.language).tokens := by
        intro f hf
        obtain ⟨hmem, hlanguage⟩ := hmember f hf
        rw [← hlanguage]
        exact hhashes f hmem (hlanguage ▸ tokens_pos_of_mem_clusters hc)
      refine ⟨(c.withoutSuppressed (.ofList suppressed)).occurrences, ?_, ?_, ?_⟩
      · rw [locations_buildViolation]
        exact List.mergeSort_perm _ _
      · intro o ho
        obtain ⟨f, hf, hfile, -⟩ :=
          exists_file_of_occurrence hgroupHashes hc (List.mem_of_mem_filter ho)
        exact ⟨f, (hmember f hf).1, hfile⟩
      · exact (occurrences_disjoint hgroupPaths hgroupHashes hc).sublist List.filter_sublist

end Detect

namespace ScanJob

/-- The files that take part in a detection when nothing is stored. -/
def analyzed (job : ScanJob) (files : FileTree) (inputs : List ScanInput) : List AnalyzedFile :=
  (inputs.map (job.uncached files)).filterMap FileOutcome.file?

theorem file?_uncached {job : ScanJob} {files : FileTree} {input : ScanInput} {f : AnalyzedFile}
    (h : (job.uncached files input).file? = some f) : f.path = input.path ∧
      f.hashes = FileTask.hashesOf ⟨f.language, (f.language.dialect (some input.path)).name,
        (job.config.thresholds f.language).tokens, job.config.duplicates.normalize⟩ f.tokens := by
  unfold uncached FileTask.start at h
  cases hlanguage : Language.ofTag? input.language with
  | none => simp [hlanguage, FileTask.skip, FileTask.uncached, FileOutcome.file?] at h
  | some language =>
      cases hread : files.read (job.pathOf input) with
      | error fault =>
          simp [hlanguage, hread, FileTask.skip, FileTask.uncached, FileOutcome.file?] at h
      | ok bytes =>
          simp only [hlanguage, hread, FileTask.uncached, FileTask.resume, FileTask.compute,
            FileTask.subject] at h
          cases htokens : job.tokenizer (Text.ofUtf8 bytes) language input.path with
          | error failure =>
              simp [htokens, FileTask.skip, FileTask.uncached, FileOutcome.file?] at h
          | ok tokens =>
              rw [htokens] at h
              obtain rfl := Option.some.inj h
              exact ⟨rfl, rfl⟩

theorem mem_analyzed {job : ScanJob} {files : FileTree} {inputs : List ScanInput}
    {f : AnalyzedFile} (h : f ∈ job.analyzed files inputs) :
    ∃ input ∈ inputs, (job.uncached files input).file? = some f := by
  obtain ⟨o, ho, hf⟩ := List.mem_filterMap.mp h
  obtain ⟨input, hinput, rfl⟩ := List.mem_map.mp ho
  exact ⟨input, hinput, hf⟩

theorem path_analyzed_sublist (job : ScanJob) (files : FileTree) (inputs : List ScanInput) :
    ((job.analyzed files inputs).map (·.path)).Sublist (inputs.map ScanInput.path) := by
  induction inputs with
  | nil => exact .slnil
  | cons input rest ih =>
      unfold analyzed
      cases h : (job.uncached files input).file? with
      | none =>
          rw [List.map_cons, List.filterMap_cons_none h, List.map_cons]
          exact ih.cons _
      | some f =>
          rw [List.map_cons, List.filterMap_cons_some h, List.map_cons, List.map_cons,
            (file?_uncached h).1]
          exact ih.cons_cons _

/-- The violations of duplicated blocks among files when nothing is stored. -/
def blockFindings (job : ScanJob) (files : FileTree) (inputs : List ScanInput) : List Violation :=
  Detect.fromBlocks (job.analyzed files inputs) job.config
    (job.suppressed ++ (inputs.map (job.uncached files)).flatMap FileOutcome.suppressed)
    (job.filters.getD (Detect.filtersOf job.config))

/-- The violations of duplicated constants among files when nothing is stored. -/
def constantFindings (job : ScanJob) (files : FileTree) (inputs : List ScanInput) :
    List Violation :=
  Detect.fromConstants (job.analyzed files inputs) job.config
    (job.suppressed ++ (inputs.map (job.uncached files)).flatMap FileOutcome.suppressed)

theorem findings_perm (job : ScanJob) (files : FileTree) (inputs : List ScanInput) :
    (job.findings files inputs).Perm
      (job.blockFindings files inputs ++ job.constantFindings files inputs) := by
  have hdetect : job.findings files inputs =
      sortViolations (job.blockFindings files inputs ++ job.constantFindings files inputs) :=
    Detect.detectWith_eq _ _ _ _
  rw [hdetect]
  exact sortViolations_perm _

/-- No file is listed twice for the same tokens when each is read once. -/
theorem exists_occurrences_of_nodup {job : ScanJob} {files : FileTree} {inputs : List ScanInput}
    (hnodup : (job.filesRead inputs).Nodup) {v : Violation}
    (hv : v ∈ job.blockFindings files (job.included inputs)) :
    ∃ occurrences : List Occurrence, v.locations.Perm (occurrences.map (·.location)) ∧
      occurrences.Pairwise fun o o' =>
        Path.resolve job.config.root o.location.file =
          Path.resolve job.config.root o'.location.file →
        o.endToken < o'.startToken ∨ o'.endToken < o.startToken := by
  have hpaths : ((job.analyzed files (job.included inputs)).map (·.path)).Nodup :=
    (job.nodup_path_included inputs).sublist (job.path_analyzed_sublist files _)
  have hhashes : ∀ f ∈ job.analyzed files (job.included inputs),
      0 < (job.config.thresholds f.language).tokens →
      f.hashes.length = f.tokens.length + 1 - (job.config.thresholds f.language).tokens := by
    intro f hf hpos
    obtain ⟨input, -, hfile⟩ := mem_analyzed hf
    rw [(file?_uncached hfile).2]
    simp [FileTask.hashesOf, windowHashes_length _ hpos, tokenKeys]
  obtain ⟨occurrences, hlocations, hfiles, hdisjoint⟩ :=
    Detect.exists_occurrences hpaths hhashes hv
  refine ⟨occurrences, hlocations, hdisjoint.imp_of_mem ?_⟩
  intro o o' ho ho' hpair hsame
  apply hpair
  -- the paths are those of inputs, and inputs that resolve alike are one input
  have hinput : ∀ o ∈ occurrences, ∃ input ∈ job.included inputs,
      o.location.file = input.path := by
    intro o ho
    obtain ⟨f, hf, hfile⟩ := hfiles o ho
    obtain ⟨input, hinput, huncached⟩ := mem_analyzed hf
    exact ⟨input, hinput, hfile.trans (file?_uncached huncached).1⟩
  obtain ⟨a, ha, hpathA⟩ := hinput o ho
  obtain ⟨b, hb, hpathB⟩ := hinput o' ho'
  rw [hpathA, hpathB] at hsame ⊢
  rw [List.inj_on_of_nodup_map hnodup ha hb hsame]

/-- **Plain spellings.**  A path that is absolute or plain is ignored exactly when the absolute path
of its file is.  A file is read twice exactly when two spellings of it are given and neither is
ignored; with plain spellings the files that are read are those whose absolute path is given and not
ignored, each once.  When no file is read twice, the copies that a block lists in one file share no
token. -/
theorem scan_of_spellings {k : StoreKind} {tokenizer : Tokenizer} {w : World k}
    (htokenizer : FollowsDialect tokenizer) (hw : w.InUse tokenizer) {job : ScanJob}
    {files : FileTree} {inputs : List ScanInput} {result : ScanResult}
    (hscan : job.Completes files w inputs result) :
    (∀ p, Path.isAbsolute p = true ∨ Path.IsPlain job.config.root p →
        job.isIgnored p = job.isIgnored (Path.resolve job.config.root p)) ∧
      ((job.filesRead inputs).Nodup ↔ ∀ a ∈ inputs, ∀ b ∈ inputs,
        job.isIgnored a.path = false → job.isIgnored b.path = false →
        Path.resolve job.config.root a.path = Path.resolve job.config.root b.path →
        a.path = b.path) ∧
      ((∀ input ∈ inputs, Path.IsPlain job.config.root input.path) →
        (job.filesRead inputs).Nodup ∧ ∀ p, p ∈ job.filesRead inputs ↔
          (∃ input ∈ inputs, Path.resolve job.config.root input.path = p) ∧
            job.isIgnored p = false) ∧
      result.violations.Perm (job.blockFindings files (job.included inputs) ++
        job.constantFindings files (job.included inputs)) ∧
      ((job.filesRead inputs).Nodup → ∀ v ∈ job.blockFindings files (job.included inputs),
        ∃ occurrences : List Occurrence, v.locations.Perm (occurrences.map (·.location)) ∧
          occurrences.Pairwise fun o o' =>
            Path.resolve job.config.root o.location.file =
              Path.resolve job.config.root o'.location.file →
            o.endToken < o'.startToken ∨ o'.endToken < o.startToken) := by
  refine ⟨fun p hp => (job.isIgnored_resolve hp).symm, job.nodup_filesRead_iff inputs, ?_,
    ?_, fun hnodup v hv => exists_occurrences_of_nodup hnodup hv⟩
  · intro hplain
    refine ⟨(job.nodup_filesRead_iff inputs).mpr ?_, fun p => mem_filesRead_of_isPlain hplain⟩
    intro a ha b hb _ _ hsame
    exact (hplain a ha).eq (hplain b hb) hsame
  · rw [hscan.violations htokenizer hw]
    exact job.findings_perm files _

/-! ### Twin files under several spellings -/

/-- A scan of the twin files that ignores a directory and filters nothing. -/
def spellingJob : ScanJob :=
  { unfilteredJob with
    config := { unfilteredJob.config with ignore := [Text.ofString "g/**"] } }

/-- A scan of twin files alone on an empty store in memory comes to its end. -/
theorem exists_completes_spelled {paths included : List String}
    (hincluded : spellingJob.included (spelled paths) = spelled included)
    (hread : ∀ input ∈ spelled included,
      (twinFiles.read (spellingJob.pathOf input)).toOption = some twinBytes) :
    ∃ (w : World .memory) (result : ScanResult), w.InUse tokenizeAs ∧
      (spellingJob.run memoryStore (spelled paths) (twinAround .empty)).1 = .ok result ∧
      spellingJob.Completes twinFiles w (spelled paths) result := by
  have hcontents : spellingJob.contents twinFiles (spelled paths) ⊆ {twinBytes} := by
    rintro bytes ⟨input, hinput, hbytes⟩
    have htwin := hread input (hincluded ▸ hinput)
    rw [hbytes] at htwin
    exact Option.some.inj htwin
  have hnew : World.InUse tokenizeAs (⟨twinAround .empty, []⟩ : World .memory) := by
    apply World.inUse_new
    rintro key r ⟨v, hv, -⟩
    cases hv
  have hdigests : Set.InjOn contentHash (World.contents (⟨twinAround .empty, []⟩ : World .memory) ∪
      spellingJob.contents twinFiles (spelled paths)) := by
    refine (Set.injOn_singleton contentHash twinBytes).mono (Set.union_subset ?_ hcontents)
    simp [World.contents, World.readings]
  obtain ⟨w, -, -, hw, -, hcompletes, hends⟩ := exists_inUse_run
    (StoreKind.keeps_memory fun t _ => t = twinFiles) hnew spellingJob rfl (spelled paths) rfl
    (by rintro t - rfl input -; rfl) hdigests (.inl rfl)
  obtain ⟨result, hresult⟩ := hends followsDialect_tokenizeAs rfl
  exact ⟨w, result, hw, hresult, hcompletes result hresult⟩

theorem scan_of_spellings_plain :
    ∃ result, (spellingJob.run memoryStore (spelled ["a.py", "b.py", "g/c.py"])
        (twinAround .empty)).1 = .ok result ∧
      result.violations.map (·.locations) =
        [[⟨Text.ofString "a.py", 1, 1⟩, ⟨Text.ofString "b.py", 1, 1⟩]] ∧
      (spellingJob.filesRead (spelled ["a.py", "b.py", "g/c.py"])).Nodup ∧
      (∀ p, p ∈ spellingJob.filesRead (spelled ["a.py", "b.py", "g/c.py"]) ↔
        (∃ input ∈ spelled ["a.py", "b.py", "g/c.py"],
          Path.resolve spellingJob.config.root input.path = p) ∧
          spellingJob.isIgnored p = false) ∧
      ∀ v ∈ spellingJob.blockFindings twinFiles (spelled ["a.py", "b.py"]),
        ∃ occurrences : List Occurrence, v.locations.Perm (occurrences.map (·.location)) ∧
          occurrences.Pairwise fun o o' =>
            Path.resolve spellingJob.config.root o.location.file =
              Path.resolve spellingJob.config.root o'.location.file →
            o.endToken < o'.startToken ∨ o'.endToken < o.startToken := by
  have hincluded : spellingJob.included (spelled ["a.py", "b.py", "g/c.py"]) =
      spelled ["a.py", "b.py"] := by
    decide +kernel
  have hplain : ∀ input ∈ spelled ["a.py", "b.py", "g/c.py"],
      Path.IsPlain spellingJob.config.root input.path := by
    decide +kernel
  obtain ⟨w, result, hw, hresult, hscan⟩ :=
    exists_completes_spelled hincluded (by decide +kernel)
  obtain ⟨-, -, hread, -, hblocks⟩ := scan_of_spellings followsDialect_tokenizeAs hw hscan
  obtain ⟨hnodup, hmem⟩ := hread hplain
  rw [hincluded] at hblocks
  refine ⟨result, hresult, ?_, hnodup, hmem, hblocks hnodup⟩
  rw [hscan.violations followsDialect_tokenizeAs hw, hincluded,
    findings_spelled rfl (by decide +kernel)]
  cbv

/-- A file that is named plainly and with a detour is read twice and reported as a copy of itself,
and a detour keeps a file from being ignored. -/
theorem scan_of_two_spellings :
    spellingJob.filesRead (spelled ["a.py", "./a.py"]) =
        [Text.ofString "/a.py", Text.ofString "/a.py"] ∧
      (∃ result, (spellingJob.run memoryStore (spelled ["a.py", "./a.py"])
          (twinAround .empty)).1 = .ok result ∧
        result.violations.map (·.locations) =
          [[⟨Text.ofString "./a.py", 1, 1⟩, ⟨Text.ofString "a.py", 1, 1⟩]]) ∧
      spellingJob.isIgnored (Text.ofString "./g/c.py") = false ∧
      spellingJob.isIgnored
        (Path.resolve spellingJob.config.root (Text.ofString "./g/c.py")) = true := by
  have hincluded : spellingJob.included (spelled ["a.py", "./a.py"]) =
      spelled ["a.py", "./a.py"] := by
    decide +kernel
  obtain ⟨w, result, hw, hresult, hscan⟩ :=
    exists_completes_spelled hincluded (by decide +kernel)
  refine ⟨by decide +kernel, ⟨result, hresult, ?_⟩, by decide +kernel, by decide +kernel⟩
  rw [hscan.violations followsDialect_tokenizeAs hw, hincluded,
    findings_spelled rfl (by decide +kernel)]
  cbv

end ScanJob

end CloneScan
