import CloneScan.Detect
import CloneScan.Proofs.ConstantGroups

/-!
# The violations of a detection

A violation of a duplicated block describes a cluster of the files of one language without its
suppressed occurrences, and it is only built when the thresholds of that language are met.
Violations of constants come from definitions that are not suppressed.  Both kinds stand together in
the order of a report.
-/

namespace CloneScan

/-! ## Suppressed ranges -/

/-- Two locations have a line of one file in common. -/
def Location.SharesLine (a b : Location) : Prop :=
  a.file = b.file ∧ ∃ line : Int, (a.startLine ≤ line ∧ line ≤ a.endLine) ∧
    (b.startLine ≤ line ∧ line ≤ b.endLine)

theorem not_sharesLine_of_not_suppressed {span : Location} {ranges : List Location}
    (h : isSpanSuppressed span ranges = false) {r : Location} (hr : r ∈ ranges) :
    ¬ span.SharesLine r := by
  rintro ⟨hfile, line, hspan, hrange⟩
  have hoverlaps : span.overlaps r = true := by
    simp only [Location.overlaps, Bool.and_eq_true, beq_iff_eq, decide_eq_true_eq]
    exact ⟨⟨hfile, by omega⟩, by omega⟩
  simp only [isSpanSuppressed, List.any_eq_false] at h
  exact h r hr hoverlaps

namespace SuppressedRanges

theorem of_cons (file : Text) (ranges : List Location) (rest : SuppressedRanges) (path : Text) :
    of ((file, ranges) :: rest) path = if file = path then ranges else rest.of path := by
  by_cases h : file = path
  · simp [of, h]
  · simp [of, h]

theorem of_insert (groups : SuppressedRanges) (range : Location) (path : Text) :
    (groups.insert range).of path =
      groups.of path ++ if range.file = path then [range] else [] := by
  induction groups with
  | nil =>
      rw [insert, of_cons]
      rfl
  | cons g rest ih =>
      obtain ⟨file, ranges⟩ := g
      by_cases hrange : file = range.file
      · have hinsert : insert ((file, ranges) :: rest) range =
            (file, ranges ++ [range]) :: rest := by
          simp [insert, hrange]
        rw [hinsert, of_cons, of_cons, hrange]
        by_cases hpath : range.file = path <;> simp [hpath]
      · have hinsert : insert ((file, ranges) :: rest) range =
            (file, ranges) :: insert rest range := by
          simp [insert, hrange]
        rw [hinsert, of_cons, of_cons, ih]
        by_cases hpath : file = path
        · have hne : range.file ≠ path := fun h => hrange (hpath.trans h.symm)
          simp [hpath, hne]
        · simp [hpath]

theorem of_ofList (ranges : List Location) (path : Text) :
    (ofList ranges).of path = ranges.filter fun r => r.file == path := by
  have hrun (groups : SuppressedRanges) : (ranges.foldl insert groups).of path =
      groups.of path ++ ranges.filter fun r => r.file == path := by
    induction ranges generalizing groups with
    | nil => simp
    | cons r ranges ih =>
        rw [List.foldl_cons, ih, of_insert, List.append_assoc, List.filter_cons]
        by_cases h : r.file = path <;> simp [h]
  exact hrun []

/-- What the ranges do not cover shares no line with any of them. -/
theorem not_sharesLine {ranges : List Location} {l : Location}
    (h : (ofList ranges).covers l = false) {r : Location} (hr : r ∈ ranges) :
    ¬ l.SharesLine r := by
  intro hshares
  refine not_sharesLine_of_not_suppressed h ?_ hshares
  rw [of_ofList, List.mem_filter]
  exact ⟨hr, by simp [hshares.1]⟩

end SuppressedRanges

/-! ## Violations of clusters -/

theorem locations_buildViolation (c : Cluster) (level : RuleLevel) :
    (buildViolation c level).locations = c.places.mergeSort Location.le := by
  rw [Violation.locations, buildViolation]
  cases c.places.mergeSort Location.le with
  | nil => rfl
  | cons l rest => rfl

theorem mem_locations_buildViolation {c : Cluster} {level : RuleLevel} {l : Location} :
    l ∈ (buildViolation c level).locations ↔ ∃ o ∈ c.occurrences, o.location = l := by
  rw [locations_buildViolation, List.mem_mergeSort, Cluster.places, List.mem_map]

/-- The primary location is minimal and the related ones are sorted. -/
theorem buildViolation_ordered {c : Cluster} (level : RuleLevel) (hc : c.occurrences ≠ []) :
    ∃ first, (buildViolation c level).primary = some first ∧
      (∀ l ∈ (buildViolation c level).related, first.Precedes l) ∧
      (buildViolation c level).related.Pairwise Location.Precedes ∧
      (buildViolation c level).occurrenceCount = 1 + (buildViolation c level).related.length := by
  have hplaces : c.places ≠ [] := by simpa [Cluster.places] using hc
  have hsorted := List.pairwise_mergeSort Location.le_trans Location.le_total c.places
  simp only [buildViolation]
  cases hordered : c.places.mergeSort Location.le with
  | nil =>
      have hperm := List.mergeSort_perm c.places Location.le
      rw [hordered] at hperm
      exact absurd hperm.nil_eq.symm hplaces
  | cons first rest =>
      rw [hordered] at hsorted
      obtain ⟨hfirst, hrest⟩ := List.pairwise_cons.mp hsorted
      refine ⟨first, rfl, ?_, ?_, ?_⟩
      · exact fun l hl => Location.le_iff_precedes.mp (hfirst l hl)
      · exact hrest.imp Location.le_iff_precedes.mp
      · simp [Nat.add_comm]

/-- A reported violation describes a cluster that has lost its suppressed occurrences and still
meets the thresholds, whatever the filters drop. -/
theorem mem_reportClusters {options : ReportOptions} {filters : FilterRegistry}
    {clusters : List Cluster} {v : Violation}
    (hv : v ∈ (reportClusters options filters clusters).1) :
    ∃ c ∈ clusters, (c.withoutSuppressed options.suppressed).meets options.thresholds = true ∧
      v = buildViolation (c.withoutSuppressed options.suppressed) options.level := by
  induction clusters generalizing filters with
  | nil => simp [reportClusters] at hv
  | cons c rest ih =>
      have hlater {filters : FilterRegistry}
          (hv : v ∈ (reportClusters options filters rest).1) : ∃ d ∈ c :: rest,
            (d.withoutSuppressed options.suppressed).meets options.thresholds = true ∧
              v = buildViolation (d.withoutSuppressed options.suppressed) options.level := by
        obtain ⟨d, hd, hrest⟩ := ih hv
        exact ⟨d, List.mem_cons_of_mem c hd, hrest⟩
      simp only [reportClusters] at hv
      by_cases hmeets : (c.withoutSuppressed options.suppressed).meets options.thresholds = true
      · rw [if_pos hmeets] at hv
        split at hv
        · exact hlater hv
        · rcases List.mem_cons.mp hv with rfl | hv
          · exact ⟨c, List.mem_cons_self, hmeets, rfl⟩
          · exact hlater hv
      · rw [if_neg hmeets] at hv
        exact hlater hv

namespace Detect

/-- The groups of files that are searched: those of one language each. -/
def languageGroups (files : List AnalyzedFile) : List (List AnalyzedFile) :=
  Clone.group (fun a b => a.language == b.language) files

theorem languageGroups_areClasses (files : List AnalyzedFile) :
    Clone.AreClasses (·.language) files (languageGroups files) := by
  apply Clone.group_areClasses
  intro a b
  simp

theorem mem_blockViolations {files : List AnalyzedFile} {config : Config}
    {suppressed : SuppressedRanges} {filters : FilterRegistry} {groups : List (List AnalyzedFile)}
    {v : Violation} (hv : v ∈ (blockViolations files config suppressed filters groups).1) :
    ∃ first more, first :: more ∈ groups ∧
      ∃ c ∈ clusters config suppressed first.language (first :: more),
        (c.withoutSuppressed suppressed).meets (config.thresholds first.language) = true ∧
          v = buildViolation (c.withoutSuppressed suppressed) config.rule.level := by
  induction groups generalizing filters with
  | nil => simp [blockViolations] at hv
  | cons g rest ih =>
      cases g with
      | nil =>
          obtain ⟨first, more, hmem, hc⟩ := ih hv
          exact ⟨first, more, List.mem_cons_of_mem _ hmem, hc⟩
      | cons first more =>
          simp only [blockViolations] at hv
          rcases List.mem_append.mp hv with hv | hv
          · exact ⟨first, more, List.mem_cons_self, mem_reportClusters hv⟩
          · obtain ⟨first', more', hmem, hc⟩ := ih hv
            exact ⟨first', more', List.mem_cons_of_mem _ hmem, hc⟩

/-- The violations of duplicated blocks in a detection. -/
def fromBlocks (files : List AnalyzedFile) (config : Config) (suppressed : List Location)
    (filters : FilterRegistry) : List Violation :=
  if config.rule.enabled then
    (blockViolations files config (.ofList suppressed) filters (languageGroups files)).1
  else []

/-- The violations of constants in a detection. -/
def fromConstants (files : List AnalyzedFile) (config : Config) (suppressed : List Location) :
    List Violation :=
  if config.rule.enabled then constantViolations files config (.ofList suppressed) else []

theorem detectWith_eq (files : List AnalyzedFile) (config : Config) (suppressed : List Location)
    (filters : FilterRegistry) : (detectWith files config suppressed filters).1 =
      sortViolations (fromBlocks files config suppressed filters ++
        fromConstants files config suppressed) := by
  simp only [detectWith, fromBlocks, fromConstants, languageGroups]
  split
  · rfl
  · simp [sortViolations]

/-- A location is the lines of so many tokens of a file. -/
def LiesIn (f : AnalyzedFile) (count : Nat) (l : Location) : Prop :=
  l.file = f.path ∧ ∃ start a b, f.tokens[start]? = some a ∧
    f.tokens[start + count - 1]? = some b ∧ l.startLine = a.startLine ∧ l.endLine = b.endLine

/-- What a violation of a duplicated block says: where in the files of one language the block
stands, and that it is as large as that language asks for. -/
structure DescribesBlock (files : List AnalyzedFile) (config : Config) (language : Language)
    (v : Violation) : Prop where
  located : ∀ l ∈ v.locations, ∃ f ∈ files, f.language = language ∧ LiesIn f v.tokenCount l
  oneLanguage : ∀ l ∈ v.locations, ∀ f ∈ files, f.path = l.file → f.language = language
  occurrences : max 2 (config.thresholds language).occurrences ≤ v.occurrenceCount
  related : v.occurrenceCount = 1 + v.related.length
  tokens : (config.thresholds language).tokens ≤ v.tokenCount
  lines : ∃ n, v.lineCount = some n ∧ ((config.thresholds language).lines : Int) ≤ n ∧
    (∃ l ∈ v.locations, l.lineCount = n) ∧ ∀ l ∈ v.locations, n ≤ l.lineCount
  ordered : ∃ first, v.primary = some first ∧ (∀ l ∈ v.related, first.Precedes l) ∧
    v.related.Pairwise Location.Precedes

/-! ## Occurrences in the files of a language -/

/-- Each file has a hash for every window of its language. -/
def HasHashes (files : List AnalyzedFile) (config : Config) : Prop :=
  ∀ f ∈ files, f.hashes.length = f.tokens.length + 1 - (config.thresholds f.language).tokens

variable {files : List AnalyzedFile} {config : Config}

instance : Decidable (HasHashes files config) :=
  inferInstanceAs (Decidable (∀ f ∈ files, _))

theorem getElem?_indexed {group : List AnalyzedFile} {normalize : Bool} {i : Nat} {g : IndexedFile}
    (hg : (group.map (indexed normalize))[i]? = some g) :
    ∃ f ∈ group, g = indexed normalize f := by
  obtain ⟨f, hf, rfl⟩ := List.mem_map.mp (List.mem_of_getElem? hg)
  exact ⟨f, hf, rfl⟩

theorem tokens_pos_of_mem_clusters {suppressed : SuppressedRanges} {language : Language}
    {group : List AnalyzedFile} {c : Cluster}
    (hc : c ∈ clusters config suppressed language group) :
    0 < (config.thresholds language).tokens := by
  rw [Nat.pos_iff_ne_zero]
  intro hzero
  simp [clusters, findClusters, Clone.findBlocks, hzero] at hc

theorem hasWindowHashes_indexed {group : List AnalyzedFile} {window : Nat}
    (hhashes : ∀ f ∈ group, f.hashes.length = f.tokens.length + 1 - window) (normalize : Bool) :
    Clone.HasWindowHashes (Cluster.keyed (group.map (indexed normalize))) window := by
  apply Cluster.hasWindowHashes_keyed
  intro g hg
  obtain ⟨f, hf, rfl⟩ := List.mem_map.mp hg
  simp [indexed, tokenKeys, hhashes f hf]

/-- An occurrence of a cluster is the lines of its tokens in a file of the group. -/
theorem exists_file_of_occurrence {suppressed : SuppressedRanges} {language : Language}
    {group : List AnalyzedFile}
    (hhashes : ∀ f ∈ group, f.hashes.length =
      f.tokens.length + 1 - (config.thresholds language).tokens)
    {c : Cluster} (hc : c ∈ clusters config suppressed language group) {o : Occurrence}
    (ho : o ∈ c.occurrences) : ∃ f ∈ group, LiesIn f c.tokenCount o.location := by
  have hpos := tokens_pos_of_mem_clusters hc
  obtain ⟨b, hb, rfl⟩ := Cluster.mem_findClusters.mp hc
  obtain ⟨hdup, hlength, -⟩ :=
    Clone.findBlocks_sound (hasWindowHashes_indexed hhashes _) hpos hb
  obtain ⟨m, hm, rfl⟩ := List.mem_map.mp ho
  obtain ⟨g, hg, hstop⟩ := Cluster.exists_file_of_lt_keyCount (hdup.bounded m hm)
  obtain ⟨f, hf, rfl⟩ := getElem?_indexed hg
  have hspan := hdup.spans m hm
  have hsize : m.stop < f.tokens.length := by simpa [indexed, tokenKeys] using hstop
  have hstart : m.start < f.tokens.length := by omega
  have hend : m.start + b.length - 1 = m.stop := by omega
  refine ⟨f, hf, ?_, m.start, f.tokens[m.start], f.tokens[m.stop], ?_, ?_, ?_, ?_⟩
  · simp [Cluster.locate, hg, indexed]
  · simp [hstart]
  · simp [Cluster.ofBlock, hend, hsize]
  · simp [Cluster.locate, hg, indexed, Cluster.firstLine, hstart]
  · simp [Cluster.locate, hg, indexed, Cluster.lastLine, hsize]

theorem lineCount_buildViolation {c : Cluster} (level : RuleLevel) {lines : Nat}
    (hc : c.occurrences ≠ []) (hlines : ∀ o ∈ c.occurrences, (lines : Int) ≤ o.location.lineCount) :
    ∃ n, (buildViolation c level).lineCount = some n ∧ (lines : Int) ≤ n ∧
      (∃ l ∈ (buildViolation c level).locations, l.lineCount = n) ∧
        ∀ l ∈ (buildViolation c level).locations, n ≤ l.lineCount := by
  cases hmin : c.lineCount with
  | none =>
      rw [Cluster.lineCount, List.min?_eq_none_iff] at hmin
      simp [Cluster.places, hc] at hmin
  | some n =>
      obtain ⟨hmem, hleast⟩ := List.min?_eq_some_iff.mp hmin
      simp only [Cluster.places, List.map_map, List.mem_map, Function.comp_apply] at hmem hleast
      obtain ⟨o, ho, rfl⟩ := hmem
      refine ⟨_, hmin, hlines o ho, ⟨o.location, ?_, rfl⟩, ?_⟩
      · exact mem_locations_buildViolation.mpr ⟨o, ho, rfl⟩
      · intro l hl
        obtain ⟨p, hp, rfl⟩ := mem_locations_buildViolation.mp hl
        exact hleast _ ⟨p, hp, rfl⟩

/-- What is built from a cluster of the files of one language describes a block of it. -/
theorem describesBlock_of_mem {suppressed : SuppressedRanges} (hpaths : (files.map (·.path)).Nodup)
    (hhashes : HasHashes files config) {language : Language} {group : List AnalyzedFile}
    (hgroup : ∀ f ∈ group, f ∈ files ∧ f.language = language) {c : Cluster}
    (hc : c ∈ clusters config suppressed language group)
    (hmeets : (c.withoutSuppressed suppressed).meets (config.thresholds language) = true) :
    DescribesBlock files config language
      (buildViolation (c.withoutSuppressed suppressed) config.rule.level) := by
  obtain ⟨hoccurrences, htokens, hlines⟩ := Cluster.meets_iff.mp hmeets
  have hsome : (c.withoutSuppressed suppressed).occurrences ≠ [] := by
    intro hnil
    simp [hnil] at hoccurrences
  have hwindows : ∀ f ∈ group, f.hashes.length =
      f.tokens.length + 1 - (config.thresholds language).tokens := by
    intro f hf
    obtain ⟨hmem, hlanguage⟩ := hgroup f hf
    rw [hhashes f hmem, hlanguage]
  have hlocated : ∀ l ∈ (buildViolation (c.withoutSuppressed suppressed)
      config.rule.level).locations, ∃ f ∈ group, LiesIn f c.tokenCount l := by
    intro l hl
    obtain ⟨o, ho, rfl⟩ := mem_locations_buildViolation.mp hl
    exact exists_file_of_occurrence hwindows hc (List.mem_of_mem_filter ho)
  obtain ⟨first, hprimary, hfirst, hrelated, hcount⟩ :=
    buildViolation_ordered config.rule.level hsome
  refine ⟨?_, ?_, ?_, hcount, htokens, lineCount_buildViolation _ hsome hlines,
    first, hprimary, hfirst, hrelated⟩
  · intro l hl
    obtain ⟨f, hf, hlies⟩ := hlocated l hl
    exact ⟨f, (hgroup f hf).1, (hgroup f hf).2, hlies⟩
  · intro l hl f hf hpath
    obtain ⟨g, hg, hfile, -⟩ := hlocated l hl
    obtain rfl := List.inj_on_of_nodup_map hpaths hf (hgroup g hg).1 (hpath.trans hfile)
    exact (hgroup f hg).2
  · simpa [buildViolation, Cluster.places] using hoccurrences

theorem describesBlock_of_mem_fromBlocks {suppressed : List Location} {filters : FilterRegistry}
    (hpaths : (files.map (·.path)).Nodup) (hhashes : HasHashes files config) {v : Violation}
    (hv : v ∈ fromBlocks files config suppressed filters) :
    (∃ language, DescribesBlock files config language v) ∧
      ∀ l ∈ v.locations, (SuppressedRanges.ofList suppressed).covers l = false := by
  rw [fromBlocks] at hv
  split at hv
  · obtain ⟨first, more, hgroup, c, hc, hmeets, rfl⟩ := mem_blockViolations hv
    obtain ⟨a, -, hclass⟩ := (languageGroups_areClasses files).isClass _ hgroup
    have hfirst : first.language = a.language :=
      (Clone.mem_classIn.mp (hclass ▸ List.mem_cons_self)).2
    refine ⟨⟨first.language, describesBlock_of_mem hpaths hhashes ?_ hc hmeets⟩, ?_⟩
    · intro f hf
      obtain ⟨hmem, hlanguage⟩ := Clone.mem_classIn.mp (hclass ▸ hf)
      exact ⟨hmem, hlanguage.trans hfirst.symm⟩
    · intro l hl
      obtain ⟨o, ho, rfl⟩ := mem_locations_buildViolation.mp hl
      simpa using (List.mem_filter.mp ho).2
  · simp at hv

end Detect

/-! ## Constants -/

namespace Constant

theorem file_of_readDefinition {tokens : Array Token} {n : Nat} {lines : List Text} {path : Text}
    {d : ConstantDefinition} (hd : readDefinition? tokens n lines path = some d) :
    d.file = path := by
  simp only [readDefinition?, Option.bind_eq_bind, Option.bind_eq_some_iff] at hd
  grind

theorem file_of_mem_extractFrom {language : Option Language} {tokens : Array Token}
    {lines : List Text} {path : Text} {depth i : Nat} {rest : List Token} {d : ConstantDefinition}
    (hd : d ∈ extractFrom language tokens lines path depth i rest) : d.file = path := by
  induction rest generalizing depth i with
  | nil => simp [extractFrom] at hd
  | cons t rest ih =>
      rw [extractFrom] at hd
      rcases List.mem_append.mp hd with hd | hd
      · rw [Option.mem_toList] at hd
        split at hd
        · obtain ⟨n, -, hread⟩ := Option.bind_eq_some_iff.mp hd
          exact file_of_readDefinition hread
        · simp at hd
      · exact ih hd

theorem locations_buildViolation (definitions : List ConstantDefinition) (level : RuleLevel) :
    (buildViolation definitions level).locations =
      (definitions.mergeSort fun a b => Location.le (place a) (place b)).map place := by
  rw [Violation.locations, buildViolation]
  cases definitions.mergeSort fun a b => Location.le (place a) (place b) with
  | nil => rfl
  | cons d rest => rfl

end Constant

theorem mem_reportConstants {files : List ConstantSource} {least : Nat} {level : RuleLevel}
    {suppressed : SuppressedRanges} {v : Violation}
    (hv : v ∈ reportConstants files least level suppressed) :
    v.primary ≠ none ∧ ∀ l ∈ v.locations, suppressed.covers l = false := by
  simp only [reportConstants, List.mem_flatMap, List.mem_filterMap] at hv
  obtain ⟨group, -, g, hg, hv⟩ := hv
  have hcount : max 2 least ≤ Constant.fileCount g := by
    by_contra hless
    simp [hless] at hv
  rw [if_pos hcount, Option.some.injEq] at hv
  subst hv
  obtain ⟨a, ha, hclass⟩ := (Constant.groups_areClasses _).isClass g hg
  constructor
  · have hmem : a ∈ g.mergeSort fun a b => Location.le (Constant.place a) (Constant.place b) := by
      rw [List.mem_mergeSort, hclass]
      exact Clone.mem_classIn.mpr ⟨ha, rfl⟩
    obtain ⟨first, rest, hordered⟩ := List.exists_cons_of_ne_nil (List.ne_nil_of_mem hmem)
    simp [Constant.buildViolation, hordered]
  · intro l hl
    rw [Constant.locations_buildViolation, List.mem_map] at hl
    obtain ⟨d, hd, rfl⟩ := hl
    rw [List.mem_mergeSort, hclass] at hd
    have hdef := (Clone.mem_classIn.mp hd).1
    obtain ⟨f, -, hextracted⟩ := List.mem_flatMap.mp hdef
    obtain ⟨hextract, hkept⟩ := List.mem_filter.mp hextracted
    have hfile : d.file = f.path := Constant.file_of_mem_extractFrom hextract
    simpa [SuppressedRanges.covers, Constant.place, hfile] using hkept

namespace Detect

theorem mem_fromConstants {files : List AnalyzedFile} {config : Config} {suppressed : List Location}
    {v : Violation} (hv : v ∈ fromConstants files config suppressed) :
    v.primary ≠ none ∧
      ∀ l ∈ v.locations, (SuppressedRanges.ofList suppressed).covers l = false := by
  simp only [fromConstants, constantViolations] at hv
  split at hv
  · split at hv
    · exact mem_reportConstants hv
    · simp at hv
  · simp at hv

/-! ## The whole list -/

/-- A configuration that asks for blocks of so many tokens. -/
def windowConfig (window : Nat) : Config where
  settings := {}
  root := Text.ofString "/"
  duplicates := ⟨true, ⟨1, window, 2⟩, [], false, .warning, [], true, 2⟩
  ignore := []
  cache := ⟨false, .memory, [], .finite 30, []⟩
  scan := ⟨0, false, true⟩

/-- A file with one line, `AB=x`. -/
def assignmentFile (path : Text) : AnalyzedFile where
  path := path
  language := .python
  source := [0x41, 0x42, 0x3D, 0x78]
  tokens :=
    [.make [0x41, 0x42] .identifier ⟨0, 0⟩ ⟨0, 2⟩, .make [0x3D] .symbol ⟨0, 2⟩ ⟨0, 3⟩,
      .make [0x78] .identifier ⟨0, 3⟩ ⟨0, 4⟩]
  hashes := (windowHashes [[0x41, 0x42], [0x3D], [0x78]] 2).map (·.toNat)

def assignmentFiles : List AnalyzedFile :=
  [assignmentFile [3], assignmentFile [1], assignmentFile [2]]

end Detect

end CloneScan
