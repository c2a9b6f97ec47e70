import CloneScan.Proofs.DetectedViolations
import CloneScan.Proofs.FileNumbering

/-!
# The order of the files

Files of one language are searched together, and what is reported of a cluster or of a group of
constants depends on its places alone.  So without filters, which are asked about the first place of
a block only, the same files in another order give the same violations.
-/

namespace CloneScan

/-! ## Filters that are switched off -/

namespace FilterRegistry

theorem judgeAll_nil (primary : Location) (ctx : FilterContext) (filters : List BlockFilter) :
    judgeAll [] primary ctx filters = (false, filters) := by
  induction filters with
  | nil => rfl
  | cons f filters ih => simp [judgeAll, ih]

theorem shouldFilter_of_off {r : FilterRegistry} (hoff : r.enabled = []) (places : List Location)
    (ctx : FilterContext) : r.shouldFilter places ctx = (false, r) := by
  obtain ⟨filters, enabled⟩ := r
  obtain rfl : enabled = [] := hoff
  cases places with
  | nil => rfl
  | cons primary rest => simp [shouldFilter, judgeAll_nil]

end FilterRegistry

/-- The violation of a cluster, if it meets the thresholds without its suppressed occurrences. -/
def Cluster.describe (t : Thresholds) (level : RuleLevel) (suppressed : SuppressedRanges)
    (c : Cluster) : Option Violation :=
  if (c.withoutSuppressed suppressed).meets t then
    some (buildViolation (c.withoutSuppressed suppressed) level)
  else none

theorem reportClusters_of_off {filters : FilterRegistry} (hoff : filters.enabled = [])
    (options : ReportOptions) (clusters : List Cluster) :
    reportClusters options filters clusters = (clusters.filterMap
      (Cluster.describe options.thresholds options.level options.suppressed), filters) := by
  induction clusters with
  | nil => rfl
  | cons c rest ih =>
      by_cases hmeets : (c.withoutSuppressed options.suppressed).meets options.thresholds = true
      · simp [reportClusters, Cluster.describe, hmeets, FilterRegistry.shouldFilter_of_off hoff, ih]
      · simp [reportClusters, Cluster.describe, hmeets, ih]

/-! ## Violations of clusters -/

theorem min?_eq_of_perm {l l' : List Int} (h : l.Perm l') : l.min? = l'.min? := by
  cases hmin : l.min? with
  | none =>
      rw [List.min?_eq_none_iff] at hmin
      subst hmin
      simp [h.nil_eq.symm]
  | some n =>
      obtain ⟨hmem, hleast⟩ := List.min?_eq_some_iff.mp hmin
      symm
      apply List.min?_eq_some_iff.mpr
      exact ⟨h.mem_iff.mp hmem, fun m hm => hleast m (h.mem_iff.mpr hm)⟩

namespace Cluster

/-- What is said of a cluster depends on its occurrences, not on their order. -/
theorem describe_congr (t : Thresholds) (level : RuleLevel) (suppressed : SuppressedRanges)
    (c d : Cluster) (hcount : c.tokenCount = d.tokenCount)
    (hoccurrences : c.occurrences.Perm d.occurrences) :
    describe t level suppressed c = describe t level suppressed d := by
  have hkept : (c.withoutSuppressed suppressed).occurrences.Perm
      (d.withoutSuppressed suppressed).occurrences := hoccurrences.filter _
  have hplaces : (c.withoutSuppressed suppressed).places.Perm
      (d.withoutSuppressed suppressed).places := hkept.map _
  have hlines : (c.withoutSuppressed suppressed).lineCount =
      (d.withoutSuppressed suppressed).lineCount := min?_eq_of_perm (hplaces.map _)
  have htokens : (c.withoutSuppressed suppressed).tokenCount =
      (d.withoutSuppressed suppressed).tokenCount := hcount
  have hmeets : (c.withoutSuppressed suppressed).meets t =
      (d.withoutSuppressed suppressed).meets t := by
    simp only [meets, hlines, htokens, hkept.length_eq]
  have hviolation : buildViolation (c.withoutSuppressed suppressed) level =
      buildViolation (d.withoutSuppressed suppressed) level := by
    simp only [buildViolation, hlines, htokens, Location.mergeSort_eq_of_perm hplaces]
  rw [describe, describe, hmeets, hviolation]

/-- The places of a cluster by path and tokens. -/
def spots (c : Cluster) : Set (Text × Nat × Nat) :=
  {s | ∃ o ∈ c.occurrences, s = (o.location.file, o.startToken, o.endToken)}

theorem spots_congr {c d : Cluster} (h : c.occurrences.Perm d.occurrences) :
    c.spots = d.spots := by
  simp only [spots, h.mem_iff]

end Cluster

namespace Detect

variable {files files' : List AnalyzedFile} {config : Config}

/-- The hashes of each file are those of its keys for the window of its language. -/
def HasTokenHashes (files : List AnalyzedFile) (config : Config) : Prop :=
  ∀ f ∈ files, f.hashes = (windowHashes (tokenKeys f.tokens config.duplicates.normalize)
    (config.thresholds f.language).tokens).map (·.toNat)

instance : Decidable (HasTokenHashes files config) :=
  inferInstanceAs (Decidable (∀ f ∈ files, _))

/-- The violations of the files of one language. -/
def groupViolations (config : Config) (suppressed : SuppressedRanges) :
    List AnalyzedFile → List Violation
  | [] => []
  | first :: more =>
    (clusters config suppressed first.language (first :: more)).filterMap
      (Cluster.describe (config.thresholds first.language) config.rule.level suppressed)

theorem blockViolations_of_off {filters : FilterRegistry} (hoff : filters.enabled = [])
    (suppressed : SuppressedRanges) (groups : List (List AnalyzedFile)) :
    blockViolations files config suppressed filters groups =
      (groups.flatMap (groupViolations config suppressed), filters) := by
  induction groups with
  | nil => rfl
  | cons g rest ih =>
      cases g with
      | nil => simpa [blockViolations, groupViolations] using ih
      | cons first more =>
          simp [blockViolations, groupViolations, reportClusters_of_off hoff, ih]

theorem groupViolations_perm (suppressed : SuppressedRanges) {group group' : List AnalyzedFile}
    (hperm : group.Perm group') {language : Language}
    (hlanguage : ∀ f ∈ group, f.language = language) (hhashes : HasTokenHashes group config) :
    (groupViolations config suppressed group).Perm (groupViolations config suppressed group') := by
  cases group with
  | nil =>
      obtain rfl := hperm.nil_eq
      exact List.Perm.refl _
  | cons first more =>
      cases group' with
      | nil => exact absurd hperm.eq_nil (by simp)
      | cons first' more' =>
          have hfirst := hlanguage first List.mem_cons_self
          have hfirst' := hlanguage first' (hperm.mem_iff.mpr List.mem_cons_self)
          have hkeys : Cluster.HasKeyHashes
              ((first :: more).map (indexed config.duplicates.normalize))
              (config.thresholds language).tokens := by
            intro g hg
            obtain ⟨f, hf, rfl⟩ := List.mem_map.mp hg
            simp [indexed, hhashes f hf, hlanguage f hf]
          have hclusters := Cluster.findClusters_perm_map
            (Cluster.describe_congr (config.thresholds language) config.rule.level suppressed)
            (hperm.map (indexed config.duplicates.normalize)) hkeys fun l => !suppressed.covers l
          have hreported := hclusters.filterMap id
          rw [List.filterMap_map, List.filterMap_map] at hreported
          rw [groupViolations, groupViolations, hfirst, hfirst']
          exact hreported

theorem fromBlocks_perm (hperm : files.Perm files') (hhashes : HasTokenHashes files config)
    (suppressed : List Location) {filters : FilterRegistry} (hoff : filters.enabled = []) :
    (fromBlocks files config suppressed filters).Perm
      (fromBlocks files' config suppressed filters) := by
  rw [fromBlocks, fromBlocks]
  split
  · rw [blockViolations_of_off hoff, blockViolations_of_off hoff]
    refine (languageGroups_areClasses files).flatMap_perm (languageGroups_areClasses files')
      (fun f => hperm.mem_iff) (fun _ _ _ _ => Iff.rfl) fun f hf => ?_
    have hclass : (Clone.classIn (·.language) files f).Perm
        (Clone.classIn (·.language) files' f) := hperm.filter _
    apply groupViolations_perm _ hclass
    · exact fun g hg => (Clone.mem_classIn.mp hg).2
    · exact fun g hg => hhashes g (Clone.mem_classIn.mp hg).1
  · exact List.Perm.refl _

end Detect

/-! ## Violations of constants -/

namespace Constant

variable {group group' : List ConstantSource}

/-- The definitions of a file that are not suppressed. -/
def definitionsOf (suppressed : SuppressedRanges) (f : ConstantSource) :
    List ConstantDefinition :=
  (extract f.language f.path f.source f.tokens).filter fun d =>
    !isSpanSuppressed (place d) (suppressed.of f.path)

/-- The violations of the definitions of one language. -/
def definitionViolations (least : Nat) (level : RuleLevel) (definitions : List ConstantDefinition) :
    List Violation :=
  (groups definitions).filterMap fun g =>
    if max 2 least ≤ fileCount g then some (buildViolation g level) else none

theorem filter_path_eq (hperm : group.Perm group') (hpaths : (group.map (·.path)).Nodup)
    (path : Text) : group.filter (·.path = path) = group'.filter (·.path = path) := by
  have hfiltered := hperm.filter (·.path = path)
  have hnodup : ((group.filter (·.path = path)).map (·.path)).Nodup :=
    hpaths.sublist (List.filter_sublist.map _)
  have hpath : ∀ f ∈ group.filter (·.path = path), f.path = path := by simp
  cases hgroup : group.filter (·.path = path) with
  | nil =>
      rw [hgroup] at hfiltered
      exact hfiltered.nil_eq
  | cons f rest =>
      -- distinct paths leave no second file
      cases rest with
      | nil =>
          rw [hgroup] at hfiltered
          exact (List.perm_singleton.mp hfiltered.symm).symm
      | cons g rest =>
          rw [hgroup] at hnodup hpath
          have hf := hpath f (by simp)
          have hg := hpath g (by simp)
          simp [hf, hg] at hnodup

theorem filter_file_definitions (suppressed : SuppressedRanges) (group : List ConstantSource)
    (path : Text) : (group.flatMap (definitionsOf suppressed)).filter (·.file = path) =
      (group.filter (·.path = path)).flatMap (definitionsOf suppressed) := by
  have hfile (f : ConstantSource) : ∀ d ∈ definitionsOf suppressed f, d.file = f.path :=
    fun d hd => file_of_mem_extractFrom (List.mem_of_mem_filter hd)
  induction group with
  | nil => rfl
  | cons f group ih =>
      rw [List.flatMap_cons, List.filter_append, ih]
      by_cases hpath : f.path = path
      · rw [List.filter_cons_of_pos (by simpa using hpath), List.flatMap_cons]
        congr 1
        rw [List.filter_eq_self]
        intro d hd
        simp [hfile f d hd, hpath]
      · rw [List.filter_cons_of_neg (by simpa using hpath)]
        have hnone : (definitionsOf suppressed f).filter (·.file = path) = [] := by
          rw [List.filter_eq_nil_iff]
          intro d hd
          simp [hfile f d hd, hpath]
        rw [hnone, List.nil_append]

theorem sameByFile_definitions (suppressed : SuppressedRanges) (hperm : group.Perm group')
    (hpaths : (group.map (·.path)).Nodup) :
    SameByFile (group.flatMap (definitionsOf suppressed))
      (group'.flatMap (definitionsOf suppressed)) := by
  intro path
  rw [filter_file_definitions, filter_file_definitions, filter_path_eq hperm hpaths]

theorem definitionViolations_perm (least : Nat) (level : RuleLevel)
    {definitions definitions' : List ConstantDefinition} (h : SameByFile definitions definitions') :
    (definitionViolations least level definitions).Perm
      (definitionViolations least level definitions') := by
  simp only [definitionViolations, List.filterMap_eq_flatMap_toList]
  refine (groups_areClasses definitions).flatMap_perm (groups_areClasses definitions')
    (fun _ => h.perm.mem_iff) (fun d hd e he => groupNumber_eq_iff_of_perm h.perm hd he)
    fun d hd => ?_
  have hclass : SameByFile (Clone.classIn (groupNumber definitions) definitions d)
      (Clone.classIn (groupNumber definitions') definitions' d) := by
    rw [classIn_groupNumber_of_perm h.perm hd]
    exact h.filter _
  rw [hclass.fileCount_eq, hclass.buildViolation_eq]

end Constant

theorem reportConstants_perm {sources sources' : List ConstantSource}
    (hperm : sources.Perm sources') (hpaths : (sources.map (·.path)).Nodup) (least : Nat)
    (level : RuleLevel) (suppressed : SuppressedRanges) :
    (reportConstants sources least level suppressed).Perm
      (reportConstants sources' least level suppressed) := by
  have hgroups (sources : List ConstantSource) : Clone.AreClasses (·.language) sources
      (Clone.group (fun a b => a.language == b.language) sources) := by
    apply Clone.group_areClasses
    intro a b
    simp
  refine (hgroups sources).flatMap_perm (hgroups sources') (fun f => hperm.mem_iff)
    (fun _ _ _ _ => Iff.rfl) fun f _ => ?_
  apply Constant.definitionViolations_perm
  apply Constant.sameByFile_definitions
  · exact hperm.filter _
  · exact hpaths.sublist (List.filter_sublist.map _)

namespace Detect

theorem fromConstants_perm {files files' : List AnalyzedFile} (hperm : files.Perm files')
    (hpaths : (files.map (·.path)).Nodup) (config : Config) (suppressed : List Location) :
    (fromConstants files config suppressed).Perm (fromConstants files' config suppressed) := by
  rw [fromConstants, fromConstants]
  split
  · rw [constantViolations, constantViolations]
    split
    · apply reportConstants_perm
      · exact hperm.map _
      · simpa [List.map_map, Function.comp_def] using hpaths
    · exact List.Perm.refl _
  · exact List.Perm.refl _

/-- The order of the files does not matter: neither to the clusters of a search nor, as long as no
filter is switched on, to the violations of a detection. -/
theorem detection_perm_of_files_perm :
    (∀ (files files' : List IndexedFile) (window : Nat) (keep : Location → Bool),
      files.Perm files' → Cluster.HasKeyHashes files window →
        ((findClusters files window keep).map Cluster.spots).Perm
          ((findClusters files' window keep).map Cluster.spots)) ∧
    ∀ (files files' : List AnalyzedFile) (config : Config) (suppressed : List Location)
      (filters : FilterRegistry), files.Perm files' → (files.map (·.path)).Nodup →
        HasTokenHashes files config → filters.enabled = [] →
          (detectWith files config suppressed filters).1.Perm
            (detectWith files' config suppressed filters).1 := by
  constructor
  · intro files files' window keep hperm hhashes
    exact Cluster.findClusters_perm_map (fun c d _ h => Cluster.spots_congr h) hperm hhashes keep
  · intro files files' config suppressed filters hperm hpaths hhashes hoff
    have hblocks := fromBlocks_perm hperm hhashes suppressed hoff
    have hconstants := fromConstants_perm hperm hpaths config suppressed
    rw [detectWith_eq, detectWith_eq]
    calc
      List.Perm _ _ := sortViolations_perm _
      List.Perm _ _ := hblocks.append hconstants
      List.Perm _ _ := (sortViolations_perm _).symm

/-- Both parts on files in two orders: a cluster, and a block and a constant. -/
theorem detection_perm_assignmentFiles :
    ((findClusters Cluster.sharingFiles 2 fun _ => true).length = 1 ∧
      ((findClusters Cluster.sharingFiles 2 fun _ => true).map Cluster.spots).Perm
        ((findClusters Cluster.sharingFiles.reverse 2 fun _ => true).map Cluster.spots)) ∧
    (detectWith assignmentFiles (windowConfig 2) [] .empty).1.length = 2 ∧
      (detectWith assignmentFiles (windowConfig 2) [] .empty).1.Perm
        (detectWith assignmentFiles.reverse (windowConfig 2) [] .empty).1 := by
  refine ⟨⟨by cbv, ?_⟩, by cbv, ?_⟩
  · apply detection_perm_of_files_perm.1
    · exact (List.reverse_perm _).symm
    · exact Cluster.hasKeyHashes_letterFile _ 2
  · apply detection_perm_of_files_perm.2
    · exact (List.reverse_perm _).symm
    · decide
    · decide
    · rfl

end Detect

end CloneScan
