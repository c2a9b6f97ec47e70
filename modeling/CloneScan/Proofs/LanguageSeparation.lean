import CloneScan.Proofs.FileOrder
import CloneScan.Proofs.FilterMemory

/-!
# Languages side by side

Files of several languages are searched with one set of filters, one set of suppressed ranges and
one final sort.  What a filter remembers of a file is what it would compute again, so its answer on
a block depends on the file of the first occurrence alone; blocks and constants stay within the
files of a language; and a stable sort keeps the order of the violations that are picked out of it.
Together, the violations of one language are those of its files alone.
-/

namespace CloneScan

open Detect

/-! ## What filters remember -/

theorem fileAt?_of_mem {files : List AnalyzedFile} (hpaths : (files.map (·.path)).Nodup)
    {f : AnalyzedFile} (hf : f ∈ files) : fileAt? files f.path = some f := by
  cases hfound : fileAt? files f.path with
  | none =>
      have hnone := List.find?_eq_none.mp hfound f (List.mem_reverse.mpr hf)
      simp at hnone
  | some g =>
      have hg : g ∈ files := List.mem_reverse.mp (List.mem_of_find?_eq_some hfound)
      have hpath : g.path = f.path := by simpa using List.find?_some hfound
      rw [List.inj_on_of_nodup_map hpaths hg hf hpath]

namespace BlockFilter

/-- Everything that the filter remembers is of one of the files. -/
def Recalls (files : List AnalyzedFile) : BlockFilter → Prop
  | .importGroup memory => ∀ e ∈ memory, ∃ f ∈ files, f.path = e.1 ∧
      importLines f.source (some f.language) = e.2
  | .keywordArgument _ memory => ∀ e ∈ memory, ∃ f ∈ files, f.path = e.1 ∧
      multiLineCalls f.tokens = e.2

/-- What the filter says when it remembers nothing and sees nothing but one file. -/
def drops (filter : BlockFilter) (f : AnalyzedFile) (primary : Location) : Bool :=
  (filter.forget.judge primary (context [f] f.language)).1

theorem drops_forget (filter : BlockFilter) : filter.forget.drops = filter.drops := by
  funext f primary
  rw [drops, drops, forget_forget]

theorem drops_eq_verdict (filter : BlockFilter) {f : AnalyzedFile} {primary : Location}
    (hprimary : primary.file = f.path) : filter.drops f primary = filter.verdict primary f.source
      (importLines f.source (some f.language)) (multiLineCalls f.tokens) := by
  have hsource : (context [f] f.language).source primary.file = some f.source := by
    simp [context, fileAt?, hprimary]
  have htokens : (context [f] f.language).tokens primary.file = some f.tokens := by
    simp [context, fileAt?, hprimary]
  rw [drops, judge_forget hsource, htokens, Option.getD_some]
  rfl

theorem recalls_iff (files : List AnalyzedFile) (filter : BlockFilter) :
    filter.Recalls files ↔ filter.Remembers
      (fun path marks => ∃ f ∈ files, f.path = path ∧
        importLines f.source (some f.language) = marks)
      (fun path calls => ∃ f ∈ files, f.path = path ∧ multiLineCalls f.tokens = calls) := by
  cases filter <;> rfl

variable {files : List AnalyzedFile} (hpaths : (files.map (·.path)).Nodup) {f : AnalyzedFile}
  (hf : f ∈ files) {primary : Location} (hprimary : primary.file = f.path)

include hpaths hf hprimary

/-- Memory or not, other files or not: a filter says the same of a block. -/
theorem judge_spec {filter : BlockFilter} (hfilter : filter.Recalls files) :
    (filter.judge primary (context files f.language)).1 = filter.drops f primary ∧
      (filter.judge primary (context files f.language)).2.Recalls files := by
  have hsource : (context files f.language).source primary.file = some f.source := by
    simp [context, hprimary, fileAt?_of_mem hpaths hf]
  have htokens : (context files f.language).tokens primary.file = some f.tokens := by
    simp [context, hprimary, fileAt?_of_mem hpaths hf]
  -- A remembered path has one file, so its value is that of `f`.
  have hself {α : Type} (value : AnalyzedFile → α) {x : α}
      (hx : ∃ g ∈ files, g.path = primary.file ∧ value g = x) : x = value f := by
    obtain ⟨g, hg, hpath, rfl⟩ := hx
    rw [List.inj_on_of_nodup_map hpaths hg hf (hpath.trans hprimary)]
  obtain ⟨marks, calls, hmarks, hcalls, hanswer, hkept⟩ :=
    exists_verdict hsource ((recalls_iff files filter).mp hfilter)
      ⟨f, hf, hprimary.symm, rfl⟩ ⟨f, hf, hprimary.symm, by rw [htokens, Option.getD_some]⟩
  refine ⟨?_, (recalls_iff files _).mpr hkept⟩
  rw [hanswer, drops_eq_verdict filter hprimary,
    hself (fun g => importLines g.source (some g.language)) hmarks,
    hself (fun g => multiLineCalls g.tokens) hcalls]

end BlockFilter

namespace FilterRegistry

/-- Everything that the filters remember is of one of the files. -/
def Recalls (files : List AnalyzedFile) (r : FilterRegistry) : Prop :=
  ∀ filter ∈ r.filters, filter.Recalls files

/-- Whether an enabled filter drops a block whose first occurrence lies in a file. -/
def drops (r : FilterRegistry) (f : AnalyzedFile) (primary : Location) : Bool :=
  r.filters.any fun filter => r.enabled.contains filter.name && filter.drops f primary

theorem drops_forget (r : FilterRegistry) : r.forget.drops = r.drops := by
  funext f primary
  simp [drops, forget, List.any_map, Function.comp_def, BlockFilter.name_forget,
    BlockFilter.drops_forget]

theorem drops_congr {r r' : FilterRegistry} (h : r.forget = r'.forget) : r.drops = r'.drops := by
  rw [← drops_forget r, h, drops_forget]

section

variable {files : List AnalyzedFile} (hpaths : (files.map (·.path)).Nodup) {f : AnalyzedFile}
  (hf : f ∈ files) {primary : Location} (hprimary : primary.file = f.path)

include hpaths hf hprimary

/-- The answer of the filters on a block depends on the file of its first place alone. -/
theorem shouldFilter_spec {r : FilterRegistry} (hr : r.Recalls files) (others : List Location) :
    (r.shouldFilter (primary :: others) (context files f.language)).1 = r.drops f primary ∧
      (r.shouldFilter (primary :: others) (context files f.language)).2.forget = r.forget ∧
      (r.shouldFilter (primary :: others) (context files f.language)).2.Recalls files := by
  obtain ⟨hanswer, hforget, hrecalls⟩ := judgeAll_spec
    (fun filter hfilter => BlockFilter.judge_spec hpaths hf hprimary hfilter) r.enabled hr
  exact ⟨hanswer, by simp [shouldFilter, forget, hforget], hrecalls⟩

end

theorem recalls_disable {files : List AnalyzedFile} {r : FilterRegistry} (hr : r.Recalls files)
    (names : List FilterName) : (names.foldl disable r).Recalls files := by
  induction names generalizing r with
  | nil => exact hr
  | cons name names ih => exact ih hr

theorem recalls_builtIn (files : List AnalyzedFile) (switchedOff : FilterName → Bool) :
    (builtIn switchedOff).Recalls files := by
  apply recalls_disable
  intro filter hfilter
  have hfilter : filter = .keywordArgument defaultShare [] ∨ filter = .importGroup [] := by
    simpa [register, enable, empty, BlockFilter.name] using hfilter
  rcases hfilter with rfl | rfl
  · exact fun e he => absurd he (by simp)
  · exact fun e he => absurd he (by simp)

end FilterRegistry

namespace Detect

variable {files : List AnalyzedFile} {config : Config} {suppressed : SuppressedRanges}

/-! ## Blocks -/

/-- The places of a cluster lie in files of a language. -/
def LiesWithin (files : List AnalyzedFile) (language : Language) (c : Cluster) : Prop :=
  ∀ l ∈ c.places, ∃ f ∈ files, f.language = language ∧ l.file = f.path

theorem LiesWithin.withoutSuppressed {language : Language} {c : Cluster}
    (h : LiesWithin files language c) (suppressed : SuppressedRanges) :
    LiesWithin files language (c.withoutSuppressed suppressed) := by
  intro l hl
  obtain ⟨o, ho, rfl⟩ := List.mem_map.mp hl
  exact h _ (List.mem_map_of_mem (List.mem_of_mem_filter ho))

/-- Whether the filters drop a block at these places: the file of the first one decides. -/
def dropsAt (files : List AnalyzedFile) (filters : FilterRegistry) (places : List Location) :
    Bool :=
  places.head?.any fun primary => (fileAt? files primary.file).any fun f => filters.drops f primary

/-- The violation of a cluster, unless the thresholds or the filters drop it. -/
def reported (files : List AnalyzedFile) (options : ReportOptions) (filters : FilterRegistry)
    (c : Cluster) : Option Violation :=
  if dropsAt files filters (c.withoutSuppressed options.suppressed).places then none
  else c.describe options.thresholds options.level options.suppressed

theorem reported_congr {filters filters' : FilterRegistry} (h : filters.forget = filters'.forget)
    (options : ReportOptions) :
    reported files options filters = reported files options filters' := by
  have hdrops : dropsAt files filters = dropsAt files filters' := by
    funext places
    simp only [dropsAt, FilterRegistry.drops_congr h]
  funext c
  rw [reported, reported, hdrops]

theorem shouldFilter_eq_dropsAt (hpaths : (files.map (·.path)).Nodup) {language : Language}
    {c : Cluster} (hc : LiesWithin files language c) {filters : FilterRegistry}
    (hfilters : filters.Recalls files) :
    (filters.shouldFilter c.places (context files language)).1 = dropsAt files filters c.places ∧
      (filters.shouldFilter c.places (context files language)).2.forget = filters.forget ∧
      (filters.shouldFilter c.places (context files language)).2.Recalls files := by
  cases hplaces : c.places with
  | nil => exact ⟨rfl, rfl, hfilters⟩
  | cons primary others =>
      obtain ⟨f, hf, rfl, hfile⟩ := hc primary (by simp [hplaces])
      obtain ⟨hanswer, hrest⟩ := FilterRegistry.shouldFilter_spec hpaths hf hfile hfilters others
      refine ⟨?_, hrest⟩
      rw [hanswer]
      simp [dropsAt, hfile, fileAt?_of_mem hpaths hf]

theorem reportClusters_spec (hpaths : (files.map (·.path)).Nodup) {language : Language}
    {options : ReportOptions} (hcontext : options.context = context files language)
    {filters : FilterRegistry} (hfilters : filters.Recalls files) {clusters : List Cluster}
    (hclusters : ∀ c ∈ clusters, LiesWithin files language c) :
    (reportClusters options filters clusters).1 =
        clusters.filterMap (reported files options filters) ∧
      (reportClusters options filters clusters).2.forget = filters.forget ∧
      (reportClusters options filters clusters).2.Recalls files := by
  induction clusters generalizing filters with
  | nil => exact ⟨rfl, rfl, hfilters⟩
  | cons c rest ih =>
      obtain ⟨hc, hrest⟩ := List.forall_mem_cons.mp hclusters
      obtain ⟨hanswer, hforget, hrecalls⟩ := shouldFilter_eq_dropsAt hpaths
        (hc.withoutSuppressed options.suppressed) hfilters
      by_cases hmeets : (c.withoutSuppressed options.suppressed).meets options.thresholds = true
      · obtain ⟨hlist, hforget', hrecalls'⟩ := ih hrecalls hrest
        simp only [reportClusters, if_pos hmeets, hcontext]
        refine ⟨?_, hforget'.trans hforget, hrecalls'⟩
        rw [hlist, reported_congr hforget, hanswer, List.filterMap_cons]
        cases hdrops : dropsAt files filters (c.withoutSuppressed options.suppressed).places with
        | true => simp [reported, hdrops]
        | false => simp [reported, hdrops, Cluster.describe, hmeets]
      · have hnone : reported files options filters c = none := by
          simp [reported, Cluster.describe, hmeets]
        simp only [reportClusters, if_neg hmeets]
        rw [List.filterMap_cons_none hnone]
        exact ih hfilters hrest

theorem liesWithin_of_mem_clusters {language : Language} {group : List AnalyzedFile} {c : Cluster}
    (hc : c ∈ clusters config suppressed language group) {l : Location} (hl : l ∈ c.places) :
    ∃ f ∈ group, l.file = f.path := by
  obtain ⟨b, hb, rfl⟩ := Cluster.mem_findClusters.mp hc
  obtain ⟨o, ho, rfl⟩ := List.mem_map.mp hl
  obtain ⟨m, hm, rfl⟩ := List.mem_map.mp ho
  have hfile := Clone.file_lt_of_mem_findBlocks hb hm
  simp only [Cluster.keyed, Array.size_map, List.size_toArray, List.length_map] at hfile
  refine ⟨group[m.file], List.getElem_mem hfile, ?_⟩
  simp [Cluster.locate, hfile, indexed]

/-- What a report of the files of a language goes by. -/
def optionsOf (files : List AnalyzedFile) (config : Config) (suppressed : SuppressedRanges)
    (language : Language) : ReportOptions where
  thresholds := config.thresholds language
  level := config.rule.level
  suppressed := suppressed
  context := context files language

/-- The violations of one group of files. -/
def groupReports (files : List AnalyzedFile) (config : Config) (suppressed : SuppressedRanges)
    (filters : FilterRegistry) : List AnalyzedFile → List Violation
  | [] => []
  | first :: more =>
    (clusters config suppressed first.language (first :: more)).filterMap
      (reported files (optionsOf files config suppressed first.language) filters)

theorem blockViolations_spec (hpaths : (files.map (·.path)).Nodup) {filters : FilterRegistry}
    (hfilters : filters.Recalls files) {groups : List (List AnalyzedFile)}
    (hgroups : ∀ g ∈ groups, ∃ language, ∀ f ∈ g, f ∈ files ∧ f.language = language) :
    (blockViolations files config suppressed filters groups).1 =
      groups.flatMap (groupReports files config suppressed filters) := by
  induction groups generalizing filters with
  | nil => rfl
  | cons g rest ih =>
      obtain ⟨hg, hrest⟩ := List.forall_mem_cons.mp hgroups
      cases g with
      | nil =>
          rw [blockViolations, ih hfilters hrest]
          rfl
      | cons first more =>
          obtain ⟨language, hmem⟩ := hg
          obtain rfl : first.language = language := (hmem first List.mem_cons_self).2
          have hlies : ∀ c ∈ clusters config suppressed first.language (first :: more),
              LiesWithin files first.language c := by
            intro c hc l hl
            obtain ⟨f, hf, hfile⟩ := liesWithin_of_mem_clusters hc hl
            exact ⟨f, (hmem f hf).1, (hmem f hf).2, hfile⟩
          have hcontext : (optionsOf files config suppressed first.language).context =
              context files first.language := rfl
          obtain ⟨hlist, hforget, hrecalls⟩ := reportClusters_spec hpaths hcontext hfilters hlies
          have hsame : groupReports files config suppressed
              (reportClusters (optionsOf files config suppressed first.language) filters
                (clusters config suppressed first.language (first :: more))).2 =
              groupReports files config suppressed filters := by
            funext g
            cases g with
            | nil => rfl
            | cons a g => rw [groupReports, groupReports, reported_congr hforget]
          calc
            (blockViolations files config suppressed filters ((first :: more) :: rest)).1 =
                (reportClusters (optionsOf files config suppressed first.language) filters
                  (clusters config suppressed first.language (first :: more))).1 ++
                (blockViolations files config suppressed
                  (reportClusters (optionsOf files config suppressed first.language) filters
                    (clusters config suppressed first.language (first :: more))).2 rest).1 := rfl
            _ = groupReports files config suppressed filters (first :: more) ++
                rest.flatMap (groupReports files config suppressed filters) := by
              rw [hlist, ih hrecalls hrest, hsame]
              rfl

/-! ## One language -/

/-- Whether the primary location of a violation lies in a file of a language. -/
def isPrimaryIn (files : List AnalyzedFile) (language : Language) (v : Violation) : Bool :=
  v.primary.any fun l => files.any fun f => f.path == l.file && f.language == language

theorem isPrimaryIn_of_mem (hpaths : (files.map (·.path)).Nodup) {v : Violation} {l : Location}
    (hv : v.primary = some l) {f : AnalyzedFile} (hf : f ∈ files) (hfile : l.file = f.path)
    (language : Language) : isPrimaryIn files language v = (f.language == language) := by
  rw [Bool.eq_iff_iff]
  simp only [isPrimaryIn, hv, Option.any_some, List.any_eq_true, Bool.and_eq_true, beq_iff_eq]
  constructor
  · rintro ⟨g, hg, hpath, hlanguage⟩
    rw [← List.inj_on_of_nodup_map hpaths hg hf (hpath.trans hfile)]
    exact hlanguage
  · exact fun hlanguage => ⟨f, hf, hfile.symm, hlanguage⟩

/-- A violation of a group is primary in a file of the group. -/
theorem exists_primary_of_mem_groupReports {filters : FilterRegistry} {group : List AnalyzedFile}
    {v : Violation} (hv : v ∈ groupReports files config suppressed filters group) :
    ∃ l, v.primary = some l ∧ ∃ f ∈ group, l.file = f.path := by
  cases group with
  | nil => simp [groupReports] at hv
  | cons first more =>
      obtain ⟨c, hc, hreported⟩ := List.mem_filterMap.mp hv
      simp only [reported, Cluster.describe] at hreported
      split at hreported
      · cases hreported
      · split at hreported
        case isFalse => cases hreported
        case isTrue hmeets =>
            obtain ⟨hcount, -⟩ := Cluster.meets_iff.mp hmeets
            have hsome : (c.withoutSuppressed suppressed).occurrences ≠ [] := by
              intro hnil
              simp [optionsOf, hnil] at hcount
            obtain ⟨l, hprimary, -⟩ := buildViolation_ordered config.rule.level hsome
            cases hreported
            refine ⟨l, hprimary, ?_⟩
            have hmem : l ∈ (buildViolation (c.withoutSuppressed suppressed)
                config.rule.level).locations := by
              simp [Violation.locations, hprimary]
            obtain ⟨o, ho, rfl⟩ := mem_locations_buildViolation.mp hmem
            exact liesWithin_of_mem_clusters hc
              (List.mem_map_of_mem (List.mem_of_mem_filter ho))

theorem fileAt?_filter (hpaths : (files.map (·.path)).Nodup) {p : AnalyzedFile → Bool}
    {f : AnalyzedFile} (hf : f ∈ files.filter p) :
    fileAt? (files.filter p) f.path = fileAt? files f.path := by
  rw [fileAt?_of_mem hpaths (List.mem_of_mem_filter hf),
    fileAt?_of_mem (hpaths.sublist (List.filter_sublist.map _)) hf]

/-- The files of other languages do not matter to the reports of a group. -/
theorem groupReports_filter (hpaths : (files.map (·.path)).Nodup) (filters : FilterRegistry)
    (language : Language) :
    groupReports (files.filter fun f => f.language = language) config suppressed filters
        (files.filter fun f => f.language = language) =
      groupReports files config suppressed filters
        (files.filter fun f => f.language = language) := by
  cases hgroup : files.filter fun f => f.language = language with
  | nil => rfl
  | cons first more =>
      simp only [groupReports]
      apply List.filterMap_congr
      intro c hc
      have hdrops : dropsAt (first :: more) filters (c.withoutSuppressed suppressed).places =
          dropsAt files filters (c.withoutSuppressed suppressed).places := by
        simp only [dropsAt]
        cases hplaces : (c.withoutSuppressed suppressed).places with
        | nil => rfl
        | cons primary others =>
            have hmem : primary ∈ c.places := by
              have hhead : primary ∈ (c.withoutSuppressed suppressed).places := by simp [hplaces]
              obtain ⟨o, ho, rfl⟩ := List.mem_map.mp hhead
              exact List.mem_map_of_mem (List.mem_of_mem_filter ho)
            obtain ⟨f, hf, hfile⟩ := liesWithin_of_mem_clusters hc hmem
            rw [← hgroup] at hf ⊢
            simp only [List.head?_cons, Option.any_some, hfile, fileAt?_filter hpaths hf]
      change (if dropsAt (first :: more) filters (c.withoutSuppressed suppressed).places then none
        else _) = if dropsAt files filters (c.withoutSuppressed suppressed).places then none else _
      rw [hdrops]
      rfl

theorem fromBlocks_eq (hpaths : (files.map (·.path)).Nodup) {filters : FilterRegistry}
    (hfilters : filters.Recalls files) (suppressed : List Location)
    (henabled : config.rule.enabled = true) : fromBlocks files config suppressed filters =
      (languageGroups files).flatMap
        (groupReports files config (.ofList suppressed) filters) := by
  rw [fromBlocks, if_pos henabled]
  apply blockViolations_spec hpaths hfilters
  intro g hg
  obtain ⟨a, -, rfl⟩ := (languageGroups_areClasses files).isClass g hg
  exact ⟨a.language, fun f hf => Clone.mem_classIn.mp hf⟩

theorem filter_fromBlocks (hpaths : (files.map (·.path)).Nodup) (config : Config)
    {filters : FilterRegistry} (hfilters : ∀ files, filters.Recalls files)
    (suppressed : List Location) (language : Language) :
    (fromBlocks files config suppressed filters).filter (isPrimaryIn files language) =
      fromBlocks (files.filter fun f => f.language = language) config suppressed filters := by
  by_cases henabled : config.rule.enabled = true
  · have hpaths' : ((files.filter fun f => f.language = language).map (·.path)).Nodup :=
      hpaths.sublist (List.filter_sublist.map _)
    have hreports {a : AnalyzedFile} {v : Violation}
        (hv : v ∈ groupReports files config (.ofList suppressed) filters
          (Clone.classIn (·.language) files a)) :
        isPrimaryIn files language v = (a.language == language) := by
      obtain ⟨l, hprimary, f, hf, hfile⟩ := exists_primary_of_mem_groupReports hv
      obtain ⟨hmem, hlanguage⟩ := Clone.mem_classIn.mp hf
      rw [isPrimaryIn_of_mem hpaths hprimary hmem hfile, hlanguage]
    have hall := (languageGroups_areClasses files).filter_flatMap
      (f := groupReports files config (.ofList suppressed) filters) rfl
      (p := isPrimaryIn files language) language
      (fun a _ ha v hv => by simp [hreports hv, ha])
      (fun a _ ha v hv => by simp [hreports hv, ha])
    have halone := (languageGroups_areClasses
        (files.filter fun f => f.language = language)).filter_flatMap
      (f := groupReports (files.filter fun f => f.language = language) config
        (.ofList suppressed) filters) rfl (p := fun _ => true) language
      (fun _ _ _ _ _ => rfl)
      (fun a ha hne => absurd (by simpa using (List.mem_filter.mp ha).2) hne)
    rw [fromBlocks_eq hpaths (hfilters _) suppressed henabled, hall,
      fromBlocks_eq hpaths' (hfilters _) suppressed henabled, ← groupReports_filter hpaths]
    rw [List.filter_true] at halone
    rw [halone]
    simp
  · simp [fromBlocks, henabled]

end Detect

/-! ## Constants -/

namespace Constant

theorem exists_primary_of_mem_definitionViolations {least : Nat} {level : RuleLevel}
    {definitions : List ConstantDefinition} {v : Violation}
    (hv : v ∈ definitionViolations least level definitions) :
    ∃ d ∈ definitions, v.primary = some (place d) := by
  obtain ⟨g, hg, hv⟩ := List.mem_filterMap.mp hv
  split at hv
  case isFalse => cases hv
  case isTrue hcount =>
      obtain ⟨a, ha, rfl⟩ := (groups_areClasses definitions).isClass g hg
      have hmem : a ∈ (Clone.classIn (groupNumber definitions) definitions a).mergeSort
          fun d e => Location.le (place d) (place e) :=
        List.mem_mergeSort.mpr (Clone.mem_classIn.mpr ⟨ha, rfl⟩)
      obtain ⟨first, rest, hordered⟩ := List.exists_cons_of_ne_nil (List.ne_nil_of_mem hmem)
      have hfirst : first ∈ Clone.classIn (groupNumber definitions) definitions a := by
        refine List.mem_mergeSort.mp (?_ : first ∈ List.mergeSort _ fun d e =>
          Location.le (place d) (place e))
        rw [hordered]
        exact List.mem_cons_self
      cases hv
      exact ⟨first, (Clone.mem_classIn.mp hfirst).1, by simp [buildViolation, hordered]⟩

/-- The violations of the constants of some files of one language. -/
def sourceViolations (least : Nat) (level : RuleLevel) (suppressed : SuppressedRanges)
    (sources : List ConstantSource) : List Violation :=
  definitionViolations least level (sources.flatMap (definitionsOf suppressed))

theorem exists_primary_of_mem_sourceViolations {least : Nat} {level : RuleLevel}
    {suppressed : SuppressedRanges} {sources : List ConstantSource} {v : Violation}
    (hv : v ∈ sourceViolations least level suppressed sources) :
    ∃ l, v.primary = some l ∧ ∃ s ∈ sources, l.file = s.path := by
  obtain ⟨d, hd, hprimary⟩ := exists_primary_of_mem_definitionViolations hv
  obtain ⟨s, hs, hd⟩ := List.mem_flatMap.mp hd
  exact ⟨place d, hprimary, s, hs, file_of_mem_extractFrom (List.mem_of_mem_filter hd)⟩

theorem sources_areClasses (sources : List ConstantSource) :
    Clone.AreClasses (·.language) sources
      (Clone.group (fun a b => a.language == b.language) sources) := by
  apply Clone.group_areClasses
  intro a b
  simp

end Constant

namespace Detect

variable {files : List AnalyzedFile} {config : Config}

/-- The files as their constants are collected. -/
def constantSources (files : List AnalyzedFile) : List ConstantSource :=
  files.map fun f => ⟨f.path, some f.language, f.source, f.tokens⟩

theorem constantSources_filter (files : List AnalyzedFile) (language : Language) :
    (constantSources files).filter (fun s => s.language = some language) =
      constantSources (files.filter fun f => f.language = language) := by
  simp [constantSources, List.filter_map, Function.comp_def]

theorem filter_fromConstants (hpaths : (files.map (·.path)).Nodup) (config : Config)
    (suppressed : List Location) (language : Language) :
    (fromConstants files config suppressed).filter (isPrimaryIn files language) =
      fromConstants (files.filter fun f => f.language = language) config suppressed := by
  by_cases henabled : config.rule.enabled = true
  · by_cases hconstants : config.duplicates.constants = true
    · have hreports {a : ConstantSource} {v : Violation}
          (hv : v ∈ Constant.sourceViolations config.duplicates.constantOccurrences
            config.rule.level (.ofList suppressed)
            (Clone.classIn (·.language) (constantSources files) a)) :
          isPrimaryIn files language v = (a.language == some language) := by
        obtain ⟨l, hprimary, s, hs, hfile⟩ := Constant.exists_primary_of_mem_sourceViolations hv
        obtain ⟨hmem, hlanguage⟩ := Clone.mem_classIn.mp hs
        obtain ⟨f, hf, rfl⟩ := List.mem_map.mp hmem
        rw [isPrimaryIn_of_mem hpaths hprimary hf hfile, ← hlanguage]
        simp
      have hall := (Constant.sources_areClasses (constantSources files)).filter_flatMap
        (f := Constant.sourceViolations config.duplicates.constantOccurrences config.rule.level
          (.ofList suppressed)) rfl (p := isPrimaryIn files language) (some language)
        (fun a _ ha v hv => by simp [hreports hv, ha])
        (fun a _ ha v hv => by simp [hreports hv, ha])
      have halone := (Constant.sources_areClasses
          (constantSources (files.filter fun f => f.language = language))).filter_flatMap
        (f := Constant.sourceViolations config.duplicates.constantOccurrences config.rule.level
          (.ofList suppressed)) rfl (p := fun _ => true) (some language)
        (fun _ _ _ _ _ => rfl)
        (fun a ha hne => by
          rw [← constantSources_filter] at ha
          exact absurd (by simpa using (List.mem_filter.mp ha).2) hne)
      rw [List.filter_true, constantSources_filter, List.filter_filter] at halone
      rw [constantSources_filter] at hall
      simp only [Bool.and_self] at halone
      simp only [fromConstants, if_pos henabled, constantViolations, if_pos hconstants]
      exact hall.trans halone.symm
    · simp [fromConstants, constantViolations, hconstants]
  · simp [fromConstants, henabled]

/-! ## The whole list -/

/-- Languages do not interfere: the violations whose primary file has a language are those of the
files of that language alone, in the same order. -/
theorem filter_detectDuplicates_language (files : List AnalyzedFile) (config : Config)
    (suppressed : List Location) (hpaths : (files.map (·.path)).Nodup) (language : Language) :
    (detectDuplicates files config suppressed).filter (isPrimaryIn files language) =
      detectDuplicates (files.filter fun f => f.language = language) config suppressed := by
  have hfilters (files : List AnalyzedFile) : (filtersOf config).Recalls files :=
    FilterRegistry.recalls_builtIn files _
  have hblocks := filter_fromBlocks hpaths config hfilters suppressed language
  have hconstants := filter_fromConstants hpaths config suppressed language
  rw [detectDuplicates, detectDuplicates, detectWith_eq, detectWith_eq, sortViolations,
    Clone.filter_mergeSort Violation.le_trans Violation.le_total, List.filter_append, hblocks,
    hconstants]
  rfl

/-- A configuration for blocks of two tokens with the filters switched off. -/
def unfilteredConfig : Config :=
  { windowConfig 2 with
    duplicates := { (windowConfig 2).duplicates with
      filters := [(.keywordArgument, false), (.importGroup, false)] } }

/-- The assignment files with two files of another language between them. -/
def twoLanguageFiles : List AnalyzedFile :=
  [assignmentFile [3], { assignmentFile [4] with language := .ruby }, assignmentFile [1],
    { assignmentFile [2] with language := .ruby }]

theorem filtersOf_unfilteredConfig : filtersOf unfilteredConfig =
    ⟨[.keywordArgument FilterRegistry.defaultShare [], .importGroup []], []⟩ :=
  rfl

/-- The block and the constant of the one language, and the block of the other. -/
theorem filter_detectDuplicates_twoLanguageFiles :
    (detectDuplicates twoLanguageFiles unfilteredConfig []).map (·.locations) =
        [[⟨[1], 1, 1⟩, ⟨[3], 1, 1⟩], [⟨[1], 1, 1⟩, ⟨[3], 1, 1⟩],
          [⟨[2], 1, 1⟩, ⟨[4], 1, 1⟩]] ∧
      (detectDuplicates twoLanguageFiles unfilteredConfig []).filter
          (isPrimaryIn twoLanguageFiles .python) =
        detectDuplicates (twoLanguageFiles.filter fun f => f.language = .python)
          unfilteredConfig [] := by
  refine ⟨?_, filter_detectDuplicates_language _ _ _ (by decide) _⟩
  rw [detectDuplicates, filtersOf_unfilteredConfig]
  -- the share of the filter that is switched off is not looked at
  generalize FilterRegistry.defaultShare = share
  cbv

end Detect

end CloneScan
