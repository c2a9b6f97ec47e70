import CloneScan.Proofs.LanguageSeparation

/-!
# The place that filters look at

A cluster lists its occurrences file by file in the order of the files, and a violation lists them
by path.  The filters are asked before the violation is made, so they judge the first place in the
file that was listed first, which need not be the primary place.  Both are one place when the files
are listed by path.  In any other order the answer depends on what the filters say of the first
place of each file.
-/

namespace CloneScan

namespace Detect

variable {files files' group group' : List AnalyzedFile} {config : Config}
  {suppressed : SuppressedRanges} {language : Language} {c c' : Cluster}

/-! ## The order of the occurrences -/

def indexedFiles (config : Config) (group : List AnalyzedFile) : List IndexedFile :=
  group.map (indexed config.duplicates.normalize)

theorem hasKeyHashes_indexedFiles (hhashes : HasTokenHashes files config)
    (hgroup : ∀ f ∈ group, f ∈ files ∧ f.language = language) :
    Cluster.HasKeyHashes (indexedFiles config group) (config.thresholds language).tokens := by
  intro g hg
  obtain ⟨f, hf, rfl⟩ := List.mem_map.mp hg
  obtain ⟨hmem, hlanguage⟩ := hgroup f hf
  simp [indexed, hhashes f hmem, hlanguage]

/-- The occurrences of a cluster are those at some places, which stand in the order of the files and
within a file in that of the tokens. -/
structure Lists (config : Config) (suppressed : SuppressedRanges) (group : List AnalyzedFile)
    (places : List Member) (c : Cluster) : Prop where
  ne_nil : places ≠ []
  occurrences_eq : c.occurrences = Cluster.occurrencesAt (indexedFiles config group) places
  ordered : places.Pairwise fun m n =>
    m.file < n.file ∨ m.file = n.file ∧ m.start < n.start ∧ m.stop < n.stop
  bounded : ∀ m ∈ places, ∃ f, group[m.file]? = some f ∧ m.start ≤ m.stop ∧
    m.stop < f.tokens.length
  unsuppressed : ∀ m ∈ places,
    suppressed.covers (Cluster.locate (indexedFiles config group).toArray m) = false

theorem exists_lists
    (hhashes : Cluster.HasKeyHashes (indexedFiles config group) (config.thresholds language).tokens)
    (hc : c ∈ clusters config suppressed language group) :
    ∃ places, Lists config suppressed group places c := by
  have hpos := tokens_pos_of_mem_clusters hc
  obtain ⟨b, hb, rfl⟩ := Cluster.mem_findClusters.mp hc
  obtain ⟨hdup, hlength, hkeep⟩ := Clone.findBlocks_sound (hhashes.hasWindowHashes hpos) hpos hb
  have hsome : b.members ≠ [] := by
    intro hnil
    have htwo := hdup.two_le
    simp [hnil] at htwo
  refine ⟨b.members, hsome, rfl, hdup.ordered.imp_of_mem ?_, ?_, ?_⟩
  · intro m n hm hn hmn
    have hm := hdup.spans m hm
    have hn := hdup.spans n hn
    simp only [Member.Before] at hmn
    omega
  · intro m hm
    obtain ⟨g, hg, hstop⟩ := Cluster.exists_file_of_lt_keyCount (hdup.bounded m hm)
    rw [indexedFiles, List.getElem?_map] at hg
    obtain ⟨f, hf, rfl⟩ := Option.map_eq_some_iff.mp hg
    have hspan := hdup.spans m hm
    have hsize : m.stop < f.tokens.length := by simpa [indexed, tokenKeys] using hstop
    exact ⟨f, hf, by omega, hsize⟩
  · intro m hm
    simpa [indexedFiles] using hkeep m hm

theorem locate_indexedFiles {m : Member} {f : AnalyzedFile} (hf : group[m.file]? = some f) :
    Cluster.locate (indexedFiles config group).toArray m =
      ⟨f.path, Cluster.firstLine (indexed config.duplicates.normalize f) m.start,
        Cluster.lastLine (indexed config.duplicates.normalize f) m.stop⟩ := by
  simp [Cluster.locate, indexedFiles, hf, indexed]

theorem index_eq_of_path_eq (hpaths : (group.map (·.path)).Nodup) {i j : Nat}
    {f g : AnalyzedFile} (hf : group[i]? = some f) (hg : group[j]? = some g)
    (hpath : f.path = g.path) : i = j := by
  obtain ⟨hi, rfl⟩ := List.getElem?_eq_some_iff.mp hf
  obtain ⟨hj, rfl⟩ := List.getElem?_eq_some_iff.mp hg
  have hfile := List.inj_on_of_nodup_map hpaths (List.getElem_mem hi) (List.getElem_mem hj) hpath
  exact hpaths.of_map.getElem_inj_iff.mp hfile

namespace Lists

variable {places places' : List Member}

theorem withoutSuppressed_eq (h : Lists config suppressed group places c) :
    c.withoutSuppressed suppressed = c := by
  have hkept : c.occurrences.filter (fun o => !suppressed.covers o.location) = c.occurrences := by
    rw [List.filter_eq_self, h.occurrences_eq]
    intro o ho
    obtain ⟨m, hm, rfl⟩ := List.mem_map.mp ho
    simp [h.unsuppressed m hm]
  rw [Cluster.withoutSuppressed, hkept]

theorem pairwise_startToken (hpaths : (group.map (·.path)).Nodup)
    (h : Lists config suppressed group places c) :
    c.occurrences.Pairwise fun o p =>
      o.location.file = p.location.file → o.startToken < p.startToken := by
  rw [h.occurrences_eq, Cluster.occurrencesAt, List.pairwise_map]
  apply h.ordered.imp_of_mem
  intro m n hm hn hmn hfile
  obtain ⟨f, hf, -⟩ := h.bounded m hm
  obtain ⟨g, hg, -⟩ := h.bounded n hn
  rw [locate_indexedFiles hf, locate_indexedFiles hg] at hfile
  have hsame := index_eq_of_path_eq hpaths hf hg hfile
  change m.start < n.start
  omega

/-- The occurrences in a file are listed alike whatever the order of the files. -/
theorem filter_file_eq (hpaths : (group.map (·.path)).Nodup) (hpaths' : (group'.map (·.path)).Nodup)
    (h : Lists config suppressed group places c) (h' : Lists config suppressed group' places' c')
    (hperm : c'.occurrences.Perm c.occurrences) (path : Text) :
    c'.occurrences.filter (·.location.file == path) =
      c.occurrences.filter (·.location.file == path) := by
  have hordered {d : Cluster} (hd : d.occurrences.Pairwise fun o p =>
      o.location.file = p.location.file → o.startToken < p.startToken) :
      (d.occurrences.filter (·.location.file == path)).Pairwise
        fun o p => o.startToken < p.startToken := by
    apply (hd.filter _).imp_of_mem
    intro o p ho hp hop
    have ho : o.location.file = path := by simpa using (List.mem_filter.mp ho).2
    have hp : p.location.file = path := by simpa using (List.mem_filter.mp hp).2
    exact hop (ho.trans hp.symm)
  apply (hperm.filter _).eq_of_pairwise _ (hordered (h'.pairwise_startToken hpaths'))
    (hordered (h.pairwise_startToken hpaths))
  intro o p _ _ hop hpo
  omega

/-- When the first file has an occurrence, the list starts with one of that file. -/
theorem file_head {f : AnalyzedFile} {rest : List AnalyzedFile}
    (h : Lists config suppressed (f :: rest) places c) (hpaths : ((f :: rest).map (·.path)).Nodup)
    {first : Occurrence} {others : List Occurrence} (hfirst : c.occurrences = first :: others)
    {o : Occurrence} (ho : o ∈ c.occurrences) (hfile : o.location.file = f.path) :
    first.location.file = f.path := by
  have hbefore : c.occurrences.Pairwise fun o p =>
      p.location.file = f.path → o.location.file = f.path := by
    rw [h.occurrences_eq, Cluster.occurrencesAt, List.pairwise_map]
    apply h.ordered.imp_of_mem
    intro m n hm hn hmn hlater
    obtain ⟨g, hg, -⟩ := h.bounded m hm
    obtain ⟨k, hk, -⟩ := h.bounded n hn
    rw [locate_indexedFiles hg]
    rw [locate_indexedFiles hk] at hlater
    have hn := index_eq_of_path_eq hpaths hk List.getElem?_cons_zero hlater
    have hm : m.file = 0 := by omega
    rw [hm, List.getElem?_cons_zero] at hg
    exact congrArg AnalyzedFile.path (Option.some.inj hg).symm
  rw [hfirst] at hbefore ho
  rcases List.mem_cons.mp ho with rfl | ho
  · exact hfile
  · exact (List.pairwise_cons.mp hbefore).1 o ho hfile

/-- Files that are listed by path give places in the order of reports. -/
theorem pairwise_le (h : Lists config suppressed group places c)
    (hordered : group.Pairwise fun f g => f.path < g.path)
    (hlines : ∀ f ∈ group, Cluster.LinesAscend (indexed config.duplicates.normalize f)) :
    c.places.Pairwise fun a b => Location.le a b = true := by
  rw [Cluster.places, h.occurrences_eq, Cluster.occurrencesAt, List.map_map, List.pairwise_map]
  apply h.ordered.imp_of_mem
  intro m n hm hn hmn
  obtain ⟨f, hf, hm, hstop⟩ := h.bounded m hm
  obtain ⟨g, hg, hn, hstop'⟩ := h.bounded n hn
  simp only [Function.comp_apply, locate_indexedFiles hf, locate_indexedFiles hg]
  rw [Location.le_iff_precedes, Location.Precedes]
  rcases hmn with hfile | ⟨hfile, hstart, hend⟩
  · obtain ⟨hi, rfl⟩ := List.getElem?_eq_some_iff.mp hf
    obtain ⟨hj, rfl⟩ := List.getElem?_eq_some_iff.mp hg
    exact .inl (List.pairwise_iff_getElem.mp hordered _ _ hi hj hfile)
  · obtain rfl : f = g := Option.some.inj (hf.symm.trans (hfile ▸ hg))
    have hsize : (indexed config.duplicates.normalize f).tokens.size = f.tokens.length := by
      simp [indexed]
    have hascend := hlines f (List.mem_of_getElem? hf)
    have hfirst := (hascend.lines_le hstart.le (by omega)).1
    have hlast := (hascend.lines_le hend.le (by omega)).2
    exact .inr ⟨rfl, hfirst.lt_or_eq.imp_right fun hsame => ⟨hsame, hlast⟩⟩

theorem places_ne_nil (h : Lists config suppressed group places c) : c.places ≠ [] := by
  simp [Cluster.places, h.occurrences_eq, Cluster.occurrencesAt, h.ne_nil]

theorem find?_file_eq (hpaths : (group.map (·.path)).Nodup)
    (hpaths' : (group'.map (·.path)).Nodup) (h : Lists config suppressed group places c)
    (h' : Lists config suppressed group' places' c') (hperm : c'.occurrences.Perm c.occurrences)
    (path : Text) :
    c'.places.find? (·.file == path) = c.places.find? (·.file == path) := by
  have hfind (d : Cluster) : d.places.find? (·.file == path) =
      ((d.occurrences.filter (·.location.file == path)).head?).map (·.location) := by
    rw [List.head?_filter, Cluster.places, List.find?_map]
    rfl
  rw [hfind, hfind, filter_file_eq hpaths hpaths' h h' hperm]

end Lists

/-! ## The answer of the filters -/

/-- What the filters say of a block at these places of the files. -/
def filtersOut (filters : FilterRegistry) (files : List AnalyzedFile) (language : Language)
    (places : List Location) : Bool :=
  (filters.shouldFilter places (context files language)).1

/-- A cluster of the same files in some order that has the occurrences of a given one. -/
structure Reordered (files : List AnalyzedFile) (config : Config) (suppressed : SuppressedRanges)
    (language : Language) (c : Cluster) (files' : List AnalyzedFile) (c' : Cluster) : Prop where
  files_perm : files.Perm files'
  mem_clusters :
    c' ∈ clusters config suppressed language (files'.filter fun f => f.language = language)
  occurrences_perm : c'.occurrences.Perm c.occurrences

variable {filters : FilterRegistry}

theorem recalls_perm (hperm : files.Perm files') (hfilters : filters.Recalls files) :
    filters.Recalls files' := by
  intro filter hfilter
  have h := (BlockFilter.recalls_iff files filter).mp (hfilters filter hfilter)
  apply (BlockFilter.recalls_iff files' filter).mpr
  apply h.mono
  · rintro path x ⟨f, hf, hshown⟩
    exact ⟨f, hperm.mem_iff.mp hf, hshown⟩
  · rintro path x ⟨f, hf, hshown⟩
    exact ⟨f, hperm.mem_iff.mp hf, hshown⟩

theorem filtersOut_cons (hpaths : (files.map (·.path)).Nodup) (hfilters : filters.Recalls files)
    {f : AnalyzedFile} (hf : f ∈ files) {l : Location} (hfile : l.file = f.path)
    (others : List Location) :
    filtersOut filters files f.language (l :: others) = filters.drops f l :=
  (FilterRegistry.shouldFilter_spec hpaths hf hfile hfilters others).1

/-- The order of the files does not matter to the answer at given places. -/
theorem filtersOut_perm (hpaths : (files.map (·.path)).Nodup) (hfilters : filters.Recalls files)
    (hperm : files.Perm files') {l : Location}
    (hl : ∃ f ∈ files, f.language = language ∧ l.file = f.path) (others others' : List Location) :
    filtersOut filters files' language (l :: others') =
      filtersOut filters files language (l :: others) := by
  obtain ⟨f, hf, rfl, hfile⟩ := hl
  have hpaths' : (files'.map (·.path)).Nodup := (hperm.map _).nodup_iff.mp hpaths
  rw [filtersOut_cons hpaths hfilters hf hfile,
    filtersOut_cons hpaths' (recalls_perm hperm hfilters) (hperm.mem_iff.mp hf) hfile]

theorem exists_reordered (hhashes : HasTokenHashes files config)
    (hc : c ∈ clusters config suppressed language (files.filter fun f => f.language = language))
    (hperm : files.Perm files') : ∃ c', Reordered files config suppressed language c files' c' := by
  have hgroup : (indexedFiles config (files.filter fun f => f.language = language)).Perm
      (indexedFiles config (files'.filter fun f => f.language = language)) :=
    (hperm.filter _).map _
  have hkeys : Cluster.HasKeyHashes
      (indexedFiles config (files.filter fun f => f.language = language))
      (config.thresholds language).tokens :=
    hasKeyHashes_indexedFiles hhashes fun f hf => by simpa using hf
  have hclusters := Cluster.findClusters_perm_map
    (f := fun d => (d.occurrences : Multiset Occurrence))
    (fun d e _ h => Multiset.coe_eq_coe.mpr h) hgroup hkeys fun l => !suppressed.covers l
  obtain ⟨c', hc', hsame⟩ := List.mem_map.mp (hclusters.mem_iff.mp (List.mem_map_of_mem hc))
  exact ⟨c', hperm, hc', Multiset.coe_eq_coe.mp hsame⟩

namespace Reordered

theorem refl (hc : c ∈ clusters config suppressed language
    (files.filter fun f => f.language = language)) :
    Reordered files config suppressed language c files c :=
  ⟨List.Perm.refl _, hc, List.Perm.refl _⟩

theorem exists_lists (h : Reordered files config suppressed language c files' c')
    (hhashes : HasTokenHashes files config) : ∃ places,
      Lists config suppressed (files'.filter fun f => f.language = language) places c' := by
  apply Detect.exists_lists _ h.mem_clusters
  have hhashes' : HasTokenHashes files' config := fun f hf =>
    hhashes f (h.files_perm.mem_iff.mpr hf)
  apply hasKeyHashes_indexedFiles hhashes'
  intro f hf
  simpa using hf

theorem nodup_paths (h : Reordered files config suppressed language c files' c')
    (hpaths : (files.map (·.path)).Nodup) :
    ((files'.filter fun f => f.language = language).map (·.path)).Nodup :=
  ((h.files_perm.map _).nodup_iff.mp hpaths).sublist (List.filter_sublist.map _)

theorem places_perm (h : Reordered files config suppressed language c files' c') :
    c'.places.Perm c.places :=
  h.occurrences_perm.map _

theorem exists_file (h : Reordered files config suppressed language c files' c') {l : Location}
    (hl : l ∈ c'.places) : ∃ f ∈ files, f.language = language ∧ l.file = f.path := by
  obtain ⟨f, hf, hfile⟩ := liesWithin_of_mem_clusters h.mem_clusters hl
  obtain ⟨hmem, hlanguage⟩ : f ∈ files' ∧ f.language = language := by simpa using hf
  exact ⟨f, h.files_perm.mem_iff.mpr hmem, hlanguage, hfile⟩

/-- The first place of the cluster is the first one of its file, and it gives the answer. -/
theorem exists_first (h : Reordered files config suppressed language c files' c')
    (hc : c ∈ clusters config suppressed language (files.filter fun f => f.language = language))
    (hpaths : (files.map (·.path)).Nodup) (hhashes : HasTokenHashes files config)
    (hfilters : filters.Recalls files) :
    ∃ l others, c'.places = l :: others ∧ c.places.find? (·.file == l.file) = some l ∧
      filtersOut filters files' language c'.places = filtersOut filters files language [l] := by
  obtain ⟨members, hlists⟩ := (refl hc).exists_lists hhashes
  obtain ⟨members', hlists'⟩ := h.exists_lists hhashes
  obtain ⟨l, others, hplaces⟩ := List.exists_cons_of_ne_nil hlists'.places_ne_nil
  refine ⟨l, others, hplaces, ?_, ?_⟩
  · rw [← Lists.find?_file_eq ((refl hc).nodup_paths hpaths) (h.nodup_paths hpaths) hlists hlists'
      h.occurrences_perm, hplaces]
    simp
  · rw [hplaces]
    apply filtersOut_perm hpaths hfilters h.files_perm
    exact h.exists_file (hplaces ▸ List.mem_cons_self)

theorem filtersOut_reported (h : Reordered files config suppressed language c files' c')
    (hpaths : (files.map (·.path)).Nodup) (hfilters : filters.Recalls files) (level : RuleLevel) :
    filtersOut filters files' language (buildViolation c' level).locations =
      filtersOut filters files language (buildViolation c level).locations := by
  rw [locations_buildViolation, locations_buildViolation,
    Location.mergeSort_eq_of_perm h.places_perm]
  cases hsorted : c.places.mergeSort Location.le with
  | nil => rfl
  | cons l others =>
      apply filtersOut_perm hpaths hfilters h.files_perm
      apply h.exists_file
      have hl : l ∈ c.places.mergeSort Location.le := hsorted ▸ List.mem_cons_self
      exact h.places_perm.mem_iff.mpr (List.mem_mergeSort.mp hl)

/-- In the order of the paths the cluster lists its places as the violation does. -/
theorem places_eq_reported (h : Reordered files config suppressed language c files' c')
    (hhashes : HasTokenHashes files config)
    (hlines : ∀ f ∈ files, Cluster.LinesAscend (indexed config.duplicates.normalize f))
    (hordered : files'.Pairwise fun f g => f.path < g.path) (level : RuleLevel) :
    c'.places = (buildViolation c' level).locations := by
  obtain ⟨members', hlists'⟩ := h.exists_lists hhashes
  have hsorted := hlists'.pairwise_le (hordered.filter _) fun f hf =>
    hlines f (h.files_perm.mem_iff.mpr (List.mem_of_mem_filter hf))
  rw [locations_buildViolation, List.mergeSort_of_pairwise hsorted]

end Reordered

/-- The first place of any file comes first in some order of the files. -/
theorem exists_reordered_first
    (hc : c ∈ clusters config suppressed language (files.filter fun f => f.language = language))
    (hpaths : (files.map (·.path)).Nodup) (hhashes : HasTokenHashes files config)
    (hfilters : filters.Recalls files) {path : Text} {l : Location}
    (hl : c.places.find? (·.file == path) = some l) :
    ∃ files' c', Reordered files config suppressed language c files' c' ∧
      filtersOut filters files' language c'.places = filtersOut filters files language [l] := by
  have hfile : l.file = path := by simpa using List.find?_some hl
  have hmem := List.mem_of_find?_eq_some hl
  obtain ⟨f, hf, hlanguage, hpath⟩ := (Reordered.refl hc).exists_file hmem
  obtain ⟨before, behind, rfl⟩ := List.append_of_mem hf
  -- with the file of the place in front the cluster starts in that file
  obtain ⟨c', h⟩ := exists_reordered hhashes hc
    (List.perm_middle : (before ++ f :: behind).Perm (f :: (before ++ behind)))
  obtain ⟨first, others, hplaces, hfind, hanswer⟩ := h.exists_first hc hpaths hhashes hfilters
  obtain ⟨members', hlists'⟩ := h.exists_lists hhashes
  refine ⟨_, c', h, ?_⟩
  have hgroup : (f :: (before ++ behind)).filter (fun f => f.language = language) =
      f :: (before ++ behind).filter fun f => f.language = language :=
    List.filter_cons_of_pos (by simpa using hlanguage)
  have hpaths' := h.nodup_paths hpaths
  rw [hgroup] at hlists' hpaths'
  obtain ⟨o, ho, hplace⟩ := List.mem_map.mp (h.places_perm.mem_iff.mpr hmem)
  cases hoccurrences : c'.occurrences with
  | nil => simp [hoccurrences] at ho
  | cons first' others' =>
      have hhead : first'.location = first := by
        rw [Cluster.places, hoccurrences] at hplaces
        exact (List.cons.inj hplaces).1
      have hfirst : first.file = path := by
        rw [← hhead, hlists'.file_head hpaths' hoccurrences ho (hplace ▸ hpath), ← hpath, hfile]
      rw [hfirst, hl] at hfind
      rw [hanswer, Option.some.inj hfind]

theorem exists_perm_by_path (hpaths : (files.map (·.path)).Nodup) :
    ∃ files', files.Perm files' ∧ files'.Pairwise fun f g => f.path < g.path := by
  let start (f : AnalyzedFile) : Location := ⟨f.path, 0, 0⟩
  have hperm := List.mergeSort_perm files fun f g => Location.le (start f) (start g)
  refine ⟨_, hperm.symm, ?_⟩
  have hsorted : (files.mergeSort fun f g => Location.le (start f) (start g)).Pairwise
      fun f g => Location.le (start f) (start g) = true :=
    List.pairwise_mergeSort
      (fun f g k => Location.le_trans (start f) (start g) (start k))
      (fun f g => Location.le_total (start f) (start g)) files
  have hnodup := List.pairwise_map.mp ((hperm.map (·.path)).nodup_iff.mpr hpaths)
  apply (hsorted.and hnodup).imp
  rintro f g ⟨hle, hne⟩
  rcases Location.le_iff_precedes.mp hle with hlt | ⟨heq, -⟩
  · exact hlt
  · exact absurd heq hne

/-- The filters say of the first place in each file what they say of the places of the violation. -/
def AgreeOnFirsts (filters : FilterRegistry) (files : List AnalyzedFile) (language : Language)
    (level : RuleLevel) (c : Cluster) : Prop :=
  ∀ path l, c.places.find? (·.file == path) = some l →
    filtersOut filters files language [l] =
      filtersOut filters files language (buildViolation c level).locations

section

variable (hc : c ∈ clusters config suppressed language (files.filter fun f => f.language = language))
  (hpaths : (files.map (·.path)).Nodup) (hhashes : HasTokenHashes files config)
  (hlines : ∀ f ∈ files, Cluster.LinesAscend (indexed config.duplicates.normalize f))
  (hfilters : filters.Recalls files) (level : RuleLevel)

include hc hpaths hhashes hfilters

theorem AgreeOnFirsts.filtersOut_eq (hagree : AgreeOnFirsts filters files language level c)
    (h : Reordered files config suppressed language c files' c') :
    filtersOut filters files' language c'.places =
      filtersOut filters files language (buildViolation c level).locations := by
  obtain ⟨l, others, -, hfind, hanswer⟩ := h.exists_first hc hpaths hhashes hfilters
  rw [hanswer]
  exact hagree _ _ hfind

theorem agreeOnFirsts_of_reported
    (hall : ∀ files' c', Reordered files config suppressed language c files' c' →
      filtersOut filters files' language c'.places =
        filtersOut filters files' language (buildViolation c' level).locations) :
    AgreeOnFirsts filters files language level c := by
  intro path l hl
  obtain ⟨files', c', h, hanswer⟩ := exists_reordered_first hc hpaths hhashes hfilters hl
  rw [← hanswer, hall files' c' h, h.filtersOut_reported hpaths hfilters level]

include hlines

theorem agreeOnFirsts_of_same
    (hall : ∀ files' c', Reordered files config suppressed language c files' c' →
      filtersOut filters files' language c'.places = filtersOut filters files language c.places) :
    AgreeOnFirsts filters files language level c := by
  intro path l hl
  obtain ⟨files', c', h, hanswer⟩ := exists_reordered_first hc hpaths hhashes hfilters hl
  -- the order by path has the answer on the primary place
  obtain ⟨sorted, hperm, hordered⟩ := exists_perm_by_path hpaths
  obtain ⟨d, hd⟩ := exists_reordered hhashes hc hperm
  have hprimary := hall sorted d hd
  rw [hd.places_eq_reported hhashes hlines hordered level,
    hd.filtersOut_reported hpaths hfilters level] at hprimary
  rw [← hanswer, hall files' c' h, hprimary]

end

/-- Filters look at a cluster as it is listed, with its suppressed occurrences left out, and the
violation lists its places by path.  Files that stand in the order of their paths make both one.
In every order the filters say what they say of the violation, or at least the same in every order,
exactly when they say of the first place in each file what they say of the primary one. -/
theorem filters_judge_primary_iff (files : List AnalyzedFile) (config : Config)
    (suppressed : SuppressedRanges) (language : Language) (filters : FilterRegistry)
    (hpaths : (files.map (·.path)).Nodup) (hhashes : HasTokenHashes files config)
    (hlines : ∀ f ∈ files, Cluster.LinesAscend (indexed config.duplicates.normalize f))
    (hfilters : filters.Recalls files) (c : Cluster)
    (hc : c ∈ clusters config suppressed language (files.filter fun f => f.language = language)) :
    (∀ files' c', Reordered files config suppressed language c files' c' →
      (files'.Pairwise fun f g => f.path < g.path) →
        filtersOut filters files' language (c'.withoutSuppressed suppressed).places =
          filtersOut filters files' language
            (buildViolation (c'.withoutSuppressed suppressed) config.rule.level).locations) ∧
    ((∀ files' c', Reordered files config suppressed language c files' c' →
        filtersOut filters files' language (c'.withoutSuppressed suppressed).places =
          filtersOut filters files' language
            (buildViolation (c'.withoutSuppressed suppressed) config.rule.level).locations) ↔
      AgreeOnFirsts filters files language config.rule.level (c.withoutSuppressed suppressed)) ∧
    ((∀ files' c', Reordered files config suppressed language c files' c' →
        filtersOut filters files' language (c'.withoutSuppressed suppressed).places =
          filtersOut filters files language (c.withoutSuppressed suppressed).places) ↔
      AgreeOnFirsts filters files language config.rule.level (c.withoutSuppressed suppressed)) := by
  -- the search has left out the suppressed occurrences already
  have hkept {files' : List AnalyzedFile} {c' : Cluster}
      (h : Reordered files config suppressed language c files' c') :
      c'.withoutSuppressed suppressed = c' := by
    obtain ⟨members, hlists⟩ := h.exists_lists hhashes
    exact hlists.withoutSuppressed_eq
  rw [hkept (Reordered.refl hc)]
  refine ⟨?_, ⟨?_, ?_⟩, ⟨?_, ?_⟩⟩
  · intro files' c' h hordered
    rw [hkept h, ← h.places_eq_reported hhashes hlines hordered]
  · intro hall
    apply agreeOnFirsts_of_reported hc hpaths hhashes hfilters
    intro files' c' h
    simpa only [hkept h] using hall files' c' h
  · intro hagree files' c' h
    rw [hkept h, hagree.filtersOut_eq hc hpaths hhashes hfilters _ h,
      h.filtersOut_reported hpaths hfilters]
  · intro hall
    apply agreeOnFirsts_of_same hc hpaths hhashes hlines hfilters
    intro files' c' h
    simpa only [hkept h] using hall files' c' h
  · intro hagree files' c' h
    rw [hkept h, hagree.filtersOut_eq hc hpaths hhashes hfilters _ h,
      hagree.filtersOut_eq hc hpaths hhashes hfilters _ (Reordered.refl hc)]

/-- In a file without a call over several lines the built-in filters look at imports alone. -/
theorem drops_builtIn {f : AnalyzedFile} (hcalls : multiLineCalls f.tokens = []) {l : Location}
    (hfile : l.file = f.path) : (FilterRegistry.builtIn fun _ => false).drops f l =
      onlyMarked ⟨l.startLine, l.endLine⟩ (importLines f.source (some f.language)) 1
        f.source.lines := by
  have hfilters : FilterRegistry.builtIn (fun _ => false) =
      ⟨[.keywordArgument FilterRegistry.defaultShare [], .importGroup []],
        [.keywordArgument, .importGroup]⟩ := rfl
  have hkeywords : (BlockFilter.keywordArgument FilterRegistry.defaultShare []).drops f l =
      false := by
    simp [BlockFilter.drops_eq_verdict _ hfile, BlockFilter.verdict, hcalls, coveredBy]
  have himports : (BlockFilter.importGroup []).drops f l = onlyMarked ⟨l.startLine, l.endLine⟩
      (importLines f.source (some f.language)) 1 f.source.lines :=
    BlockFilter.drops_eq_verdict _ hfile
  rw [hfilters]
  simp [FilterRegistry.drops, BlockFilter.name, hkeywords, himports]

/-- An import on one line, or with a line end behind its keyword. -/
def importFile (path : Text) (broken : Bool) : AnalyzedFile where
  path := path
  language := .typescript
  source := Text.ofString (if broken then "import\n\"a\";" else "import \"a\";")
  tokens :=
    let value : Position := if broken then ⟨1, 0⟩ else ⟨0, 7⟩
    [.make (Text.ofString "import") .keyword ⟨0, 0⟩ ⟨0, 6⟩,
      .make (Text.ofString "\"a\"") .string value ⟨value.line, value.column + 3⟩,
      .make [0x3B] .symbol ⟨value.line, value.column + 3⟩ ⟨value.line, value.column + 4⟩]
  hashes := (windowHashes [Text.ofString "import", Text.ofString "\"a\"", [0x3B]] 3).map (·.toNat)

def importFiles : List AnalyzedFile :=
  [importFile [2] false, importFile [1] true]

/-- The import of both files. -/
def importCluster : Cluster where
  tokens := (importFile [2] false).tokens
  tokenCount := 3
  occurrences := [⟨⟨[2], 1, 1⟩, 0, 2⟩, ⟨⟨[1], 1, 2⟩, 0, 2⟩]

theorem clusters_importFiles : clusters (windowConfig 3) [] .typescript
    (importFiles.filter fun f => f.language = .typescript) = [importCluster] := by
  cbv

theorem nodup_importFiles : (importFiles.map (·.path)).Nodup := by
  decide

/-- The place that is listed first is an import, and the primary place goes on behind one. -/
theorem filtersOut_importCluster :
    filtersOut (filtersOf (windowConfig 3)) importFiles .typescript
        (importCluster.withoutSuppressed []).places = true ∧
      filtersOut (filtersOf (windowConfig 3)) importFiles .typescript
        (buildViolation (importCluster.withoutSuppressed []) .warning).locations = false := by
  have hanswer {path : Text} (broken : Bool) (hmem : importFile path broken ∈ importFiles)
      (start stop : Int) (others : List Location) :
      filtersOut (filtersOf (windowConfig 3)) importFiles .typescript
          (⟨path, start, stop⟩ :: others) =
        onlyMarked ⟨start, stop⟩ (importLines (importFile path broken).source (some .typescript)) 1
          (importFile path broken).source.lines := by
    have hcalls : multiLineCalls (importFile path broken).tokens = [] := by
      cases broken <;> rfl
    exact (filtersOut_cons nodup_importFiles (FilterRegistry.recalls_builtIn _ _) hmem rfl
      others).trans (drops_builtIn hcalls rfl)
  have hlisted : (importCluster.withoutSuppressed []).places = [⟨[2], 1, 1⟩, ⟨[1], 1, 2⟩] := by
    decide
  have hreported : (buildViolation (importCluster.withoutSuppressed []) .warning).locations =
      [⟨[1], 1, 2⟩, ⟨[2], 1, 1⟩] := by
    cbv
  rw [hlisted, hreported]
  constructor
  · rw [hanswer false List.mem_cons_self]
    decide
  · rw [hanswer true (List.mem_cons_of_mem _ List.mem_cons_self)]
    decide

theorem linesAscend_importFiles :
    ∀ f ∈ importFiles, Cluster.LinesAscend (indexed (windowConfig 3).duplicates.normalize f) := by
  have hlines : ∀ f ∈ importFiles,
      f.tokens.Pairwise fun a b => a.startLine ≤ b.startLine ∧ a.endLine ≤ b.endLine := by
    decide
  exact hlines

/-- The order by path keeps the import, so some order of the files changes the answer. -/
theorem filters_judge_primary_importFiles :
    (∀ files' c', Reordered importFiles (windowConfig 3) [] .typescript importCluster files' c' →
      (files'.Pairwise fun f g => f.path < g.path) →
        filtersOut (filtersOf (windowConfig 3)) files' .typescript
            (c'.withoutSuppressed []).places =
          filtersOut (filtersOf (windowConfig 3)) files' .typescript
            (buildViolation (c'.withoutSuppressed []) .warning).locations) ∧
      ¬ ∀ files' c', Reordered importFiles (windowConfig 3) [] .typescript importCluster files' c' →
        filtersOut (filtersOf (windowConfig 3)) files' .typescript
            (c'.withoutSuppressed []).places =
          filtersOut (filtersOf (windowConfig 3)) importFiles .typescript
            (importCluster.withoutSuppressed []).places := by
  have hc : importCluster ∈ clusters (windowConfig 3) [] .typescript
      (importFiles.filter fun f => f.language = .typescript) := by
    rw [clusters_importFiles]
    exact List.mem_cons_self
  obtain ⟨hordered, hreported, hsame⟩ := filters_judge_primary_iff importFiles (windowConfig 3) []
    .typescript (filtersOf (windowConfig 3)) nodup_importFiles (by decide) linesAscend_importFiles
    (FilterRegistry.recalls_builtIn _ _) importCluster hc
  refine ⟨hordered, fun hall => ?_⟩
  have hequal := hreported.mpr (hsame.mp hall) importFiles importCluster (Reordered.refl hc)
  obtain ⟨hlisted, hviolation⟩ := filtersOut_importCluster
  rw [hlisted] at hequal
  exact absurd (hequal.trans hviolation) (by decide)

/-- A cluster that meets the thresholds is dropped for the place that is listed first, and the place
that its violation would report is kept. -/
theorem filters_misjudge_importFiles :
    (importFiles.map (·.path)).Nodup ∧
      importCluster ∈ clusters (windowConfig 3) [] .typescript
        (importFiles.filter fun f => f.language = .typescript) ∧
      (importCluster.withoutSuppressed []).meets ((windowConfig 3).thresholds .typescript) = true ∧
      filtersOut (filtersOf (windowConfig 3)) importFiles .typescript
        (importCluster.withoutSuppressed []).places = true ∧
      filtersOut (filtersOf (windowConfig 3)) importFiles .typescript
        (buildViolation (importCluster.withoutSuppressed []) .warning).locations = false := by
  refine ⟨nodup_importFiles, ?_, by decide, filtersOut_importCluster⟩
  rw [clusters_importFiles]
  exact List.mem_cons_self

end Detect

end CloneScan
