import CloneScan.Proofs.FileOrder
import CloneScan.Proofs.NameComponents

/-!
# Reports of constants

A definition takes part when it starts where no bracket is open and its line is not suppressed.  The
definitions of one language fall into connected groups, and each group that lies in enough different
files is reported by one violation, which lists all its definitions.  Suppressed definitions are
left out before the groups are formed: they are not listed, not counted, and connect nothing.
-/

namespace CloneScan

namespace Constant

/-! ## Definitions at the top level -/

/-- The number of brackets that are open before token `i`. -/
def depthBefore (tokens : List Token) (i : Nat) : Nat :=
  (tokens.take i).foldl nextDepth 0

/-- The definition that starts at token `i` of a file, where no bracket is open. -/
def definitionAt? (f : ConstantSource) (i : Nat) : Option ConstantDefinition :=
  if depthBefore f.tokens i = 0 then
    (nameIndex? f.language f.tokens.toArray i).bind fun n =>
      readDefinition? f.tokens.toArray n f.source.lines f.path
  else none

theorem extractFrom_eq (f : ConstantSource) (front rest : List Token)
    (hsplit : front ++ rest = f.tokens) :
    extractFrom f.language f.tokens.toArray f.source.lines f.path
        (depthBefore f.tokens front.length) front.length rest =
      (List.range' front.length rest.length).filterMap (definitionAt? f) := by
  induction rest generalizing front with
  | nil => rfl
  | cons t rest ih =>
      have hsplit' : (front ++ [t]) ++ rest = f.tokens := by
        rw [List.append_assoc, List.singleton_append, hsplit]
      have hdepth : depthBefore f.tokens (front ++ [t]).length =
          nextDepth (depthBefore f.tokens front.length) t := by
        rw [depthBefore, depthBefore, ← hsplit', List.take_left, List.append_assoc, List.take_left,
          List.foldl_append]
        rfl
      have hrest := ih (front ++ [t]) hsplit'
      rw [hdepth, List.length_append, List.length_singleton] at hrest
      rw [extractFrom, hrest, List.length_cons, List.range'_succ, List.filterMap_cons]
      simp only [definitionAt?]
      cases hfound : (if depthBefore f.tokens front.length = 0 then
          (nameIndex? f.language f.tokens.toArray front.length).bind fun n =>
            readDefinition? f.tokens.toArray n f.source.lines f.path else none) with
      | none => rfl
      | some d => rfl

theorem extract_eq (f : ConstantSource) :
    extract f.language f.path f.source f.tokens =
      (List.range f.tokens.length).filterMap (definitionAt? f) := by
  rw [List.range_eq_range']
  exact extractFrom_eq f [] f.tokens rfl

/-! ## Definitions that take part -/

/-- The line of a definition lies in no suppressed range of its file. -/
def IsUnsuppressed (suppressed : SuppressedRanges) (d : ConstantDefinition) : Prop :=
  ∀ r ∈ suppressed.of d.file, ¬ (place d).SharesLine r

theorem isSpanSuppressed_place_iff {suppressed : SuppressedRanges} {d : ConstantDefinition} :
    isSpanSuppressed (place d) (suppressed.of d.file) = false ↔ IsUnsuppressed suppressed d := by
  constructor
  · intro h r hr
    exact not_sharesLine_of_not_suppressed h hr
  · intro h
    rw [isSpanSuppressed, List.any_eq_false]
    intro r hr hoverlaps
    simp only [Location.overlaps, Bool.and_eq_true, beq_iff_eq, decide_eq_true_eq] at hoverlaps
    obtain ⟨⟨hfile, hstart⟩, hend⟩ := hoverlaps
    exact h r hr ⟨hfile, d.line, ⟨le_rfl, le_rfl⟩, hend, hstart⟩

instance (suppressed : SuppressedRanges) : DecidablePred (IsUnsuppressed suppressed) :=
  fun _ => decidable_of_iff _ isSpanSuppressed_place_iff

/-- The definitions of the files of one language that are not suppressed. -/
def definitionsIn (files : List ConstantSource) (suppressed : SuppressedRanges)
    (language : Option Language) : List ConstantDefinition :=
  (files.filter fun f => f.language = language).flatMap fun f =>
    ((List.range f.tokens.length).filterMap (definitionAt? f)).filter fun d =>
      IsUnsuppressed suppressed d

theorem definitionsOf_eq (suppressed : SuppressedRanges) (f : ConstantSource) :
    definitionsOf suppressed f =
      ((List.range f.tokens.length).filterMap (definitionAt? f)).filter fun d =>
        IsUnsuppressed suppressed d := by
  rw [definitionsOf, ← extract_eq]
  refine List.filter_congr fun d hd => ?_
  have hfile : d.file = f.path := file_of_mem_extractFrom hd
  rw [← hfile, Bool.eq_iff_iff, Bool.not_eq_true', isSpanSuppressed_place_iff, decide_eq_true_iff]

/-! ## Connected groups -/

/-- One connected component of the definitions: the definitions whose names a chain of matching
names leads to, in their order. -/
structure IsComponent (definitions g : List ConstantDefinition) : Prop where
  inOrder : g = definitions.filter (· ∈ g)
  connected : ∃ d ∈ g, ∀ e ∈ definitions,
    e ∈ g ↔ ∃ chain, IsNameChain (definitions.map (·.name)) d.name e.name chain

theorem mem_groups_iff {definitions g : List ConstantDefinition} :
    g ∈ groups definitions ↔ IsComponent definitions g := by
  have hclasses := groups_areClasses definitions
  have hchain {d e : ConstantDefinition} (hd : d ∈ definitions) (he : e ∈ definitions) :
      e ∈ Clone.classIn (groupNumber definitions) definitions d ↔
        ∃ chain, IsNameChain (definitions.map (·.name)) d.name e.name chain := by
    rw [Clone.mem_classIn, ← linked_iff_exists_isNameChain (List.mem_map_of_mem hd),
      ← groupNumber_eq_iff hd he, eq_comm (a := groupNumber definitions e)]
    exact and_iff_right he
  constructor
  · intro hg
    refine ⟨(areComponents_groups definitions).inOrder g hg, ?_⟩
    obtain ⟨d, hd, rfl⟩ := hclasses.isClass g hg
    exact ⟨d, Clone.mem_classIn.mpr ⟨hd, rfl⟩, fun e he => hchain hd he⟩
  · rintro ⟨hinOrder, d, hdg, hconnected⟩
    have hd : d ∈ definitions := by
      rw [hinOrder] at hdg
      exact List.mem_of_mem_filter hdg
    have hclass := hclasses.complete d hd
    have hsame : g = Clone.classIn (groupNumber definitions) definitions d := by
      rw [hinOrder, (areComponents_groups definitions).inOrder _ hclass]
      refine List.filter_congr fun e he => ?_
      rw [decide_eq_decide, hconnected e he, hchain hd he]
    rwa [hsame]

theorem nodup_groups (definitions : List ConstantDefinition) : (groups definitions).Nodup := by
  have hcomponents := areComponents_groups definitions
  refine hcomponents.apart.imp_of_mem fun {g h} hg _ hapart hsame => ?_
  subst hsame
  obtain ⟨d, hd⟩ := List.exists_mem_of_ne_nil g (hcomponents.nonempty g hg)
  exact hapart hd hd

/-! ## The violation of a group -/

/-- The violation lists every definition of the group once, by file and line, and states how many
different files they lie in. -/
structure DescribesGroup (v : Violation) (g : List ConstantDefinition) : Prop where
  listed : v.locations.Perm (g.map place)
  sorted : v.locations.Pairwise Location.Precedes
  occurrences : v.occurrenceCount = g.length
  files : ∃ subject rest, v.message = subject ++ Text.ofString " defined in " ++
    Text.ofNat (g.map (·.file)).toFinset.card ++ Text.ofString " files (values: " ++ rest

theorem length_distinct {α : Type} [BEq α] [LawfulBEq α] [DecidableEq α] (items : List α) :
    (distinct items).length = items.toFinset.card := by
  rw [← List.toFinset_card_of_nodup (nodup_distinct items)]
  congr 1
  ext x
  rw [List.mem_toFinset, List.mem_toFinset, mem_distinct]

theorem fileCount_eq_card (g : List ConstantDefinition) :
    fileCount g = (g.map (·.file)).toFinset.card := by
  rw [fileCount, length_distinct]

theorem describesGroup_buildViolation (g : List ConstantDefinition) (level : RuleLevel) :
    DescribesGroup (buildViolation g level) g := by
  have hperm := List.mergeSort_perm g fun a b => Location.le (place a) (place b)
  constructor
  · rw [locations_buildViolation]
    exact hperm.map place
  · rw [locations_buildViolation, List.pairwise_map]
    have hsorted := List.pairwise_mergeSort
      (fun a b c => Location.le_trans (place a) (place b) (place c))
      (fun a b => Location.le_total (place a) (place b)) g
    exact hsorted.imp Location.le_iff_precedes.mp
  · exact hperm.length_eq
  · have hcount : fileCount (g.mergeSort fun a b => Location.le (place a) (place b)) =
        (g.map (·.file)).toFinset.card := by
      rw [fileCount_eq_card, List.toFinset_eq_of_perm _ _ (hperm.map _)]
    simp only [buildViolation]
    rw [hcount, List.append_assoc, List.append_assoc]
    exact ⟨_, _, rfl⟩

/-! ## The groups that are reported -/

/-- The groups of one language that lie in enough different files. -/
def largeGroups (files : List ConstantSource) (suppressed : SuppressedRanges) (least : Nat)
    (language : Option Language) : List (List ConstantDefinition) :=
  (groups (definitionsIn files suppressed language)).filter fun g => max 2 least ≤ fileCount g

theorem definitionViolations_eq (least : Nat) (level : RuleLevel)
    (definitions : List ConstantDefinition) :
    definitionViolations least level definitions =
      ((groups definitions).filter fun g => max 2 least ≤ fileCount g).map
        (buildViolation · level) := by
  rw [definitionViolations, ← List.filterMap_eq_map, List.filterMap_filter]
  refine List.filterMap_congr fun g _ => ?_
  by_cases hlarge : max 2 least ≤ fileCount g <;> simp [hlarge]

section

variable {files : List ConstantSource} {suppressed : SuppressedRanges} {least : Nat}
  {language : Option Language} {d : ConstantDefinition} {g : List ConstantDefinition}

theorem mem_largeGroups : g ∈ largeGroups files suppressed least language ↔
    IsComponent (definitionsIn files suppressed language) g ∧
      max 2 least ≤ (g.map (·.file)).toFinset.card := by
  rw [largeGroups, List.mem_filter, mem_groups_iff, decide_eq_true_iff, fileCount_eq_card]

theorem IsComponent.sublist {definitions : List ConstantDefinition}
    (h : IsComponent definitions g) : g.Sublist definitions := by
  rw [h.inOrder]
  exact List.filter_sublist

theorem exists_file_of_mem_definitionsIn (hd : d ∈ definitionsIn files suppressed language) :
    ∃ f ∈ files, f.language = language := by
  obtain ⟨f, hf, -⟩ := List.mem_flatMap.mp hd
  exact ⟨f, List.mem_of_mem_filter hf, of_decide_eq_true (List.mem_filter.mp hf).2⟩

theorem isUnsuppressed_of_mem_definitionsIn (hd : d ∈ definitionsIn files suppressed language) :
    IsUnsuppressed suppressed d := by
  obtain ⟨f, -, hd⟩ := List.mem_flatMap.mp hd
  exact of_decide_eq_true (List.mem_filter.mp hd).2

/-- The groups of some languages that are reported, each with its language. -/
def reportedGroups (files : List ConstantSource) (suppressed : SuppressedRanges) (least : Nat)
    (languages : List (Option Language)) : List (Option Language × List ConstantDefinition) :=
  languages.flatMap fun language =>
    (largeGroups files suppressed least language).map (Prod.mk language)

theorem mem_reportedGroups {languages : List (Option Language)} :
    (language, g) ∈ reportedGroups files suppressed least languages ↔
      language ∈ languages ∧ g ∈ largeGroups files suppressed least language := by
  simp [reportedGroups]

theorem nodup_reportedGroups {languages : List (Option Language)} (h : languages.Nodup) :
    (reportedGroups files suppressed least languages).Nodup := by
  rw [reportedGroups, List.nodup_flatMap]
  refine ⟨fun language _ => ?_, h.imp fun hne => ?_⟩
  · exact ((nodup_groups _).filter _).map (Prod.mk_right_injective language)
  · intro r hr hr'
    obtain ⟨g, -, rfl⟩ := List.mem_map.mp hr
    obtain ⟨g', -, hg'⟩ := List.mem_map.mp hr'
    exact hne (congrArg Prod.fst hg').symm

/-- No place of a reported group is suppressed. -/
theorem not_sharesLine_of_mem_largeGroups (level : RuleLevel)
    (hg : g ∈ largeGroups files suppressed least language) :
    ∀ l ∈ (buildViolation g level).locations, ∀ range ∈ suppressed.of l.file,
      ¬ l.SharesLine range := by
  intro l hl
  have hlisted := (describesGroup_buildViolation g level).listed
  obtain ⟨d, hd, rfl⟩ := List.mem_map.mp (hlisted.mem_iff.mp hl)
  exact isUnsuppressed_of_mem_definitionsIn ((mem_largeGroups.mp hg).1.sublist.subset hd)

end

end Constant

/-! ## All violations -/

/-- The violations come language by language. -/
theorem reportConstants_eq_flatMap (files : List ConstantSource) (least : Nat) (level : RuleLevel)
    (suppressed : SuppressedRanges) :
    ∃ languages : List (Option Language), languages.Nodup ∧
      (∀ language, language ∈ languages ↔ ∃ f ∈ files, f.language = language) ∧
      reportConstants files least level suppressed = languages.flatMap fun language =>
        (Constant.largeGroups files suppressed least language).map
          (Constant.buildViolation · level) := by
  have hclasses : Clone.AreClasses (·.language) files
      (Clone.group (fun a b => a.language == b.language) files) := by
    apply Clone.group_areClasses
    intro a b
    simp
  obtain ⟨languages, hnodup, hmem, hgroups⟩ := hclasses.exists_keys
  have hreport : reportConstants files least level suppressed =
      (Clone.group (fun a b => a.language == b.language) files).flatMap fun group =>
        Constant.definitionViolations least level
          (group.flatMap (Constant.definitionsOf suppressed)) := rfl
  refine ⟨languages, hnodup, hmem, ?_⟩
  rw [hreport, hgroups, List.flatMap_map]
  refine List.flatMap_congr fun language _ => ?_
  have hdefinitions :
      (files.filter fun f => f.language = language).flatMap (Constant.definitionsOf suppressed) =
        Constant.definitionsIn files suppressed language :=
    List.flatMap_congr fun f _ => Constant.definitionsOf_eq suppressed f
  rw [hdefinitions, Constant.definitionViolations_eq, Constant.largeGroups]

/-- Every connected group of the unsuppressed definitions of one language that lies in enough
different files is reported by one violation, and nothing else is reported.  Suppressed definitions
are no definitions of any language here, so they are neither listed nor counted nor links of a
chain. -/
theorem reportConstants_one_per_group (files : List ConstantSource) (least : Nat)
    (level : RuleLevel) (suppressed : SuppressedRanges) :
    ∃ reported : List (Option Language × List ConstantDefinition),
      reported.Nodup ∧
      (∀ language g, (language, g) ∈ reported ↔
        Constant.IsComponent (Constant.definitionsIn files suppressed language) g ∧
          max 2 least ≤ (g.map (·.file)).toFinset.card) ∧
      reportConstants files least level suppressed =
        reported.map (fun r => Constant.buildViolation r.2 level) ∧
      ∀ r ∈ reported, Constant.DescribesGroup (Constant.buildViolation r.2 level) r.2 ∧
        ∀ l ∈ (Constant.buildViolation r.2 level).locations, ∀ range ∈ suppressed.of l.file,
          ¬ l.SharesLine range := by
  obtain ⟨languages, hnodup, hlanguages, hreport⟩ :=
    reportConstants_eq_flatMap files least level suppressed
  refine ⟨Constant.reportedGroups files suppressed least languages,
    Constant.nodup_reportedGroups hnodup, ?_, ?_, ?_⟩
  · intro language g
    rw [Constant.mem_reportedGroups, Constant.mem_largeGroups]
    refine and_iff_right_of_imp fun ⟨hcomponent, _⟩ => ?_
    obtain ⟨d, hd, -⟩ := hcomponent.connected
    exact (hlanguages language).mpr
      (Constant.exists_file_of_mem_definitionsIn (hcomponent.sublist.subset hd))
  · rw [hreport, Constant.reportedGroups, List.map_flatMap]
    simp only [List.map_map, Function.comp_def]
  · intro r hr
    have hlarge := (Constant.mem_reportedGroups.mp hr).2
    exact ⟨Constant.describesGroup_buildViolation r.2 level,
      Constant.not_sharesLine_of_mem_largeGroups level hlarge⟩

/-- A file with one line, `name=x`. -/
def constantFile (path name : Text) : ConstantSource where
  path := path
  language := some .python
  source := name ++ [0x3D, 0x78]
  tokens :=
    [.make name .identifier ⟨0, 0⟩ ⟨0, name.length⟩,
      .make [0x3D] .symbol ⟨0, name.length⟩ ⟨0, name.length + 1⟩,
      .make [0x78] .identifier ⟨0, name.length + 1⟩ ⟨0, name.length + 2⟩]

/-- The constants `A_B`, `A_C` and again `A_B`, each in a file of its own. -/
def similarFiles : List ConstantSource :=
  [constantFile [1] [0x41, 0x5F, 0x42], constantFile [2] [0x41, 0x5F, 0x43],
    constantFile [3] [0x41, 0x5F, 0x42]]

/-- The definitions of the first two files. -/
def similarPair : List ConstantDefinition :=
  [⟨[0x41, 0x5F, 0x42], [0x78], [1], 1, 3⟩, ⟨[0x41, 0x5F, 0x43], [0x78], [2], 1, 3⟩]

namespace Constant

theorem isComponent_similarPair : IsComponent similarPair similarPair := by
  refine ⟨by decide, _, List.mem_cons_self, fun e he => iff_of_true he ?_⟩
  rcases List.mem_pair.mp he with rfl | rfl
  · exact ⟨[[0x41, 0x5F, 0x42]], rfl, rfl, by decide, by simp⟩
  · refine ⟨[[0x41, 0x5F, 0x42], [0x41, 0x5F, 0x43]], rfl, rfl, by decide, ?_⟩
    simp only [List.isChain_cons_cons, List.isChain_singleton, and_true]
    decide +kernel

theorem definitionsIn_similarFiles (language : Option Language) :
    definitionsIn similarFiles (.ofList [⟨[3], 1, 1⟩]) language =
      if language = some .python then similarPair else [] := by
  by_cases hlanguage : language = some .python
  · rw [if_pos hlanguage, hlanguage]
    decide +kernel
  · rw [if_neg hlanguage]
    simp [definitionsIn, similarFiles, constantFile, eq_comm, hlanguage]

/-- The pair is the one group in two files: a group in two files has two definitions. -/
theorem isComponent_similarFiles_iff {language : Option Language} {g : List ConstantDefinition} :
    IsComponent (definitionsIn similarFiles (.ofList [⟨[3], 1, 1⟩]) language) g ∧
        max 2 2 ≤ (g.map (·.file)).toFinset.card ↔
      language = some .python ∧ g = similarPair := by
  rw [definitionsIn_similarFiles]
  constructor
  · rintro ⟨hcomponent, hcard⟩
    have htwo : 2 ≤ g.length := by
      have hle := List.toFinset_card_le (g.map (·.file))
      rw [List.length_map] at hle
      omega
    split at hcomponent
    case isTrue hlanguage => exact ⟨hlanguage, hcomponent.sublist.eq_of_length_le htwo⟩
    case isFalse =>
        rw [List.sublist_nil.mp hcomponent.sublist] at htwo
        cases htwo
  · rintro ⟨rfl, rfl⟩
    exact ⟨isComponent_similarPair, by decide⟩

end Constant

/-- With the third file suppressed, the similar constants of the other two are one violation. -/
theorem reportConstants_one_per_group_similarFiles :
    ∃ v, reportConstants similarFiles 2 .warning (.ofList [⟨[3], 1, 1⟩]) = [v] ∧
      v.locations = [⟨[1], 1, 1⟩, ⟨[2], 1, 1⟩] ∧ Constant.DescribesGroup v similarPair := by
  obtain ⟨reported, hnodup, hmem, hreport, hdescribes⟩ :=
    reportConstants_one_per_group similarFiles 2 .warning (.ofList [⟨[3], 1, 1⟩])
  have hreported : reported = [(some .python, similarPair)] := by
    apply List.perm_singleton.mp
    rw [List.perm_ext_iff_of_nodup hnodup (List.nodup_singleton _)]
    rintro ⟨language, g⟩
    rw [hmem, Constant.isComponent_similarFiles_iff, List.mem_singleton, Prod.mk.injEq]
  subst hreported
  exact ⟨_, hreport, by cbv, (hdescribes _ List.mem_cons_self).1⟩

end CloneScan
