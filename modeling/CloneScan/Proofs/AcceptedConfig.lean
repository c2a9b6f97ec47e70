import CloneScan.Proofs.RoundedNumber
import CloneScan.Proofs.TypedDocument

/-!
# Accepted configurations

A text gives a configuration exactly when it holds a document of the right shape whose numbers, with
the gaps filled and the environment in charge of the workers, lie within their bounds.  The
configuration then has these numbers: for every language its own thresholds where it sets them, the
general ones otherwise, and the defaults where neither is set.
-/

namespace CloneScan

/-! ## Numbers within bounds -/

/-- A number is this count, and the count is at least so large. -/
def IsCount (least : Nat) (x : Number) (n : Nat) : Prop :=
  least ≤ n ∧ x = .finite (n : Rat)

theorem isCount_iff {least n : Nat} {x : Number} :
    IsCount least x n ↔ least ≤ n ∧ x.toNat? = some n := by
  rw [IsCount, Number.toNat?_eq_some_iff]

/-- A number from zero on, perhaps without bound. -/
def Number.NotNegative : Number → Prop
  | .nan => False
  | .infinite negative => negative = false
  | .finite q => 0 ≤ q

theorem Number.notNegative_iff {x : Number} :
    x.NotNegative ↔ x ≠ .nan ∧ x.lt (.finite 0) = false := by
  cases x <;> simp [NotNegative, lt]

namespace Config

variable {least : Nat}

/-! ## Checks -/

theorem decides_count {fault : ConfigFault} (x : Number) (least : Nat) :
    Decides
      (match x.toNat? with
        | some n => if least ≤ n then .ok n else .error fault
        | none => .error fault)
      (∃ n, IsCount least x n) (IsCount least x) := by
  cases hcount : x.toNat? with
  | none => simp [Decides, isCount_iff, hcount]
  | some n => by_cases hleast : least ≤ n <;> simp [Decides, isCount_iff, hcount, hleast]

theorem checkPositive_spec (field : Text) (x : Number) :
    Decides (checkPositive field x) (∃ n, IsCount 1 x n) (IsCount 1 x) :=
  decides_count x 1

theorem checkOccurrences_spec (field : Text) (x : Number) :
    Decides (checkOccurrences field x) (∃ n, IsCount 2 x n) (IsCount 2 x) :=
  decides_count x 2

theorem checkGiven_spec {check : Text → Number → Except ConfigFault Nat}
    (hcheck : ∀ field x, Decides (check field x) (∃ n, IsCount least x n) (IsCount least x))
    (field : Text) (x? : Option Number) :
    Decides (checkGiven check field x?) (∃ n?, Option.Rel (IsCount least) x? n?)
      (Option.Rel (IsCount least) x?) := by
  cases x? with
  | none => exact ⟨⟨none, .none⟩, .none⟩
  | some x =>
      have hgiven := (hcheck field x).map (f := some)
        (S := Option.Rel (IsCount least) (some x)) fun n _ hn => .some hn
      refine hgiven.congr ⟨fun ⟨n, hn⟩ => ⟨some n, .some hn⟩, ?_⟩
      rintro ⟨n?, hn?⟩
      cases hn? with
      | some hn => exact ⟨_, hn⟩

structure ChecksTo (t : ThresholdSettings) (own : LanguageThresholds) : Prop where
  lines : Option.Rel (IsCount 1) t.lines own.lines
  tokens : Option.Rel (IsCount 1) t.tokens own.tokens
  occurrences : Option.Rel (IsCount 2) t.occurrences own.occurrences

theorem checkThresholds_spec (place : Text) (t : ThresholdSettings) :
    Decides (checkThresholds place t) (∃ own, ChecksTo t own) (ChecksTo t) := by
  have hcheck : Decides (checkThresholds place t)
      ((∃ n?, Option.Rel (IsCount 1) t.lines n?) ∧ (∃ n?, Option.Rel (IsCount 1) t.tokens n?) ∧
        (∃ n?, Option.Rel (IsCount 2) t.occurrences n?) ∧ True) (ChecksTo t) := by
    refine (checkGiven_spec checkPositive_spec _ _).bind fun lines _ hlines => ?_
    refine (checkGiven_spec checkPositive_spec _ _).bind fun tokens _ htokens => ?_
    refine (checkGiven_spec checkOccurrences_spec _ _).bind fun occurrences _ hoccurrences => ?_
    exact Decides.pure ⟨hlines, htokens, hoccurrences⟩
  refine hcheck.congr ⟨?_, ?_⟩
  · rintro ⟨⟨lines, hlines⟩, ⟨tokens, htokens⟩, ⟨occurrences, hoccurrences⟩, -⟩
    exact ⟨⟨lines, tokens, occurrences⟩, hlines, htokens, hoccurrences⟩
  · rintro ⟨own, hlines, htokens, hoccurrences⟩
    exact ⟨⟨_, hlines⟩, ⟨_, htokens⟩, ⟨_, hoccurrences⟩, trivial⟩

theorem checkLanguage_spec (e : Language × ThresholdSettings) :
    Decides (checkLanguage e) (∃ own, ChecksTo e.2 own)
      fun y => y.1 = e.1 ∧ ChecksTo e.2 y.2 := by
  have hcheck : Decides (checkLanguage e) ((∃ own, ChecksTo e.2 own) ∧ True)
      fun y => y.1 = e.1 ∧ ChecksTo e.2 y.2 := by
    refine (checkThresholds_spec _ e.2).bind fun own _ hown => ?_
    exact Decides.pure ⟨rfl, hown⟩
  exact hcheck.congr (and_iff_left trivial)

/-! ## Resolution -/

structure ValidDuplicates (d : DuplicateSettings) : Prop where
  thresholds : ∃ own, ChecksTo d.thresholds own
  constantOccurrences : ∃ n, IsCount 2 (d.constantOccurrences.getD (.finite 2)) n
  languages : ∀ e ∈ d.languages.getD [], ∃ own, ChecksTo e.2 own

structure ResolvesDuplicates (d : DuplicateSettings) (r : DuplicateOptions) : Prop where
  enabled : r.enabled = d.enabled.getD true
  thresholds : ∃ own, ChecksTo d.thresholds own ∧ r.thresholds = override defaultThresholds own
  languages : List.Forall₂ (fun e y => y.1 = e.1 ∧ ChecksTo e.2 y.2) (d.languages.getD [])
    r.languages
  normalize : r.normalize = d.normalize.getD false
  level : r.level = d.level.getD .warning
  filters : r.filters = FilterName.all.map fun f => (f, filterSwitch d f)
  constants : r.constants = d.constants.getD true
  constantOccurrences : IsCount 2 (d.constantOccurrences.getD (.finite 2)) r.constantOccurrences

theorem resolveDuplicates_spec (d : DuplicateSettings) :
    Decides (resolveDuplicates d) (ValidDuplicates d) (ResolvesDuplicates d) := by
  have hresolve : Decides (resolveDuplicates d)
      ((∃ own, ChecksTo d.thresholds own) ∧
        (∃ n, IsCount 2 (d.constantOccurrences.getD (.finite 2)) n) ∧
        (∀ e ∈ d.languages.getD [], ∃ own, ChecksTo e.2 own) ∧ True) (ResolvesDuplicates d) := by
    refine (checkThresholds_spec _ _).bind fun own _ hown => ?_
    refine (checkOccurrences_spec _ _).bind fun least _ hleast => ?_
    refine (Decides.mapM fun e _ => checkLanguage_spec e).bind fun languages _ hlanguages => ?_
    exact Decides.pure ⟨rfl, ⟨own, hown, rfl⟩, hlanguages, rfl, rfl, rfl, rfl, hleast⟩
  refine hresolve.congr ⟨fun ⟨h1, h2, h3, _⟩ => ⟨h1, h2, h3⟩, fun h => ?_⟩
  exact ⟨h.thresholds, h.constantOccurrences, h.languages, trivial⟩

def cacheOptions (environment : Environment) (root : Text) (c : CacheSettings) : CacheOptions where
  enabled := c.enabled.getD true
  backend := c.backend.getD .disk
  directory := Path.resolve root ((environment.cacheDirectory.or c.directory).getD defaultDirectory)
  maxAgeDays := c.maxAgeDays.getD (.finite 30)
  keyStart := c.keyStart.getD defaultKeyStart

theorem resolveCache_spec (environment : Environment) (root : Text) (c : CacheSettings) :
    Decides (resolveCache environment root c)
      ((c.maxAgeDays.getD (.finite 30)).lt (.finite 0) = false)
      (· = cacheOptions environment root c) := by
  rw [resolveCache]
  split
  case isTrue hnegative => simp [Decides, hnegative]
  case isFalse hallowed => exact ⟨by simpa using hallowed, rfl⟩

/-- The number of workers that the environment or else the settings ask for. -/
def workersOf (environment : Environment) (workers : Option Number) : Number :=
  ((environment.workerCount?.map Number.ofInt).or workers).getD (.finite 0)

theorem resolveScan_spec (environment : Environment) (s : ScanSettings) :
    Decides (resolveScan environment s) (∃ n, IsCount 0 (workersOf environment s.workers) n)
      fun r => IsCount 0 (workersOf environment s.workers) r.workers ∧
        r.strict = s.strict.getD false ∧
        r.inlineSuppressions = s.inlineSuppressions.getD true := by
  rw [resolveScan, ← workersOf]
  cases hcount : (workersOf environment s.workers).toNat? <;> simp [Decides, isCount_iff, hcount]

structure ValidSettings (environment : Environment) (s : Settings) : Prop where
  version : s.version = .finite 1
  duplicates : ValidDuplicates (s.duplicates.getD {})
  maxAgeDays : (((s.cache.getD {}).maxAgeDays).getD (.finite 30)).lt (.finite 0) = false
  workers : ∃ n, IsCount 0 (workersOf environment (s.scan.getD {}).workers) n

structure Resolves (environment : Environment) (root : Text) (s : Settings) (c : Config) :
    Prop where
  root_eq : c.root = Path.resolve root []
  duplicates : ResolvesDuplicates (s.duplicates.getD {}) c.duplicates
  ignore : c.ignore = (s.files.getD {}).ignore.getD []
  cache : c.cache = cacheOptions environment (Path.resolve root []) (s.cache.getD {})
  workers : IsCount 0 (workersOf environment (s.scan.getD {}).workers) c.scan.workers
  strict : c.scan.strict = (s.scan.getD {}).strict.getD false
  inlineSuppressions : c.scan.inlineSuppressions = (s.scan.getD {}).inlineSuppressions.getD true

theorem resolve_spec (environment : Environment) (root : Text) (s : Settings) :
    Decides (resolve environment root s) (ValidSettings environment s)
      (Resolves environment root s) := by
  unfold resolve
  split
  case isTrue hversion =>
      intro hvalid
      simp [hvalid.version] at hversion
  case isFalse hversion =>
      have hversion : s.version = .finite 1 := by simpa using hversion
      refine Decides.congr
        ((resolveDuplicates_spec _).bind fun duplicates _ hduplicates =>
          (resolveCache_spec _ _ _).bind fun cache _ hcache =>
            (resolveScan_spec _ _).bind fun scan _ hscan =>
              Decides.pure (R := Resolves environment root s)
                ⟨rfl, hduplicates, rfl, hcache, hscan.1, hscan.2.1, hscan.2.2⟩) ⟨?_, ?_⟩
      · rintro ⟨hduplicates, hage, hworkers, -⟩
        exact ⟨hversion, hduplicates, hage, hworkers⟩
      · rintro ⟨-, hduplicates, hage, hworkers⟩
        exact ⟨hduplicates, hage, hworkers, trivial⟩

/-! ## Bounds of a document -/

open Settings

/-- A threshold of a language: its own, or else the general one, or else the default. -/
def thresholdAt (own general : Yaml.Fields) (key : String) (default : Nat) : Number :=
  ((numberAt own key).or (numberAt general key)).getD (.finite default)

/-- The thresholds of a language are counts within their bounds. -/
structure IsThresholds (own general : Yaml.Fields) (t : Thresholds) : Prop where
  lines : IsCount 1 (thresholdAt own general "min_duplicate_lines" 3) t.lines
  tokens : IsCount 1 (thresholdAt own general "min_duplicate_tokens" 30) t.tokens
  occurrences : IsCount 2 (thresholdAt own general "min_occurrences" 2) t.occurrences

/-- The numbers of a document, with the gaps filled, lie within their bounds. -/
structure Bounded (environment : Environment) (document : Yaml.Fields) : Prop where
  version : (numberAt document "version").getD (.finite 1) = .finite 1
  thresholds : ∃ t, IsThresholds [] (sectionAt document "duplicates") t
  languages : ∀ e ∈ sectionAt (sectionAt document "duplicates") "languages",
    ∃ t, IsThresholds e.2.fields (sectionAt document "duplicates") t
  constantOccurrences : ∃ n, IsCount 2
    ((numberAt (sectionAt document "duplicates") "min_constant_occurrences").getD (.finite 2)) n
  maxAgeDays : Number.NotNegative
    ((numberAt (sectionAt document "cache") "max_age_days").getD (.finite 30))
  workers : ∃ n, IsCount 0
    (workersOf environment (numberAt (sectionAt document "scan") "workers")) n

/-- The fields that a document has for a language. -/
def ownFields (document : Yaml.Fields) (language : Language) : Yaml.Fields :=
  (((sectionAt (sectionAt document "duplicates") "languages").lookup language.tag).map
    Yaml.Value.fields).getD []

/-- Every option of the configuration is what the document sets, or else its default. -/
structure ResolvedFrom (environment : Environment) (root : Text) (document : Yaml.Fields)
    (c : Config) : Prop where
  root_eq : c.root = Path.resolve root []
  enabled : c.duplicates.enabled =
    (truthAt (sectionAt document "duplicates") "enabled").getD true
  thresholds : ∀ language,
    IsThresholds (ownFields document language) (sectionAt document "duplicates")
      (c.thresholds language)
  normalize : c.duplicates.normalize =
    (truthAt (sectionAt document "duplicates") "normalize").getD false
  level : c.duplicates.level.name =
    (textAt (sectionAt document "duplicates") "level").getD (Text.ofString "warning")
  filters : c.duplicates.filters = FilterName.all.map fun f =>
    (f, (((sectionAt (sectionAt document "duplicates") "filters").lookup f.name).bind
      Yaml.Value.truthOf).getD true)
  constants : c.duplicates.constants =
    (truthAt (sectionAt document "duplicates") "detect_duplicate_constants").getD true
  constantOccurrences : IsCount 2
    ((numberAt (sectionAt document "duplicates") "min_constant_occurrences").getD (.finite 2))
    c.duplicates.constantOccurrences
  ignore : c.ignore.map Yaml.Value.string =
    (itemsAt (sectionAt document "files") "ignore").getD []
  cacheEnabled : c.cache.enabled = (truthAt (sectionAt document "cache") "enabled").getD true
  backend : c.cache.backend.name =
    (textAt (sectionAt document "cache") "backend").getD (Text.ofString "disk")
  directory : c.cache.directory = Path.resolve c.root
    ((environment.cacheDirectory.or (textAt (sectionAt document "cache") "dir")).getD
      (Text.ofString ".twinscan-cache"))
  maxAgeDays_eq : c.cache.maxAgeDays =
    (numberAt (sectionAt document "cache") "max_age_days").getD (.finite 30)
  maxAgeDays : c.cache.maxAgeDays.NotNegative
  keyStart : c.cache.keyStart =
    (textAt (sectionAt document "cache") "key_prefix").getD (Text.ofString "twinscan:")
  workers : IsCount 0 (workersOf environment (numberAt (sectionAt document "scan") "workers"))
    c.scan.workers
  strict : c.scan.strict = (truthAt (sectionAt document "scan") "strict").getD false
  inlineSuppressions : c.scan.inlineSuppressions =
    (truthAt (sectionAt document "scan") "inline_suppressions").getD true

/-! ## Merged thresholds -/

theorem isCount_merge {x? y? : Option Number} {n? m? : Option Nat} {default : Nat}
    (hx : Option.Rel (IsCount least) x? n?) (hy : Option.Rel (IsCount least) y? m?)
    (hdefault : least ≤ default) :
    IsCount least ((x?.or y?).getD (.finite default)) (n?.getD (m?.getD default)) := by
  cases hx with
  | some hx => exact hx
  | none =>
      cases hy with
      | some hy => exact hy
      | none => exact ⟨hdefault, rfl⟩

theorem exists_rel_of_isCount_merge {x? y? : Option Number} {default n : Nat}
    (h : IsCount least ((x?.or y?).getD (.finite default)) n) :
    ∃ n?, Option.Rel (IsCount least) x? n? := by
  cases x? with
  | none => exact ⟨none, .none⟩
  | some x => exact ⟨some n, .some h⟩

theorem isThresholds_override {own general : Yaml.Fields} {o g : LanguageThresholds}
    (ho : ChecksTo (thresholdsAt own) o) (hg : ChecksTo (thresholdsAt general) g) :
    IsThresholds own general (override (override defaultThresholds g) o) :=
  ⟨isCount_merge ho.lines hg.lines (by decide), isCount_merge ho.tokens hg.tokens (by decide),
    isCount_merge ho.occurrences hg.occurrences (by decide)⟩

theorem exists_checksTo_of_isThresholds {own general : Yaml.Fields} {t : Thresholds}
    (h : IsThresholds own general t) : ∃ o, ChecksTo (thresholdsAt own) o := by
  obtain ⟨lines, hlines⟩ := exists_rel_of_isCount_merge h.lines
  obtain ⟨tokens, htokens⟩ := exists_rel_of_isCount_merge h.tokens
  obtain ⟨occurrences, hoccurrences⟩ := exists_rel_of_isCount_merge h.occurrences
  exact ⟨⟨lines, tokens, occurrences⟩, hlines, htokens, hoccurrences⟩

theorem isThresholds_nil {general : Yaml.Fields} {t : Thresholds}
    (h : IsThresholds [] general t) : IsThresholds general [] t := by
  have hsame (key : String) (default : Nat) :
      thresholdAt [] general key default = thresholdAt general [] key default := by
    simp [thresholdAt, numberAt]
  constructor
  · rw [← hsame]
    exact h.lines
  · rw [← hsame]
    exact h.tokens
  · rw [← hsame]
    exact h.occurrences

/-! ## Lists side by side -/

theorem exists_mem_of_forall₂ {α β : Type} {R : α → β → Prop} {l : List α} {l' : List β}
    (h : List.Forall₂ R l l') {a : α} (ha : a ∈ l) : ∃ b ∈ l', R a b := by
  obtain ⟨i, hi, rfl⟩ := List.getElem_of_mem ha
  have hi' : i < l'.length := h.length_eq ▸ hi
  exact ⟨l'[i], List.getElem_mem hi', h.get hi hi'⟩

theorem rel_find? {α β : Type} {R : α → β → Prop} {l : List α} {l' : List β}
    (h : List.Forall₂ R l l') {p : α → Bool} {q : β → Bool}
    (hpq : ∀ a b, R a b → p a = q b) : Option.Rel R (l.find? p) (l'.find? q) := by
  induction h with
  | nil => exact .none
  | @cons a b _ _ hab _ ih =>
      rw [List.find?_cons, List.find?_cons, hpq a b hab]
      cases q b with
      | true => exact .some hab
      | false => exact ih

variable {environment : Environment} {root : Text} {document : Yaml.Fields} {s : Settings}
  {c : Config}

/-! ## The settings of a document -/

theorem numberAt_getD_ne_nan {fields : Yaml.Fields} {key : String}
    (h : Holds .number fields (Text.ofString key)) (default : Nat) :
    (numberAt fields key).getD (.finite default) ≠ .nan := by
  rw [numberAt]
  cases hfield : fields.lookup (Text.ofString key) with
  | none => simp
  | some v =>
      rcases h v hfield with rfl | hv
      · simp [Yaml.Value.numberOf]
      · cases v <;> simp_all [Yaml.Value.numberOf, FieldShape.Fits]

theorem validDuplicates_iff {fields : Yaml.Fields} {d : DuplicateSettings}
    (hd : ReadsDuplicates fields d) : ValidDuplicates d ↔
      (∃ t, IsThresholds [] fields t) ∧
        (∃ n, IsCount 2 ((numberAt fields "min_constant_occurrences").getD (.finite 2)) n) ∧
        ∀ e ∈ sectionAt fields "languages", ∃ t, IsThresholds e.2.fields fields t := by
  constructor
  · rintro ⟨⟨g, hg⟩, hleast, hlanguages⟩
    rw [hd.thresholds] at hg
    rw [hd.constantOccurrences] at hleast
    refine ⟨?_, hleast, ?_⟩
    · have hnone : ChecksTo (thresholdsAt []) ⟨none, none, none⟩ := ⟨.none, .none, .none⟩
      exact ⟨_, isThresholds_override hnone hg⟩
    · -- every mapping that the document has for a language is among those that were read
      intro e he
      obtain ⟨l, hl, -, hthresholds⟩ := exists_mem_of_forall₂ hd.languages he
      obtain ⟨o, ho⟩ := hlanguages l hl
      exact ⟨_, isThresholds_override (hthresholds ▸ ho) hg⟩
  · rintro ⟨⟨t, ht⟩, hleast, hlanguages⟩
    refine ⟨?_, ?_, ?_⟩
    · rw [hd.thresholds]
      exact exists_checksTo_of_isThresholds (isThresholds_nil ht)
    · rw [hd.constantOccurrences]
      exact hleast
    · intro l hl
      obtain ⟨e, he, -, hthresholds⟩ := exists_mem_of_forall₂ hd.languages.flip hl
      obtain ⟨t', ht'⟩ := hlanguages e he
      rw [hthresholds]
      exact exists_checksTo_of_isThresholds ht'

theorem validSettings_iff (htyped : TypedDocument document) (hs : ReadsDocument document s) :
    ValidSettings environment s ↔ Bounded environment document := by
  have hduplicates := validDuplicates_iff hs.duplicates
  have hage : (((s.cache.getD {}).maxAgeDays).getD (.finite 30)).lt (.finite 0) = false ↔
      Number.NotNegative
        ((numberAt (sectionAt document "cache") "max_age_days").getD (.finite 30)) := by
    rw [hs.cache.maxAgeDays, Number.notNegative_iff, and_iff_right]
    exact numberAt_getD_ne_nan (htyped.cache ("max_age_days", .number) (by decide)) 30
  have hworkers : (∃ n, IsCount 0 (workersOf environment (s.scan.getD {}).workers) n) ↔
      ∃ n, IsCount 0
        (workersOf environment (numberAt (sectionAt document "scan") "workers")) n := by
    rw [hs.scan, scanAt]
  constructor
  · rintro ⟨hversion, hvalid, hmax, hcount⟩
    obtain ⟨hthresholds, hleast, hlanguages⟩ := hduplicates.mp hvalid
    exact ⟨hs.version ▸ hversion, hthresholds, hlanguages, hleast, hage.mp hmax,
      hworkers.mp hcount⟩
  · rintro ⟨hversion, hthresholds, hlanguages, hleast, hmax, hcount⟩
    exact ⟨hs.version.trans hversion, hduplicates.mpr ⟨hthresholds, hleast, hlanguages⟩,
      hage.mpr hmax, hworkers.mpr hcount⟩

theorem isThresholds_thresholds (hs : ReadsDocument document s)
    (hc : ResolvesDuplicates (s.duplicates.getD {}) c.duplicates) (language : Language) :
    IsThresholds (ownFields document language) (sectionAt document "duplicates")
      (c.thresholds language) := by
  obtain ⟨g, hg, hgeneral⟩ := hc.thresholds
  rw [hs.duplicates.thresholds] at hg
  have hread := rel_find? hs.duplicates.languages (p := fun e => e.1 == language.tag)
    (q := fun l => l.1 == language) fun e l hl => by
      rw [hl.1, beq_name Language.tag_injective]
  have hcheck := rel_find? hc.languages (p := fun l => l.1 == language)
    (q := fun y => y.1 == language) fun l y hy => by rw [hy.1]
  rw [ownFields, ← getField_eq_lookup, Json.getField, thresholds, hgeneral]
  -- the entry of the document, what is read of it and what is checked of that, or none of the three
  generalize List.find? (fun e => e.1 == language.tag)
    (sectionAt (sectionAt document "duplicates") "languages") = e? at hread ⊢
  generalize List.find? (fun l => l.1 == language) ((s.duplicates.getD {}).languages.getD []) = l?
    at hread hcheck
  generalize List.find? (fun y => y.1 == language) c.duplicates.languages = y? at hcheck ⊢
  cases hread with
  | none =>
      cases hcheck with
      | none =>
          have hnone : ChecksTo (thresholdsAt []) ⟨none, none, none⟩ := ⟨.none, .none, .none⟩
          exact isThresholds_override hnone hg
  | @some e l hl =>
      cases hcheck with
      | some hy =>
          simp only [Option.map_some, Option.getD_some]
          exact isThresholds_override (hl.2 ▸ hy.2) hg

theorem filterSwitch_eq {fields : Yaml.Fields} {d : DuplicateSettings}
    (hd : ReadsDuplicates fields d) (f : FilterName) : filterSwitch d f =
      (((sectionAt fields "filters").lookup f.name).bind Yaml.Value.truthOf).getD true := by
  have hread := rel_find? hd.filters (p := fun e => e.1 == f.name) (q := fun y => y.1 == f)
    fun e y hy => by rw [hy.1, beq_name FilterName.name_injective]
  rw [filterSwitch]
  generalize List.find? (fun y => y.1 == f) (d.filters.getD []) = y? at hread ⊢
  generalize hfirst : List.find? (fun e => e.1 == f.name) (sectionAt fields "filters") = e? at hread
  cases hread with
  | none => simp [← getField_eq_lookup, Json.getField, hfirst]
  | @some e y hy =>
      have hname : e.1 = f.name := by simpa using List.find?_some hfirst
      rw [Option.bind_some, hy.2, hname]

theorem name_getD {α : Type} {name : α → Text} {x? : Option α} {t? : Option Text}
    (h : x?.map name = t?) (default : α) : name (x?.getD default) = t?.getD (name default) := by
  subst h
  cases x? <;> rfl

theorem resolvedFrom (hs : ReadsDocument document s) (hbounded : Bounded environment document)
    (hc : Resolves environment root s c) : c.ResolvedFrom environment root document where
  root_eq := hc.root_eq
  enabled := by rw [hc.duplicates.enabled, hs.duplicates.enabled]
  thresholds := isThresholds_thresholds hs hc.duplicates
  normalize := by rw [hc.duplicates.normalize, hs.duplicates.normalize]
  level := by
    rw [hc.duplicates.level]
    exact name_getD hs.duplicates.level .warning
  filters := by
    rw [hc.duplicates.filters]
    exact List.map_congr_left fun f _ => by rw [filterSwitch_eq hs.duplicates]
  constants := by rw [hc.duplicates.constants, hs.duplicates.constants]
  constantOccurrences := by
    rw [← hs.duplicates.constantOccurrences]
    exact hc.duplicates.constantOccurrences
  ignore := by
    rw [hc.ignore, ← hs.files.ignore]
    cases (s.files.getD {}).ignore <;> rfl
  cacheEnabled := by rw [hc.cache, cacheOptions, hs.cache.enabled]
  backend := by
    rw [hc.cache]
    exact name_getD hs.cache.backend .disk
  directory := by rw [hc.cache, hc.root_eq, ← hs.cache.directory, cacheOptions, defaultDirectory]
  maxAgeDays_eq := by rw [hc.cache, cacheOptions, hs.cache.maxAgeDays]
  maxAgeDays := by
    rw [hc.cache, cacheOptions, hs.cache.maxAgeDays]
    exact hbounded.maxAgeDays
  keyStart := by rw [hc.cache, cacheOptions, hs.cache.keyStart, defaultKeyStart]
  workers := by
    have hcount := hc.workers
    rw [hs.scan] at hcount
    exact hcount
  strict := by
    rw [hc.strict, hs.scan]
    rfl
  inlineSuppressions := by
    rw [hc.inlineSuppressions, hs.scan]
    rfl

theorem resolve_ofDocument_spec (environment : Environment) (root : Text)
    (document : Yaml.Document) (origin : Text) :
    Decides (ofDocument document origin >>= resolve environment root)
      ((document.HoldsMapping ∧ TypedDocument document.fields) ∧
        Bounded environment document.fields)
      fun c => c.ResolvedFrom environment root document.fields := by
  refine (ofDocument_spec document origin).bind fun s htyped hs => ?_
  exact ((resolve_spec environment root s).congr (validSettings_iff htyped.2 hs)).mono
    fun c hbounded hc => resolvedFrom hs hbounded hc

/-- Whatever reads YAML, a text gives a configuration exactly when it is read as a document that is
empty or counts as a mapping, has the right shape and has numbers within their bounds, and the
configuration is what the document sets, with the gaps filled. -/
theorem load_spec (read : Text → Option Yaml.Document) (environment : Environment)
    (root source origin : Text) :
    Decides (loadWith read environment root source origin)
      (∃ document, read source = some document ∧ document.HoldsMapping ∧
        TypedDocument document.fields ∧ Bounded environment document.fields)
      fun c => ∃ document, read source = some document ∧
        c.ResolvedFrom environment root document.fields := by
  cases hread : read source with
  | none => simp [loadWith, parseWith, hread, Decides, bind, Except.bind]
  | some document =>
      have hload : loadWith read environment root source origin =
          ofDocument document origin >>= resolve environment root := by
        rw [loadWith, parseWith, hread]
      rw [hload]
      simpa [and_assoc] using resolve_ofDocument_spec environment root document origin

/-- An empty document is no mapping and is accepted, and an empty text is read as one. -/
theorem load_empty_text : Yaml.load? [] = some .empty ∧
    ∃ c, loadWith (fun _ => some .empty) {} (Text.ofString "/") [] (Text.ofString "<string>") =
        .ok c ∧
      load {} (Text.ofString "/") [] (Text.ofString "<string>") = .ok c := by
  have hloaded : Yaml.load? [] = some .empty := by rfl
  have hsame : load {} (Text.ofString "/") [] (Text.ofString "<string>") =
      loadWith (fun _ => some .empty) {} (Text.ofString "/") [] (Text.ofString "<string>") := by
    rw [load, loadWith, loadWith, parseWith, parseWith, hloaded]
  exact ⟨hloaded, _, rfl, hsame⟩

end Config

end CloneScan
