import CloneScan.Config
import Mathlib.Data.List.Forall2

/-!
# Documents of the right shape

Reading the settings of a document succeeds exactly when every field that is set holds a value of
its shape, every language and every filter is a known one, and the thresholds of a language are a
mapping; null sets nothing.  The settings are then the values of the fields.
-/

namespace CloneScan

/-! ## Actions that decide a condition -/

/-- The action succeeds exactly under the condition, and then its value has the property. -/
def Decides {ε α : Type} (action : Except ε α) (condition : Prop) (property : α → Prop) : Prop :=
  match action with
  | .error _ => ¬ condition
  | .ok x => condition ∧ property x

namespace Decides

variable {ε α β : Type} {action : Except ε α} {P Q : Prop} {R : α → Prop} {S : β → Prop}

theorem pure {x : α} (h : R x) : Decides (ε := ε) (pure x) True R :=
  ⟨trivial, h⟩

theorem congr (h : Decides action P R) (hiff : P ↔ Q) : Decides action Q R := by
  cases action with
  | error e => exact mt hiff.mpr h
  | ok x => exact ⟨hiff.mp h.1, h.2⟩

theorem mono {T : α → Prop} (h : Decides action P R) (hproperty : ∀ x, P → R x → T x) :
    Decides action P T := by
  cases action with
  | error e => exact h
  | ok x => exact ⟨h.1, hproperty x h.1 h.2⟩

theorem bind {next : α → Except ε β} (h : Decides action P R)
    (hnext : ∀ x, P → R x → Decides (next x) Q S) : Decides (action >>= next) (P ∧ Q) S := by
  cases action with
  | error e => exact fun hboth => h hboth.1
  | ok x =>
      obtain ⟨hP, hR⟩ := h
      exact (hnext x hP hR).congr ⟨fun hQ => ⟨hP, hQ⟩, fun hboth => hboth.2⟩

theorem map {f : α → β} (h : Decides action P R) (hproperty : ∀ x, P → R x → S (f x)) :
    Decides (f <$> action) P S := by
  cases action with
  | error e => exact h
  | ok x => exact ⟨h.1, hproperty x h.1 h.2⟩

theorem mapM {γ : Type} {f : γ → Except ε α} {P : γ → Prop} {R : γ → α → Prop} {l : List γ}
    (h : ∀ a ∈ l, Decides (f a) (P a) (R a)) :
    Decides (l.mapM f) (∀ a ∈ l, P a) fun ys => List.Forall₂ R l ys := by
  -- a failure at the first element that is refused, whatever follows
  induction l with
  | nil =>
      rw [List.mapM_nil]
      exact (Decides.pure List.Forall₂.nil).congr (by simp)
  | cons a l ih =>
      obtain ⟨ha, hl⟩ := List.forall_mem_cons.mp h
      rw [List.mapM_cons]
      have hboth := ha.bind fun y _ hy => (ih hl).bind fun ys _ hys =>
        Decides.pure (R := List.Forall₂ R (a :: l)) (List.Forall₂.cons hy hys)
      exact hboth.congr (by simp)

end Decides

/-! ## Names -/

theorem find?_name_eq_some_iff {α : Type} {name : α → Text} (hname : Function.Injective name)
    {all : List α} (hall : ∀ a, a ∈ all) {t : Text} {a : α} :
    all.find? (fun b => name b == t) = some a ↔ t = name a := by
  constructor
  · intro h
    have hname : name a = t := by simpa using List.find?_some h
    exact hname.symm
  · rintro rfl
    cases hfound : all.find? fun b => name b == name a with
    | none => exact absurd (List.find?_eq_none.mp hfound a (hall a)) (by simp)
    | some b =>
        have hb : name b = name a := by simpa using List.find?_some hfound
        rw [hname hb]

theorem beq_name {α : Type} [DecidableEq α] {name : α → Text} (hname : Function.Injective name)
    (a b : α) : (name a == name b) = (a == b) := by
  rw [Bool.eq_iff_iff, beq_iff_eq, beq_iff_eq, hname.eq_iff]

theorem Language.tag_injective : Function.Injective tag := by
  intro a b
  cases a <;> cases b <;> decide

theorem Language.ofTag?_eq_some_iff {t : Text} {language : Language} :
    ofTag? t = some language ↔ t = language.tag := by
  apply find?_name_eq_some_iff tag_injective
  intro a
  cases a <;> decide

theorem FilterName.name_injective : Function.Injective name := by
  intro a b
  cases a <;> cases b <;> decide

theorem FilterName.ofName?_eq_some_iff {t : Text} {filter : FilterName} :
    ofName? t = some filter ↔ t = filter.name := by
  apply find?_name_eq_some_iff name_injective
  intro a
  cases a <;> decide

theorem RuleLevel.ofName?_eq_some_iff {t : Text} {level : RuleLevel} :
    ofName? t = some level ↔ t = level.name := by
  apply find?_name_eq_some_iff
  · intro a b
    cases a <;> cases b <;> decide
  · intro a
    cases a <;> decide

theorem CacheBackend.ofName?_eq_some_iff {t : Text} {backend : CacheBackend} :
    ofName? t = some backend ↔ t = backend.name := by
  apply find?_name_eq_some_iff
  · intro a b
    cases a <;> cases b <;> decide
  · intro a
    cases a <;> decide

/-! ## Shapes -/

namespace Yaml.Value

/-- A mapping, or a value of one of the two other kinds that count as one. -/
def CountsAsMapping : Value → Prop
  | .object _ | .moment _ | .bytes _ => True
  | _ => False

/-- The fields of a value.  Bytes stand under their places, and a value of any other kind than these
and mappings has none. -/
def fields : Value → Fields
  | .object fields => fields
  | .bytes values => values.mapIdx fun i b => (Text.ofNat i, .number (Number.ofNat b.toNat))
  | _ => []

def numberOf : Value → Option Number
  | .number x => some x
  | _ => none

def truthOf : Value → Option Bool
  | .bool b => some b
  | _ => none

def textOf : Value → Option Text
  | .string t => some t
  | _ => none

def itemsOf : Value → Option (List Value)
  | .array items => some items
  | _ => none

theorem record?_eq_some_iff {v : Value} {own : Fields} :
    v.record? = some own ↔ v.CountsAsMapping ∧ v.fields = own := by
  cases v <;> simp [record?, parts?, placed, CountsAsMapping, fields, List.mapIdx_eq_zipIdx_map,
    List.zipIdx_map, Function.comp_def]

theorem getD_record? (v : Value) : v.record?.getD [] = v.fields := by
  cases hv : v.record? with
  | some own => exact (record?_eq_some_iff.mp hv).2.symm
  | none => cases v <;> first | rfl | cases hv

end Yaml.Value

/-- The values of a shape. -/
def FieldShape.Fits : FieldShape → Yaml.Value → Prop
  | .number, .number x => x ≠ .nan
  | .truth, .bool _ => True
  | .text, .string _ => True
  | .globList, .array items => ∀ item ∈ items, ∃ t, item = .string t
  | .level, .string t => ∃ level : RuleLevel, t = level.name
  | .backend, .string t => ∃ backend : CacheBackend, t = backend.name
  | .mapping, v => v.CountsAsMapping
  | _, _ => False

namespace Settings

open Yaml.Value

/-- A reading of values that accepts those of a shape. -/
def Accepts {α : Type} (shape : FieldShape) (read : Yaml.Value → Option α) : Prop :=
  ∀ v, shape.Fits v ↔ ∃ x, read v = some x

theorem accepts_properNumber : Accepts .number properNumber? := by
  intro v
  cases v with
  | number x => cases x <;> simp [FieldShape.Fits, properNumber?]
  | _ => simp [FieldShape.Fits, properNumber?]

theorem accepts_bool : Accepts .truth bool? := by
  intro v
  cases v <;> simp [FieldShape.Fits, bool?]

theorem accepts_string : Accepts .text string? := by
  intro v
  cases v <;> simp [FieldShape.Fits, string?]

theorem accepts_record : Accepts .mapping record? := by
  intro v
  simp [FieldShape.Fits, record?_eq_some_iff]

theorem mapM_string_eq_some_iff {items : List Yaml.Value} {texts : List Text} :
    items.mapM string? = some texts ↔ items = texts.map .string := by
  induction items generalizing texts with
  | nil => cases texts <;> simp
  | cons item items ih =>
      cases item with
      | string t =>
          rw [List.mapM_cons]
          cases texts with
          | nil => simp [string?, Option.bind_eq_some_iff]
          | cons u texts => simp [string?, Option.bind_eq_some_iff, ih, and_comm]
      | _ => cases texts <;> simp [string?]

theorem texts?_eq_some_iff {v : Yaml.Value} {texts : List Text} :
    texts? v = some texts ↔ v = .array (texts.map .string) := by
  cases v <;> simp [texts?, array?, mapM_string_eq_some_iff]

theorem accepts_texts : Accepts .globList texts? := by
  intro v
  cases v with
  | array items =>
      simp only [FieldShape.Fits, texts?_eq_some_iff, Yaml.Value.array.injEq]
      constructor
      · intro hitems
        choose! text htext using hitems
        exact ⟨items.map text, by
          rw [List.map_map]
          exact (List.map_id' items).symm.trans (List.map_congr_left htext)⟩
      · rintro ⟨texts, rfl⟩ item hitem
        obtain ⟨t, -, rfl⟩ := List.mem_map.mp hitem
        exact ⟨t, rfl⟩
  | _ => simp [FieldShape.Fits, texts?, array?]

theorem accepts_level : Accepts .level fun v => v.string?.bind RuleLevel.ofName? := by
  intro v
  cases v with
  | string t => simp [FieldShape.Fits, string?, RuleLevel.ofName?_eq_some_iff]
  | _ => simp [FieldShape.Fits, string?]

theorem accepts_backend : Accepts .backend fun v => v.string?.bind CacheBackend.ofName? := by
  intro v
  cases v with
  | string t => simp [FieldShape.Fits, string?, CacheBackend.ofName?_eq_some_iff]
  | _ => simp [FieldShape.Fits, string?]

/-! ## Fields -/

/-- A field is absent or null or of a shape. -/
def Holds (shape : FieldShape) (fields : Yaml.Fields) (key : Text) : Prop :=
  ∀ v, fields.lookup key = some v → v = .null ∨ shape.Fits v

def numberAt (fields : Yaml.Fields) (key : String) : Option Number :=
  (fields.lookup (Text.ofString key)).bind numberOf

def truthAt (fields : Yaml.Fields) (key : String) : Option Bool :=
  (fields.lookup (Text.ofString key)).bind truthOf

def textAt (fields : Yaml.Fields) (key : String) : Option Text :=
  (fields.lookup (Text.ofString key)).bind textOf

def itemsAt (fields : Yaml.Fields) (key : String) : Option (List Yaml.Value) :=
  (fields.lookup (Text.ofString key)).bind itemsOf

/-- The fields of a section; one that is not given has none. -/
def sectionAt (fields : Yaml.Fields) (key : String) : Yaml.Fields :=
  ((fields.lookup (Text.ofString key)).map Yaml.Value.fields).getD []

variable {fields : Yaml.Fields} {place : Text}

theorem getField_eq_lookup {α : Type} (fields : List (Text × α)) (key : Text) :
    Json.getField fields key = fields.lookup key := by
  induction fields with
  | nil => rfl
  | cons f fields ih =>
      rw [Json.getField, List.find?_cons, List.lookup_cons, BEq.comm]
      cases key == f.1 with
      | true => rfl
      | false => exact ih

theorem given?_of_lookup {key : Text} {v : Yaml.Value} (hfield : fields.lookup key = some v)
    (hv : v ≠ .null) : given? fields key = some v := by
  rw [given?, getField_eq_lookup, hfield]
  split
  case h_1 heq => exact absurd (Option.some.inj heq) hv
  case h_2 => rfl

theorem readRecord_spec (fault : ConfigFault) (v : Yaml.Value) :
    Decides (readRecord fault v) v.CountsAsMapping (· = v.fields) := by
  rw [readRecord]
  cases hv : v.record? with
  | some own =>
      obtain ⟨hmapping, rfl⟩ := record?_eq_some_iff.mp hv
      exact ⟨hmapping, rfl⟩
  | none =>
      intro hmapping
      rw [record?_eq_some_iff.mpr ⟨hmapping, rfl⟩] at hv
      cases hv

/-- What is read of a field is what its value means, and an absent or null field means nothing. -/
theorem readField_spec {α β : Type} {shape : FieldShape} {read : Yaml.Value → Option α}
    (shown : α → β) (meaning : Yaml.Value → Option β) (h : Accepts shape read)
    (hnull : meaning .null = none) (hmeaning : ∀ v x, read v = some x → meaning v = some (shown x))
    (key : Text) :
    Decides (readField shape read fields place key) (Holds shape fields key)
      fun x? => x?.map shown = (fields.lookup key).bind meaning := by
  cases hfield : fields.lookup key with
  | none => simp [readField, given?, getField_eq_lookup, Decides, Holds, hfield]
  | some v =>
      by_cases hv : v = .null
      · simp [readField, given?, getField_eq_lookup, Decides, Holds, hfield, hv, hnull]
      · rw [readField, given?_of_lookup hfield hv]
        cases hread : read v with
        | none => simpa [Decides, Holds, hfield, hv, hread] using (h v).not.mpr (by simp [hread])
        | some x =>
            simpa [Decides, Holds, hfield, hv, hread, hmeaning v x hread] using
              (h v).mpr ⟨x, hread⟩

theorem readNumber_spec (fields : Yaml.Fields) (place : Text) (key : String) :
    Decides (readNumber fields place key) (Holds .number fields (Text.ofString key))
      (· = numberAt fields key) := by
  refine (readField_spec id numberOf accepts_properNumber rfl ?_ _).mono
    fun x? _ hx => by simpa [numberAt] using hx
  intro v x hx
  cases v with
  | number y => cases y <;> simp_all [properNumber?, numberOf]
  | _ => simp [properNumber?] at hx

theorem readTruth_spec (fields : Yaml.Fields) (place key : Text) :
    Decides (readField .truth bool? fields place key) (Holds .truth fields key)
      (· = (fields.lookup key).bind truthOf) := by
  refine (readField_spec id truthOf accepts_bool rfl ?_ _).mono
    fun x? _ hx => by simpa using hx
  intro v x hx
  cases v <;> simp_all [bool?, truthOf]

theorem textOf_of_string? {v : Yaml.Value} {t : Text} (h : v.string? = some t) :
    v.textOf = some t := by
  cases v <;> simp_all [string?, textOf]

theorem readText_spec (fields : Yaml.Fields) (place : Text) (key : String) :
    Decides (readText fields place key) (Holds .text fields (Text.ofString key))
      (· = textAt fields key) :=
  (readField_spec id textOf accepts_string rfl
    (fun _ _ => textOf_of_string?) _).mono fun x? _ hx => by simpa [textAt] using hx

/-- What is read of a field that holds one of some names has the text of the field for its name. -/
theorem readName_spec {α : Type} {shape : FieldShape} {name : α → Text} {ofName? : Text → Option α}
    (h : Accepts shape fun v => v.string?.bind ofName?)
    (hname : ∀ {t a}, ofName? t = some a ↔ t = name a) (key : String) :
    Decides (readField shape (fun v => v.string?.bind ofName?) fields place (Text.ofString key))
      (Holds shape fields (Text.ofString key)) fun a? => a?.map name = textAt fields key := by
  refine readField_spec name textOf h rfl ?_ _
  intro v a ha
  obtain ⟨t, ht, ha⟩ := Option.bind_eq_some_iff.mp ha
  rw [textOf_of_string? ht, hname.mp ha]

theorem readLevel_spec (fields : Yaml.Fields) (place : Text) :
    Decides (readLevel fields place) (Holds .level fields (Text.ofString "level"))
      fun level => level.map RuleLevel.name = textAt fields "level" :=
  readName_spec accepts_level RuleLevel.ofName?_eq_some_iff _

theorem readBackend_spec (fields : Yaml.Fields) (place : Text) :
    Decides (readBackend fields place) (Holds .backend fields (Text.ofString "backend"))
      fun backend => backend.map CacheBackend.name = textAt fields "backend" :=
  readName_spec accepts_backend CacheBackend.ofName?_eq_some_iff _

theorem readGlobs_spec (fields : Yaml.Fields) (place : Text) (key : String) :
    Decides (readField .globList texts? fields place (Text.ofString key))
      (Holds .globList fields (Text.ofString key))
      fun globs => globs.map (fun l => l.map Yaml.Value.string) = itemsAt fields key := by
  refine readField_spec (List.map Yaml.Value.string) itemsOf accepts_texts rfl ?_ _
  intro v texts htexts
  rw [texts?_eq_some_iff.mp htexts, itemsOf]

theorem readMapping_spec (fields : Yaml.Fields) (place : Text) (key : String) :
    Decides (readField .mapping record? fields place (Text.ofString key))
      (Holds .mapping fields (Text.ofString key)) (·.getD [] = sectionAt fields key) := by
  refine (readField_spec id record? accepts_record rfl
    (fun _ _ hread => hread) _).mono fun entries? _ hentries => ?_
  rw [Option.map_id, id_eq] at hentries
  rw [hentries, sectionAt]
  cases fields.lookup (Text.ofString key) with
  | none => rfl
  | some v => exact getD_record? v

/-! ## Sections -/

def Fits (table : List (String × FieldShape)) (fields : Yaml.Fields) : Prop :=
  ∀ e ∈ table, Holds e.2 fields (Text.ofString e.1)

def thresholdFields : List (String × FieldShape) :=
  [("min_duplicate_lines", .number), ("min_duplicate_tokens", .number),
    ("min_occurrences", .number)]

def duplicateFields : List (String × FieldShape) :=
  [("enabled", .truth)] ++ thresholdFields ++
    [("languages", .mapping), ("normalize", .truth), ("level", .level), ("filters", .mapping),
      ("detect_duplicate_constants", .truth), ("min_constant_occurrences", .number)]

def fileFields : List (String × FieldShape) :=
  [("ignore", .globList)]

def cacheFields : List (String × FieldShape) :=
  [("enabled", .truth), ("backend", .backend), ("dir", .text), ("max_age_days", .number),
    ("key_prefix", .text)]

def scanFields : List (String × FieldShape) :=
  [("workers", .number), ("strict", .truth), ("inline_suppressions", .truth)]

def topFields : List (String × FieldShape) :=
  [("version", .number), ("duplicates", .mapping), ("files", .mapping), ("cache", .mapping),
    ("scan", .mapping)]

theorem fits_nil (table : List (String × FieldShape)) : Fits table [] := by
  intro e he v hv
  simp at hv

/-- Reading every entry of a mapping that may be absent. -/
theorem readEntries_spec {α : Type} {key : String}
    {item : Yaml.Fields → Text × Yaml.Value → Reading α}
    {P : Yaml.Fields → Text × Yaml.Value → Prop} {R : Yaml.Fields → Text × Yaml.Value → α → Prop}
    (hitem : ∀ entries e, Decides (item entries e) (P entries e) (R entries e)) :
    Decides
      (do
        match ← readField .mapping record? fields place (Text.ofString key) with
        | none => return none
        | some entries => some <$> entries.mapM (item entries))
      (Holds .mapping fields (Text.ofString key) ∧
        ∀ e ∈ sectionAt fields key, P (sectionAt fields key) e)
      fun items => List.Forall₂ (R (sectionAt fields key)) (sectionAt fields key)
        (items.getD []) := by
  refine (readMapping_spec fields place key).bind fun entries _ hentries => ?_
  rw [← hentries]
  cases entries with
  | none => exact ⟨by simp, List.Forall₂.nil⟩
  | some entries => exact (Decides.mapM fun e _ => hitem entries e).map fun items _ h => h

/-! ## Thresholds and languages -/

def thresholdsAt (fields : Yaml.Fields) : ThresholdSettings where
  lines := numberAt fields "min_duplicate_lines"
  tokens := numberAt fields "min_duplicate_tokens"
  occurrences := numberAt fields "min_occurrences"

theorem readThresholds_spec (fields : Yaml.Fields) (place : Text) :
    Decides (readThresholds fields place) (Fits thresholdFields fields)
      (· = thresholdsAt fields) := by
  have hread : Decides (readThresholds fields place)
      (Holds .number fields (Text.ofString "min_duplicate_lines") ∧
        Holds .number fields (Text.ofString "min_duplicate_tokens") ∧
        Holds .number fields (Text.ofString "min_occurrences") ∧ True)
      (· = thresholdsAt fields) := by
    refine (readNumber_spec _ _ _).bind fun lines _ hlines => ?_
    refine (readNumber_spec _ _ _).bind fun tokens _ htokens => ?_
    refine (readNumber_spec _ _ _).bind fun occurrences _ hoccurrences => ?_
    apply Decides.pure
    rw [hlines, htokens, hoccurrences]
    rfl
  exact hread.congr (by simp [Fits, thresholdFields])

/-- The thresholds of a language: a known tag and a mapping. -/
def TypedLanguage (e : Text × Yaml.Value) : Prop :=
  (∃ language : Language, e.1 = language.tag) ∧ e.2.CountsAsMapping ∧
    Fits thresholdFields e.2.fields

def ReadsLanguage (e : Text × Yaml.Value) (l : Language × ThresholdSettings) : Prop :=
  e.1 = l.1.tag ∧ l.2 = thresholdsAt e.2.fields

theorem readLanguage_spec (place : Text) (e : Text × Yaml.Value) :
    Decides (readLanguage place e) (TypedLanguage e) (ReadsLanguage e) := by
  unfold readLanguage
  cases hlanguage : Language.ofTag? e.1 with
  | none =>
      rintro ⟨⟨language, htag⟩, -⟩
      rw [Language.ofTag?_eq_some_iff.mpr htag] at hlanguage
      cases hlanguage
  | some language =>
      have htag := Language.ofTag?_eq_some_iff.mp hlanguage
      have hread : Decides
          (do
            let place := place ++ Text.ofString "." ++ e.1
            let fields ← readRecord (.wrongShape place .mapping) e.2
            return (language, ← readThresholds fields place))
          (e.2.CountsAsMapping ∧ Fits thresholdFields e.2.fields ∧ True) (ReadsLanguage e) := by
        refine (readRecord_spec _ _).bind fun own _ hown => ?_
        rw [← hown]
        refine (readThresholds_spec _ _).bind fun t _ ht => ?_
        exact Decides.pure ⟨htag, ht.trans (by rw [hown])⟩
      refine hread.congr ⟨fun ⟨hmapping, hfits, _⟩ => ⟨⟨language, htag⟩, hmapping, hfits⟩, ?_⟩
      exact fun ⟨_, hmapping, hfits⟩ => ⟨hmapping, hfits, trivial⟩

theorem readLanguages_spec (fields : Yaml.Fields) (place : Text) :
    Decides (readLanguages fields place)
      (Holds .mapping fields (Text.ofString "languages") ∧
        ∀ e ∈ sectionAt fields "languages", TypedLanguage e)
      fun languages =>
        List.Forall₂ ReadsLanguage (sectionAt fields "languages") (languages.getD []) :=
  readEntries_spec fun _ e => readLanguage_spec _ e

/-! ## Filters -/

/-- A filter switch: a known name and a truth value or null. -/
def TypedFilter (entries : Yaml.Fields) (name : Text) : Prop :=
  (∃ filter : FilterName, name = filter.name) ∧ Holds .truth entries name

def ReadsFilter (entries : Yaml.Fields) (e : Text × Yaml.Value) (s : FilterName × Option Bool) :
    Prop :=
  e.1 = s.1.name ∧ s.2 = (entries.lookup e.1).bind truthOf

theorem readFilter_spec (entries : Yaml.Fields) (place : Text) (e : Text × Yaml.Value) :
    Decides (readFilter entries place e.1) (TypedFilter entries e.1) (ReadsFilter entries e) := by
  unfold readFilter
  cases hfilter : FilterName.ofName? e.1 with
  | none =>
      rintro ⟨⟨filter, hname⟩, -⟩
      rw [FilterName.ofName?_eq_some_iff.mpr hname] at hfilter
      cases hfilter
  | some filter =>
      have hname := FilterName.ofName?_eq_some_iff.mp hfilter
      have hread := (readTruth_spec entries place e.1).map (f := fun b => (filter, b))
        (S := ReadsFilter entries e) fun b _ hb => ⟨hname, hb⟩
      exact hread.congr ⟨fun hholds => ⟨⟨filter, hname⟩, hholds⟩, fun htyped => htyped.2⟩

theorem readFilters_spec (fields : Yaml.Fields) (place : Text) :
    Decides (readFilters fields place)
      (Holds .mapping fields (Text.ofString "filters") ∧
        ∀ e ∈ sectionAt fields "filters", TypedFilter (sectionAt fields "filters") e.1)
      fun filters => List.Forall₂ (ReadsFilter (sectionAt fields "filters"))
        (sectionAt fields "filters") (filters.getD []) :=
  readEntries_spec fun entries e => readFilter_spec entries _ e

/-! ## Duplicate settings -/

structure TypedDuplicates (fields : Yaml.Fields) : Prop where
  fits : Fits duplicateFields fields
  languages : ∀ e ∈ sectionAt fields "languages", TypedLanguage e
  filters : ∀ e ∈ sectionAt fields "filters", TypedFilter (sectionAt fields "filters") e.1

structure ReadsDuplicates (fields : Yaml.Fields) (d : DuplicateSettings) : Prop where
  enabled : d.enabled = truthAt fields "enabled"
  thresholds : d.thresholds = thresholdsAt fields
  languages : List.Forall₂ ReadsLanguage (sectionAt fields "languages") (d.languages.getD [])
  normalize : d.normalize = truthAt fields "normalize"
  level : d.level.map RuleLevel.name = textAt fields "level"
  filters : List.Forall₂ (ReadsFilter (sectionAt fields "filters")) (sectionAt fields "filters")
    (d.filters.getD [])
  constants : d.constants = truthAt fields "detect_duplicate_constants"
  constantOccurrences : d.constantOccurrences = numberAt fields "min_constant_occurrences"

theorem typedDuplicates_iff (fields : Yaml.Fields) : TypedDuplicates fields ↔
    Holds .truth fields (Text.ofString "enabled") ∧ Fits thresholdFields fields ∧
      (Holds .mapping fields (Text.ofString "languages") ∧
        ∀ e ∈ sectionAt fields "languages", TypedLanguage e) ∧
      Holds .truth fields (Text.ofString "normalize") ∧
      Holds .level fields (Text.ofString "level") ∧
      (Holds .mapping fields (Text.ofString "filters") ∧
        ∀ e ∈ sectionAt fields "filters", TypedFilter (sectionAt fields "filters") e.1) ∧
      Holds .truth fields (Text.ofString "detect_duplicate_constants") ∧
      Holds .number fields (Text.ofString "min_constant_occurrences") ∧ True := by
  have hfits : Fits duplicateFields fields ↔
      Holds .truth fields (Text.ofString "enabled") ∧ Fits thresholdFields fields ∧
        Holds .mapping fields (Text.ofString "languages") ∧
        Holds .truth fields (Text.ofString "normalize") ∧
        Holds .level fields (Text.ofString "level") ∧
        Holds .mapping fields (Text.ofString "filters") ∧
        Holds .truth fields (Text.ofString "detect_duplicate_constants") ∧
        Holds .number fields (Text.ofString "min_constant_occurrences") := by
    simp [Fits, duplicateFields, thresholdFields, and_assoc]
  constructor
  · rintro ⟨hall, hlanguages, hfilters⟩
    obtain ⟨h1, h2, h3, h4, h5, h6, h7, h8⟩ := hfits.mp hall
    exact ⟨h1, h2, ⟨h3, hlanguages⟩, h4, h5, ⟨h6, hfilters⟩, h7, h8, trivial⟩
  · rintro ⟨h1, h2, ⟨h3, hlanguages⟩, h4, h5, ⟨h6, hfilters⟩, h7, h8, -⟩
    exact ⟨hfits.mpr ⟨h1, h2, h3, h4, h5, h6, h7, h8⟩, hlanguages, hfilters⟩

theorem readDuplicates_spec (fields : Yaml.Fields) (place : Text) :
    Decides (readDuplicates fields place) (TypedDuplicates fields) (ReadsDuplicates fields) := by
  apply Decides.congr _ (typedDuplicates_iff fields).symm
  refine (readTruth_spec _ _ _).bind fun enabled _ henabled => ?_
  refine (readThresholds_spec fields place).bind fun thresholds _ hthresholds => ?_
  refine (readLanguages_spec fields place).bind fun languages _ hlanguages => ?_
  refine (readTruth_spec _ _ _).bind fun normalize _ hnormalize => ?_
  refine (readLevel_spec _ _).bind fun level _ hlevel => ?_
  refine (readFilters_spec fields place).bind fun filters _ hfilters => ?_
  refine (readTruth_spec _ _ _).bind fun constants _ hconstants => ?_
  refine (readNumber_spec _ _ _).bind fun least _ hleast => ?_
  exact Decides.pure ⟨henabled, hthresholds, hlanguages, hnormalize, hlevel, hfilters, hconstants,
    hleast⟩

/-! ## The other sections -/

structure ReadsFiles (fields : Yaml.Fields) (f : FileSettings) : Prop where
  ignore : f.ignore.map (fun globs => globs.map Yaml.Value.string) = itemsAt fields "ignore"

theorem readFiles_spec (fields : Yaml.Fields) (place : Text) :
    Decides (readFiles fields place) (Fits fileFields fields) (ReadsFiles fields) := by
  have hread : Decides (readFiles fields place)
      (Holds .globList fields (Text.ofString "ignore") ∧ True) (ReadsFiles fields) := by
    refine (readGlobs_spec _ _ _).bind fun ignore _ hignore => ?_
    exact Decides.pure ⟨hignore⟩
  exact hread.congr (by simp [Fits, fileFields])

structure ReadsCache (fields : Yaml.Fields) (c : CacheSettings) : Prop where
  enabled : c.enabled = truthAt fields "enabled"
  backend : c.backend.map CacheBackend.name = textAt fields "backend"
  directory : c.directory = textAt fields "dir"
  maxAgeDays : c.maxAgeDays = numberAt fields "max_age_days"
  keyStart : c.keyStart = textAt fields "key_prefix"

theorem readCache_spec (fields : Yaml.Fields) (place : Text) :
    Decides (readCache fields place) (Fits cacheFields fields) (ReadsCache fields) := by
  have hread : Decides (readCache fields place)
      (Holds .truth fields (Text.ofString "enabled") ∧
        Holds .backend fields (Text.ofString "backend") ∧
        Holds .text fields (Text.ofString "dir") ∧
        Holds .number fields (Text.ofString "max_age_days") ∧
        Holds .text fields (Text.ofString "key_prefix") ∧ True)
      (ReadsCache fields) := by
    refine (readTruth_spec _ _ _).bind fun enabled _ henabled => ?_
    refine (readBackend_spec _ _).bind fun backend _ hbackend => ?_
    refine (readText_spec _ _ _).bind fun directory _ hdirectory => ?_
    refine (readNumber_spec _ _ _).bind fun maxAgeDays _ hage => ?_
    refine (readText_spec _ _ _).bind fun keyStart _ hkey => ?_
    exact Decides.pure ⟨henabled, hbackend, hdirectory, hage, hkey⟩
  exact hread.congr (by simp [Fits, cacheFields])

def scanAt (fields : Yaml.Fields) : ScanSettings where
  workers := numberAt fields "workers"
  strict := truthAt fields "strict"
  inlineSuppressions := truthAt fields "inline_suppressions"

theorem readScan_spec (fields : Yaml.Fields) (place : Text) :
    Decides (readScan fields place) (Fits scanFields fields) (· = scanAt fields) := by
  have hread : Decides (readScan fields place)
      (Holds .number fields (Text.ofString "workers") ∧
        Holds .truth fields (Text.ofString "strict") ∧
        Holds .truth fields (Text.ofString "inline_suppressions") ∧ True)
      (· = scanAt fields) := by
    refine (readNumber_spec _ _ _).bind fun workers _ hworkers => ?_
    refine (readTruth_spec _ _ _).bind fun strict _ hstrict => ?_
    refine (readTruth_spec _ _ _).bind fun inline _ hinline => ?_
    apply Decides.pure
    rw [hworkers, hstrict, hinline]
    rfl
  exact hread.congr (by simp [Fits, scanFields])

/-! ## Documents -/

/-- A section that is absent or null has no fields, and its settings are empty. -/
theorem readSection_spec {α : Type} {read : Yaml.Fields → Text → Reading α} {empty : α}
    {P : Yaml.Fields → Prop} {R : Yaml.Fields → α → Prop}
    (hread : ∀ fields place, Decides (read fields place) (P fields) (R fields)) (hP : P [])
    (hR : R [] empty) (document : Yaml.Fields) (origin : Text) (key : String) :
    Decides (readSection document origin key read)
      (Holds .mapping document (Text.ofString key) ∧ P (sectionAt document key))
      fun section? => R (sectionAt document key) (section?.getD empty) := by
  cases hfield : document.lookup (Text.ofString key) with
  | none =>
      simp [readSection, given?, getField_eq_lookup, Decides, Holds, sectionAt, hfield, hP, hR]
  | some v =>
      have hsection : sectionAt document key = v.fields := by simp [sectionAt, hfield]
      by_cases hv : v = .null
      · simp [readSection, given?, getField_eq_lookup, Decides, Holds, hfield, hv, hsection,
          Yaml.Value.fields, hP, hR]
      · have hholds : Holds .mapping document (Text.ofString key) ↔ v.CountsAsMapping := by
          simp [Holds, hfield, hv, FieldShape.Fits]
        rw [readSection, given?_of_lookup hfield hv, hsection, hholds]
        refine (readRecord_spec _ v).bind fun own _ hown => ?_
        rw [← hown]
        exact (hread own _).map fun x _ hx => hx

structure TypedDocument (document : Yaml.Fields) : Prop where
  top : Fits topFields document
  duplicates : TypedDuplicates (sectionAt document "duplicates")
  files : Fits fileFields (sectionAt document "files")
  cache : Fits cacheFields (sectionAt document "cache")
  scan : Fits scanFields (sectionAt document "scan")

structure ReadsDocument (document : Yaml.Fields) (s : Settings) : Prop where
  version : s.version = (numberAt document "version").getD (.finite 1)
  duplicates : ReadsDuplicates (sectionAt document "duplicates") (s.duplicates.getD {})
  files : ReadsFiles (sectionAt document "files") (s.files.getD {})
  cache : ReadsCache (sectionAt document "cache") (s.cache.getD {})
  scan : s.scan.getD {} = scanAt (sectionAt document "scan")

theorem typedDuplicates_nil : TypedDuplicates [] :=
  ⟨fits_nil _, by simp [sectionAt], by simp [sectionAt]⟩

theorem readsDuplicates_nil : ReadsDuplicates [] {} :=
  ⟨rfl, rfl, List.Forall₂.nil, rfl, rfl, List.Forall₂.nil, rfl, rfl⟩

theorem readsFiles_nil : ReadsFiles [] {} :=
  ⟨rfl⟩

theorem readsCache_nil : ReadsCache [] {} :=
  ⟨rfl, rfl, rfl, rfl, rfl⟩

theorem typedDocument_iff (document : Yaml.Fields) : TypedDocument document ↔
    Holds .number document (Text.ofString "version") ∧
      (Holds .mapping document (Text.ofString "duplicates") ∧
        TypedDuplicates (sectionAt document "duplicates")) ∧
      (Holds .mapping document (Text.ofString "files") ∧
        Fits fileFields (sectionAt document "files")) ∧
      (Holds .mapping document (Text.ofString "cache") ∧
        Fits cacheFields (sectionAt document "cache")) ∧
      (Holds .mapping document (Text.ofString "scan") ∧
        Fits scanFields (sectionAt document "scan")) ∧ True := by
  have htop : Fits topFields document ↔
      Holds .number document (Text.ofString "version") ∧
        Holds .mapping document (Text.ofString "duplicates") ∧
        Holds .mapping document (Text.ofString "files") ∧
        Holds .mapping document (Text.ofString "cache") ∧
        Holds .mapping document (Text.ofString "scan") := by
    simp [Fits, topFields]
  constructor
  · rintro ⟨hfits, hduplicates, hfiles, hcache, hscan⟩
    obtain ⟨h1, h2, h3, h4, h5⟩ := htop.mp hfits
    exact ⟨h1, ⟨h2, hduplicates⟩, ⟨h3, hfiles⟩, ⟨h4, hcache⟩, ⟨h5, hscan⟩, trivial⟩
  · rintro ⟨h1, ⟨h2, hduplicates⟩, ⟨h3, hfiles⟩, ⟨h4, hcache⟩, ⟨h5, hscan⟩, -⟩
    exact ⟨htop.mpr ⟨h1, h2, h3, h4, h5⟩, hduplicates, hfiles, hcache, hscan⟩

theorem ofFields_spec (document : Yaml.Fields) (origin : Text) :
    Decides (ofFields document origin) (TypedDocument document) (ReadsDocument document) := by
  apply Decides.congr _ (typedDocument_iff document).symm
  refine (readNumber_spec _ _ _).bind fun version _ hversion => ?_
  refine (readSection_spec readDuplicates_spec typedDuplicates_nil readsDuplicates_nil _ _ _).bind
    fun duplicates _ hduplicates => ?_
  refine (readSection_spec readFiles_spec (fits_nil _) readsFiles_nil _ _ _).bind
    fun files _ hfiles => ?_
  refine (readSection_spec readCache_spec (fits_nil _) readsCache_nil _ _ _).bind
    fun cache _ hcache => ?_
  refine (readSection_spec readScan_spec (fits_nil _) rfl _ _ _).bind fun scan _ hscan => ?_
  refine Decides.pure ⟨?_, hduplicates, hfiles, hcache, hscan⟩
  rw [hversion]

end Settings

namespace Yaml.Document

/-- The fields of a document; an empty one has none. -/
def fields : Document → Fields
  | .empty => []
  | .value v => v.fields

/-- A document is empty or null, or else counts as a mapping. -/
def HoldsMapping : Document → Prop
  | .empty | .value .null => True
  | .value v => v.CountsAsMapping

end Yaml.Document

namespace Settings

theorem ofDocument_spec (document : Yaml.Document) (origin : Text) :
    Decides (ofDocument document origin) (document.HoldsMapping ∧ TypedDocument document.fields)
      (ReadsDocument document.fields) := by
  have hempty : Decides (Except.ok {} : Reading Settings) (True ∧ TypedDocument [])
      (ReadsDocument []) :=
    ⟨⟨trivial, fits_nil _, typedDuplicates_nil, fits_nil _, fits_nil _, fits_nil _⟩,
      rfl, readsDuplicates_nil, readsFiles_nil, readsCache_nil, rfl⟩
  cases document with
  | empty => exact hempty
  | value v =>
      by_cases hv : v = .null
      · subst hv
        exact hempty
      · have hholds : Yaml.Document.HoldsMapping (.value v) ↔ v.CountsAsMapping := by
          cases v <;> simp_all [Yaml.Document.HoldsMapping]
        have hof : ofDocument (.value v) origin =
            readRecord (.noMapping origin) v >>= fun fields => ofFields fields origin := by
          cases v <;> first | rfl | cases hv rfl
        rw [hof, hholds]
        refine (readRecord_spec _ v).bind fun own _ hown => ?_
        rw [hown]
        exact ofFields_spec v.fields origin

end Settings

end CloneScan
