import CloneScan.Proofs.DiskDurability
import CloneScan.Proofs.RollingHash
import CloneScan.Proofs.StoreHistory

/-!
# Stores that do not fail

Each store is the abstract store of values on its own shelf, as long as its calls come at finite
times, with keys that can name files and values that the shelf keeps.  The records of files are such
values, and what is found under a key is what its record reads as.
-/

namespace CloneScan

/-! ## One abstract store for all kinds -/

namespace DiskStore

/-- The surroundings show a view, with an index file from which the store can be opened again. -/
def ShowsStored (directory : List Text) (s : Surroundings DiskState)
    (v : StoreView (List UInt8 × Option Number)) : Prop :=
  (∃ behind, Follows directory s behind) ∧ v = view directory s

theorem refines_stored (directory : List Text) :
    (diskStore directory).Refines shelf (fun now c => now.IsFinite ∧ c.HasKey)
      (ShowsStored directory) := by
  rintro s v now c ⟨⟨behind, hfollows⟩, rfl⟩ ⟨hnow, hkey⟩
  obtain ⟨hanswer, -, hview⟩ := refines directory s _ now c ⟨hfollows.sound, rfl⟩ hkey
  exact ⟨hanswer, ⟨_, hfollows.step hnow hkey⟩, hview⟩

theorem showsStored_empty {directory : List Text} {files : FileTree} (h : files.IsBare directory)
    (now : Number) (notes : List Note) :
    ShowsStored directory ⟨files, .opened, now, notes⟩ .empty := by
  obtain ⟨hsound, hview⟩ := shows_empty h now notes
  refine ⟨⟨False, .of_opened hsound rfl fun key time hseen => ?_⟩, hview⟩
  have hindex : IndexView.empty = (indexOf directory ⟨files, .opened, now, notes⟩).view :=
    congrArg StoreView.index hview
  rw [← hindex] at hseen
  cases hseen

end DiskStore

namespace StoreKind

/-- What the store keeps for a record. -/
def Kept : StoreKind → Type
  | .memory => Json
  | .shared _ => Text
  | .disk _ => List UInt8 × Option Number

def shelf : (k : StoreKind) → Shelf k.Kept
  | .memory => MemoryStore.shelf
  | .shared _ => SharedStore.shelf
  | .disk _ => DiskStore.shelf

/-- The surroundings show a view of what the store keeps. -/
def ShowsKept : (k : StoreKind) → Surroundings k.State → StoreView k.Kept → Prop
  | .memory => MemoryStore.Shows
  | .shared start => SharedStore.Shows start
  | .disk directory => DiskStore.ShowsStored directory

/-- The surroundings show a view of values. -/
def Shows (k : StoreKind) : Surroundings k.State → StoreView Json → Prop :=
  CacheStore.ShowsValues k.shelf k.ShowsKept

/-- A call with a key that can name a file and a value that the shelf keeps. -/
structure Accepts (k : StoreKind) (c : StoreCall) : Prop where
  key : c.HasKey
  value : ∀ key value, c = .put key value → k.shelf.Keeps value

theorem refines (k : StoreKind) :
    k.store.Refines .plain (fun now c => now.IsFinite ∧ k.Accepts c) k.Shows := by
  rintro s v now c hs ⟨hnow, hc⟩
  cases k with
  | memory => exact MemoryStore.refines.plain s v now c hs ⟨trivial, hc.value⟩
  | shared start =>
      exact (SharedStore.refines start).plain s v now c hs ⟨hnow.ofText_text, hc.value⟩
  | disk directory =>
      exact (DiskStore.refines_stored directory).plain s v now c hs ⟨⟨hnow, hc.key⟩, hc.value⟩

/-- A store that was never used. -/
def IsNew : (k : StoreKind) → Surroundings k.State → Prop
  | .memory, s => s.state = .empty
  | .shared _, s => s.state = .empty
  | .disk directory, s => s.state = .opened ∧ s.files.IsBare directory

theorem shows_of_isNew {k : StoreKind} {s : Surroundings k.State} (h : k.IsNew s) :
    k.Shows s .empty := by
  refine ⟨StoreView.isTracked_empty, .empty, StoreView.isShelved_empty _, ?_⟩
  obtain ⟨files, state, now, notes⟩ := s
  cases k with
  | memory =>
      obtain rfl : state = .empty := h
      exact MemoryStore.shows_empty files now notes
  | shared start =>
      obtain rfl : state = .empty := h
      exact SharedStore.shows_empty start files now notes
  | disk directory =>
      obtain ⟨hstate, hbare⟩ := h
      obtain rfl : state = .opened := hstate
      exact DiskStore.showsStored_empty hbare now notes

variable {k : StoreKind}

/-- Neither the clock nor the log is a matter of the store. -/
theorem Shows.of_eq {s t : Surroundings k.State} {v : StoreView Json} (h : k.Shows s v)
    (hfiles : t.files = s.files) (hstate : t.state = s.state) : k.Shows t v := by
  obtain ⟨htracked, u, hu, h⟩ := h
  refine ⟨htracked, u, hu, ?_⟩
  obtain ⟨files, state, now, notes⟩ := s
  obtain ⟨files', state', now', notes'⟩ := t
  obtain rfl : files' = files := hfiles
  obtain rfl : state' = state := hstate
  cases k with
  | memory => exact ⟨h.index, h.view⟩
  | shared start => exact ⟨h.healthy, h.tracked, h.view⟩
  | disk directory =>
      obtain ⟨⟨behind, hfollows⟩, hview⟩ := h
      have hsound := hfollows.sound
      exact ⟨⟨behind, ⟨hsound.healthy, hsound.unique, hsound.keys, hsound.loaded⟩,
        hfollows.unique, hfollows.times, hfollows.marked, hfollows.lags, hfollows.differs⟩, hview⟩

/-- A store on disk that is opened again shows the same records: it may have lost what its index
file lags behind by. -/
theorem Shows.reopen {directory : List Text} {s : Surroundings DiskState} {v : StoreView Json}
    (h : (StoreKind.disk directory).Shows s v) (hclean : s.state.dirty = false) :
    ∃ index, (StoreKind.disk directory).Shows (DiskStore.reopen s) { v with index } := by
  obtain ⟨htracked, u, hu, ⟨behind, hfollows⟩, rfl⟩ := h
  have hsound := hfollows.isSound_reopen hclean
  have hseen : (DiskStore.view directory (DiskStore.reopen s)).index.seen = v.index.seen := by
    rw [← hu.index]
    exact (congrArg (fun i => i.view.seen) (DiskStore.indexOf_reopen directory s)).trans
      (hfollows.lags hclean).seen
  refine ⟨(DiskStore.view directory (DiskStore.reopen s)).index, fun key r hr => ?_,
    DiskStore.view directory (DiskStore.reopen s), ⟨rfl, hu.reads⟩, ⟨False, ?_⟩, rfl⟩
  · rw [hseen]
    exact htracked key r hr
  · refine .of_opened hsound rfl fun key time htime => ?_
    rw [DiskStore.indexOf_reopen, (hfollows.lags hclean).seen] at htime
    exact hfollows.times key time htime

end StoreKind

/-! ## What is found in a store -/

namespace StoreView

/-- What the record under a key reads as, if there is one. -/
def found (v : StoreView Json) (key : Text) : Option (Except RecordFault CacheRecord) :=
  (v.records key).map CacheRecord.ofJson

variable {v : StoreView Json} {key : Text}

theorem answer_get_found (v : StoreView Json) (now : Number) (key : Text) :
    (v.step .plain now (.get key)).1 =
      .found (((v.found key).map Lookup.ofReading).getD .miss) := by
  rw [answer_get, found, Option.map_map]
  rfl

theorem found_get (now : Number) (h : ∀ fault, v.found key ≠ some (.error fault)) :
    (v.step .plain now (.get key)).2.found = v.found := by
  cases hrecord : v.records key with
  | none => simp [step, hrecord]
  | some value =>
      cases hread : CacheRecord.ofJson value with
      | ok r => simp [step, hrecord, Shelf.plain, hread, Lookup.ofReading]
      | error fault => exact absurd (by simp [found, hrecord, hread]) (h fault)

/-- A record that cannot be read is dropped when it is looked up. -/
theorem found_get_of_error (now : Number) {fault : RecordFault}
    (h : v.found key = some (.error fault)) :
    (v.step .plain now (.get key)).2.found = Function.update v.found key none := by
  obtain ⟨value, hrecord, hread⟩ := Option.map_eq_some_iff.mp h
  funext q
  by_cases hq : q = key <;>
    simp [found, step, hrecord, Shelf.plain, hread, Lookup.ofReading, drop, hq]

theorem found_put (now : Number) (value : Json) (h : v.found key = none) :
    (v.step .plain now (.put key value)).2.found =
      Function.update v.found key (some (CacheRecord.ofJson value)) := by
  have hrecord : v.records key = none := Option.map_eq_none_iff.mp h
  funext q
  by_cases hq : q = key <;> simp [found, step, hrecord, Shelf.plain, hq]

/-- A put does not write where something is. -/
theorem found_put_of_some (now : Number) (value : Json)
    {reading : Except RecordFault CacheRecord} (h : v.found key = some reading) :
    (v.step .plain now (.put key value)).2.found = v.found := by
  obtain ⟨value', hrecord, -⟩ := Option.map_eq_some_iff.mp h
  simp [step, hrecord]

/-- A record that is in use is not pruned. -/
theorem found_prune_of_live (v : StoreView Json) (now : Number) {options : PruneOptions}
    (hlive : key ∈ options.live) :
    (v.step .plain now (.prune options)).2.found key = v.found key := by
  have hkept : ¬ v.IsPruned .plain options now key := by
    rintro (⟨hdead, -⟩ | ⟨hstray, -⟩)
    · exact hdead hlive
    · exact hstray hlive
  simp [found, step, hkept]

end StoreView

theorem Lookup.ofReading_injective : Function.Injective Lookup.ofReading := by
  intro a b h
  cases a <;> cases b <;> cases h <;> rfl

/-- The records that a store on disk reads are those in its files. -/
theorem DiskStore.hasFile_iff {directory : List Text} {key : Text} (hkey : isKey key = true)
    (s : Surroundings DiskState) (r : CacheRecord) :
    (∃ bytes, s.files.HasFile (entriesPath directory ++ [key ++ suffix]) bytes ∧
        CacheRecord.decode (Text.ofUtf8 bytes) = .ok r) ↔
      ∃ stored, (view directory s).records key = some stored ∧ shelf.read stored = .hit r := by
  rw [view_records hkey, recordAt, recordPath]
  constructor
  · rintro ⟨bytes, ⟨time, hfile⟩, hread⟩
    rw [hfile]
    exact ⟨_, rfl, congrArg Lookup.ofReading hread⟩
  · rintro ⟨⟨bytes, time⟩, hstored, hread⟩
    refine ⟨bytes, ⟨time, ?_⟩, @Lookup.ofReading_injective _ (.ok r) hread⟩
    split at hstored
    case h_1 hfile =>
        cases hstored
        exact hfile
    case h_2 => cases hstored

namespace StoreKind

variable {k : StoreKind} {s : Surroundings k.State} {key : Text}

theorem holds_iff_kept {u : StoreView k.Kept} (hs : k.ShowsKept s u)
    (hkey : DiskStore.isKey key = true) (r : CacheRecord) :
    k.Holds s key r ↔ ∃ stored, u.records key = some stored ∧ k.shelf.read stored = .hit r := by
  have hreads : ∀ reading, Lookup.ofReading reading = .hit r ↔ reading = .ok r :=
    fun reading => Lookup.ofReading_injective.eq_iff (b := .ok r)
  cases k with
  | memory =>
      obtain rfl := hs.view
      apply exists_congr
      intro value
      refine and_congr_right fun _ => ?_
      simp only [shelf, MemoryStore.shelf]
      split
      case isTrue hvoid =>
          apply iff_of_false
          · intro hr
            cases value <;> first | cases hr | cases hvoid
          · intro hmiss
            cases hmiss
      case isFalse => exact (hreads _).symm
  | shared start =>
      obtain rfl := hs.view
      exact exists_congr fun t => and_congr_right fun _ => (hreads _).symm
  | disk directory =>
      obtain ⟨-, rfl⟩ := hs
      exact DiskStore.hasFile_iff hkey s r

/-- The usable records of a store are those that its view reads. -/
theorem holds_iff {v : StoreView Json} (hs : k.Shows s v) (hkey : DiskStore.isKey key = true)
    (r : CacheRecord) : k.Holds s key r ↔ v.found key = some (.ok r) := by
  obtain ⟨-, u, hu, hs⟩ := hs
  have hreads : ∀ reading, Lookup.ofReading reading = .hit r ↔ reading = .ok r :=
    fun reading => Lookup.ofReading_injective.eq_iff (b := .ok r)
  rw [holds_iff_kept hs hkey, ← Option.map_eq_some_iff, hu.reads key, StoreView.found,
    Option.map_eq_some_iff, Option.map_eq_some_iff]
  exact exists_congr fun value => and_congr_right fun _ => hreads _

end StoreKind

/-! ## The records of files -/

theorem Sha256.isWord_hexDigit {n : Nat} (hn : n < 16) : Text.isWord (hexDigit n) = true := by
  interval_cases n <;> rfl

theorem isWord_contentHash {bytes : List UInt8} {u : UInt16} (hu : u ∈ contentHash bytes) :
    Text.isWord u = true := by
  obtain ⟨w, -, hu⟩ := List.mem_flatMap.mp hu
  obtain ⟨i, -, rfl⟩ := List.mem_map.mp hu
  exact Sha256.isWord_hexDigit (Nat.mod_lt _ (by decide))

theorem length_contentHash (bytes : List UInt8) : (contentHash bytes).length = 64 := by
  have hword : ∀ w : UInt32, (Sha256.hexWord w).length = 8 := by simp [Sha256.hexWord]
  simp [contentHash, Sha256.hex, hword]

/-- The key of a file can name a file. -/
theorem isKey_cacheKey (bytes : List UInt8) (d : Dialect) :
    DiskStore.isKey (cacheKey (contentHash bytes) d.name) = true := by
  have hdialect : (d.name.all fun u => Text.isWord u || u == 0x2D) = true := by
    cases d <;> decide
  have hhash : ((contentHash bytes).all fun u => Text.isWord u || u == 0x2D) = true := by
    rw [List.all_eq_true]
    intro u hu
    rw [isWord_contentHash hu, Bool.true_or]
  have hdash : ((Text.ofString "-").all fun u => Text.isWord u || u == 0x2D) = true := by decide
  have hne : (cacheKey (contentHash bytes) d.name).isEmpty = false := by
    simp [cacheKey, show Text.ofString "-" ≠ [] by decide]
  rw [DiskStore.isKey, hne, cacheKey, List.all_append, List.all_append, hhash, hdash, hdialect]
  rfl

/-- Files of one key have one content digest and one dialect. -/
theorem cacheKey_injective {bytes bytes' : List UInt8} {dialect dialect' : Text}
    (h : cacheKey (contentHash bytes) dialect = cacheKey (contentHash bytes') dialect') :
    dialect = dialect' := by
  unfold cacheKey at h
  refine (List.append_inj h ?_).2
  simp [length_contentHash]

namespace CacheRecord

/-- The record that a file makes of its tokens can be read back. -/
theorem ofJson_toJson_hashesOf {params : RecordParams} (hdialect : isDialectName params.dialect)
    (tokens : List Token) (createdAt : Nat) :
    ofJson (CacheRecord.mk params tokens (FileTask.hashesOf params tokens) createdAt).toJson =
      .ok ⟨params, tokens, FileTask.hashesOf params tokens, createdAt⟩ :=
  (isSound_make hdialect tokens createdAt).ofJson_toJson

end CacheRecord

theorem Dialect.isDialectName_name (d : Dialect) : CacheRecord.isDialectName d.name = true := by
  cases d <;> decide

/-- A store keeps the records that it preserves. -/
theorem StoreKind.keeps_of_preserves {k : StoreKind} {r : CacheRecord} (h : k.Preserves r) :
    k.shelf.Keeps r.toJson := by
  cases k with
  | memory => exact fun _ => rfl
  | shared start => exact (Json.IsEntry.of_isExact h).shared_keeps
  | disk directory => exact (Json.IsEntry.of_isExact h).disk_keeps

end CloneScan
