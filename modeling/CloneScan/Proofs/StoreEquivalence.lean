import CloneScan.Proofs.DiskView
import CloneScan.Proofs.StoreRefinement

/-!
# The stores answer alike

The abstract store can keep its records as values, or on the shelf of any store that reads back what
it writes.  Both ways it answers alike, also on a shelf where records age, since the time of every
record is known.  So the stores in memory, on a server and on disk, each of which is the abstract
store on its own shelf, give the same answers to the same calls.
-/

namespace CloneScan

/-! ## Shelves -/

namespace Shelf

variable {ρ : Type}

/-- Records as values, which do not age. -/
def plain : Shelf Json where
  write := fun _ v => v
  read := fun v => .ofReading (CacheRecord.ofJson v)
  isOld := fun _ _ => false

/-- What a shelf writes for a value, at whatever time, reads as the value. -/
def Keeps (shelf : Shelf ρ) (value : Json) : Prop :=
  ∀ now, shelf.read (shelf.write now value) = plain.read value

end Shelf

/-- A value that is not taken for nothing and that its text stands for. -/
structure Json.IsEntry (value : Json) : Prop where
  solid : MemoryStore.isVoid value = false
  reads : Json.parse? value.render = some value

namespace Json.IsEntry

variable {value : Json}

theorem decode_render (h : value.IsEntry) :
    CacheRecord.decode value.render = CacheRecord.ofJson value := by
  rw [CacheRecord.decode, h.reads]

theorem of_isExact {r : CacheRecord} (hr : r.IsExact) : r.toJson.IsEntry :=
  ⟨rfl, Json.parse?_render (CacheRecord.faithful_toJson hr)⟩

theorem memory_keeps (h : value.IsEntry) : MemoryStore.shelf.Keeps value :=
  fun _ => if_neg (by simp [MemoryStore.shelf, h.solid])

theorem shared_keeps (h : value.IsEntry) : SharedStore.shelf.Keeps value :=
  fun _ => congrArg Lookup.ofReading h.decode_render

theorem disk_keeps (h : value.IsEntry) : DiskStore.shelf.Keeps value := by
  intro now
  refine congrArg Lookup.ofReading ?_
  change CacheRecord.decode (Text.ofUtf8 (Text.toUtf8 value.render)) = _
  rw [Text.ofUtf8_toUtf8 (Json.isPaired_render value), h.decode_render]

end Json.IsEntry

/-! ## The abstract store on a shelf -/

namespace StoreView

variable {ρ : Type} {shelf : Shelf ρ} {w : StoreView Json} {u : StoreView ρ}

/-- A store on a shelf reads as a store of values does, and has its index. -/
structure IsShelved (shelf : Shelf ρ) (w : StoreView Json) (u : StoreView ρ) : Prop where
  index : u.index = w.index
  reads : ∀ key, (u.records key).map shelf.read = (w.records key).map Shelf.plain.read

theorem isShelved_empty (shelf : Shelf ρ) : IsShelved shelf empty empty :=
  ⟨rfl, fun _ => rfl⟩

namespace IsShelved

theorem isSome_eq (h : IsShelved shelf w u) (key : Text) :
    (u.records key).isSome = (w.records key).isSome := by
  simpa using congrArg Option.isSome (h.reads key)

theorem exists_value (h : IsShelved shelf w u) {key : Text} {r : ρ} (hr : u.records key = some r) :
    ∃ value, w.records key = some value := by
  rw [← Option.isSome_iff_exists, ← h.isSome_eq, hr, Option.isSome_some]

theorem isTracked (h : IsShelved shelf w u) (hw : w.IsTracked) : u.IsTracked := by
  intro key r hr
  obtain ⟨value, hvalue⟩ := h.exists_value hr
  rw [h.index]
  exact hw key value hvalue

theorem drop (h : IsShelved shelf w u) (key : Text) :
    IsShelved shelf (w.drop key) (u.drop key) := by
  refine ⟨h.index, fun k => ?_⟩
  by_cases hk : k = key
  · simp [StoreView.drop, hk]
  · simpa [StoreView.drop, hk] using h.reads k

/-- A call is answered alike on the shelf, and the stores read alike afterwards. -/
theorem step (h : IsShelved shelf w u) (hw : w.IsTracked) (now : Number) {c : StoreCall}
    (hc : ∀ key value, c = .put key value → shelf.Keeps value) :
    (u.step shelf now c).1 = (w.step .plain now c).1 ∧
      IsShelved shelf (w.step .plain now c).2 (u.step shelf now c).2 := by
  cases c with
  | get key =>
      simp only [StoreView.step, h.reads key]
      split
      · exact ⟨rfl, h⟩
      · exact ⟨rfl, h.drop key⟩
      · exact ⟨rfl, h⟩
  | put key value =>
      cases hr : u.records key with
      | some r =>
          obtain ⟨found, hfound⟩ := h.exists_value hr
          simp only [StoreView.step, hr, hfound]
          exact ⟨trivial, h⟩
      | none =>
          have hnone : w.records key = none := by simpa [hr, eq_comm] using h.reads key
          simp only [StoreView.step, hr, hnone]
          refine ⟨trivial, by rw [h.index], fun k => ?_⟩
          by_cases hk : k = key
          · simpa [hk, Shelf.plain] using hc key value rfl now
          · simpa [hk] using h.reads k
  | invalidate path =>
      simp only [StoreView.step, h.index]
      split
      · exact ⟨rfl, rfl, h.reads⟩
      · exact ⟨rfl, rfl, (h.drop _).reads⟩
  | recordSeen path key => exact ⟨rfl, by simp only [StoreView.step, h.index], h.reads⟩
  | prune options =>
      have hpruned (key : Text) :
          u.IsPruned shelf options now key ↔ w.IsPruned .plain options now key := by
        rw [(h.isTracked hw).isPruned_iff, hw.isPruned_iff, h.index]
      simp only [StoreView.step, hpruned, h.isSome_eq, h.index]
      refine ⟨trivial, rfl, fun key => ?_⟩
      by_cases hgone : w.IsPruned .plain options now key
      · simp [hgone, hpruned]
      · simpa [hgone, hpruned] using h.reads key
  | flush => exact ⟨rfl, h⟩
  | clear => exact ⟨rfl, isShelved_empty shelf⟩

end IsShelved

end StoreView

/-- The surroundings show a store on a shelf that reads as the store of values does, where the time
of every record is known. -/
def CacheStore.ShowsValues {σ ρ : Type} (shelf : Shelf ρ)
    (Shows : Surroundings σ → StoreView ρ → Prop) (s : Surroundings σ) (w : StoreView Json) :
    Prop :=
  w.IsTracked ∧ ∃ u, w.IsShelved shelf u ∧ Shows s u

/-- A store on a shelf is a store of values as long as the shelf keeps what is put. -/
theorem CacheStore.Refines.plain {σ ρ : Type} {store : CacheStore σ} {shelf : Shelf ρ}
    {lawful : Number → StoreCall → Prop} {Shows : Surroundings σ → StoreView ρ → Prop}
    (h : store.Refines shelf lawful Shows) :
    store.Refines .plain
      (fun now c => lawful now c ∧ ∀ key value, c = .put key value → shelf.Keeps value)
      (ShowsValues shelf Shows) := by
  rintro s w now c ⟨htracked, u, hu, hs⟩ ⟨hlawful, hkeeps⟩
  obtain ⟨hanswer, hshows⟩ := h s u now c hs hlawful
  obtain ⟨hsame, hnext⟩ := hu.step htracked now hkeeps
  exact ⟨hanswer.trans (congrArg Except.ok hsame), htracked.step .plain now c, _, hnext, hshows⟩

/-! ## Lawful sessions -/

/-- A call at a finite time, with a key that can name a file and an entry that its text stands
for. -/
structure StoreCall.IsLawful (now : Number) (c : StoreCall) : Prop where
  time : now.IsFinite
  key : c.HasKey
  entry : ∀ key value, c = .put key value → value.IsEntry

theorem StoreCall.IsLawful.isTimely {now : Number} {c : StoreCall} (h : c.IsLawful now) :
    SharedStore.IsTimely now c :=
  h.time.ofText_text

/-- A store that starts as the abstract store on its shelf answers as the store of values. -/
theorem CacheStore.Refines.answers_eq_plain {σ ρ : Type} {store : CacheStore σ} {shelf : Shelf ρ}
    {lawful : Number → StoreCall → Prop} {Shows : Surroundings σ → StoreView ρ → Prop}
    (h : store.Refines shelf lawful Shows) {s : Surroundings σ} (hs : Shows s .empty)
    {session : Session} (hlawful : ∀ e ∈ session, lawful e.1 e.2)
    (hkept : ∀ e ∈ session, ∀ key value, e.2 = .put key value → shelf.Keeps value) :
    store.answers s session = (StoreView.empty.answers .plain session).map .ok :=
  h.plain.answers_eq ⟨StoreView.isTracked_empty, .empty, StoreView.isShelved_empty shelf, hs⟩
    fun e he => ⟨hlawful e he, hkept e he⟩

/-! ## The stores -/

/-- Directories alone lead to a directory, and nothing is in it. -/
structure FileTree.IsBare (directory : List Text) (t : FileTree) : Prop where
  rooted : t.IsRooted
  way : ∀ path, path <+: directory → t.IsClear path
  bare : ∀ name rest, t.entry? (directory ++ name :: rest) = none

theorem FileTree.isBare_empty (directory : List Text) : FileTree.IsBare directory .empty := by
  refine ⟨isRooted_empty, fun path _ bytes time h => ?_, fun name rest => ?_⟩
  · cases path <;> cases h
  · rw [ FileTree.entry?, if_neg (by simp)]
    rfl

namespace DiskStore

variable {directory : List Text} {files : FileTree}

theorem isHealthy_of_isBare (h : files.IsBare directory) : IsHealthy directory files where
  rooted := h.rooted
  way := by
    intro path hpath bytes time hfile
    rw [entriesPath, List.prefix_concat_iff] at hpath
    rcases hpath with rfl | hpath
    · rw [h.bare] at hfile
      cases hfile
    · exact h.way path hpath bytes time hfile
  records := by
    intro key _ hentry
    have hnone := h.bare (Text.ofString "entries") [key ++ suffix]
    rw [recordPath, entriesPath, List.append_assoc, List.singleton_append, hnone] at hentry
    cases hentry
  index := by
    rw [indexPath, h.bare]
    intro hnone
    cases hnone

/-- A store that was just opened in a bare directory shows the unused store. -/
theorem shows_empty (h : files.IsBare directory) (now : Number) (notes : List Note) :
    Shows directory ⟨files, .opened, now, notes⟩ .empty := by
  have hhealthy := isHealthy_of_isBare h
  have hindex : indexOf directory ⟨files, .opened, now, notes⟩ = .empty := by
    rw [indexOf, DiskState.opened, Option.getD_none, storedIndex, hhealthy.read_index, indexPath,
      h.bare]
  refine ⟨⟨hhealthy, ?_, ?_, fun hdirty => by cases hdirty⟩, ?_⟩
  · rw [hindex]
    exact PathIndex.unique_empty
  · rw [hindex]
    exact IndexView.HasKeys.empty
  · rw [view_eq, hindex]
    refine congrArg (StoreView.mk · PathIndex.empty.view) (funext fun key => ?_)
    have hnone : recordAt directory files key = none := by
      have hentry := h.bare (Text.ofString "entries") [key ++ suffix]
      rw [recordAt, recordPath, entriesPath, List.append_assoc, List.singleton_append, hentry]
    rw [hnone, ite_self]

end DiskStore

/-- From the start, the stores in memory, on a server and on disk answer every lawful session, and
they answer as the abstract store of values does. -/
theorem answers_eq_abstract_answers (start : Text) (directory : List Text) {files : FileTree}
    (hfiles : files.IsBare directory) (now : Number) (notes : List Note) {session : Session}
    (hsession : ∀ e ∈ session, StoreCall.IsLawful e.1 e.2) :
    memoryStore.answers ⟨files, .empty, now, notes⟩ session =
        (StoreView.empty.answers .plain session).map .ok ∧
      (sharedStore start).answers ⟨files, .empty, now, notes⟩ session =
        (StoreView.empty.answers .plain session).map .ok ∧
      (diskStore directory).answers ⟨files, .opened, now, notes⟩ session =
        (StoreView.empty.answers .plain session).map .ok := by
  have hentry : ∀ e ∈ session, ∀ key value, e.2 = .put key value → value.IsEntry :=
    fun e he => (hsession e he).entry
  refine ⟨?_, ?_, ?_⟩
  · exact MemoryStore.refines.answers_eq_plain (MemoryStore.shows_empty files now notes)
      (fun _ _ => trivial) fun e he key value h => (hentry e he key value h).memory_keeps
  · exact (SharedStore.refines start).answers_eq_plain
      (SharedStore.shows_empty start files now notes)
      (fun e he => (hsession e he).isTimely)
      fun e he key value h => (hentry e he key value h).shared_keeps
  · exact (DiskStore.refines directory).answers_eq_plain (DiskStore.shows_empty hfiles now notes)
      (fun e he => (hsession e he).key)
      fun e he key value h => (hentry e he key value h).disk_keeps

def blankRecord : CacheRecord :=
  ⟨⟨.python, Text.ofString "python", 0, false⟩, [], [], 0⟩

theorem blankRecord_isEntry : blankRecord.toJson.IsEntry :=
  .of_isExact
    { window := Number.isExact_of_lt (by decide)
      createdAt := Number.isExact_of_lt (by decide)
      tokens := by simp [blankRecord]
      hashes := by simp [blankRecord] }

/-- A time in whole milliseconds. -/
def clock (n : Nat) : Number :=
  .finite n

theorem clock_isFinite {n : Nat} (hn : n < 2 ^ 53) : (clock n).IsFinite :=
  ⟨n, rfl, Number.isExact_of_lt hn⟩

theorem StoreCall.isLawful_of_forall_ne {n : Nat} (hn : n < 2 ^ 53) {c : StoreCall} (hc : c.HasKey)
    (hput : ∀ key value, c ≠ .put key value) : c.IsLawful (clock n) :=
  ⟨clock_isFinite hn, hc, fun key value h => absurd h (hput key value)⟩

theorem StoreCall.isLawful_put {n : Nat} (hn : n < 2 ^ 53) {key : Text} {value : Json}
    (hkey : DiskStore.isKey key = true) (hvalue : value.IsEntry) :
    (StoreCall.put key value).IsLawful (clock n) := by
  refine ⟨clock_isFinite hn, hkey, fun _ _ h => ?_⟩
  cases h
  exact hvalue

/-- Two paths share a record and are forgotten one after the other; then an unusable value takes
its place, is looked up, and the store is pruned. -/
def sharingSession : Session :=
  let key := Text.ofString "k"
  [(clock 1, .put key blankRecord.toJson), (clock 2, .recordSeen (Text.ofString "a") key),
    (clock 3, .recordSeen (Text.ofString "b") key), (clock 4, .invalidate (Text.ofString "a")),
    (clock 5, .get key), (clock 6, .invalidate (Text.ofString "b")), (clock 7, .get key),
    (clock 8, .put key (.object [])), (clock 9, .get key), (clock 10, .prune ⟨[], .finite 0⟩)]

theorem sharingSession_isLawful : ∀ e ∈ sharingSession, StoreCall.IsLawful e.1 e.2 := by
  have hvalue : (Json.object []).IsEntry :=
    ⟨rfl, Json.parse?_render (.object rfl (by simp))⟩
  have hkey : DiskStore.isKey (Text.ofString "k") = true := by decide
  simp only [sharingSession, List.forall_mem_cons]
  refine ⟨StoreCall.isLawful_put (by decide) hkey blankRecord_isEntry, ?_, ?_, ?_, ?_, ?_, ?_,
    StoreCall.isLawful_put (by decide) hkey hvalue, ?_, ?_, by simp⟩ <;>
    exact StoreCall.isLawful_of_forall_ne (by decide) (by first | exact hkey | trivial) nofun

theorem answers_sharingSession :
    (∀ e ∈ sharingSession, StoreCall.IsLawful e.1 e.2) ∧
      (sharedStore []).answers ⟨.empty, .empty, clock 0, []⟩ sharingSession =
        memoryStore.answers ⟨.empty, .empty, clock 0, []⟩ sharingSession ∧
      (diskStore []).answers ⟨.empty, .opened, clock 0, []⟩ sharingSession =
        memoryStore.answers ⟨.empty, .empty, clock 0, []⟩ sharingSession := by
  obtain ⟨hmemory, hshared, hdisk⟩ := answers_eq_abstract_answers [] [] (FileTree.isBare_empty [])
    (clock 0) [] sharingSession_isLawful
  exact ⟨sharingSession_isLawful, hshared.trans hmemory.symm, hdisk.trans hmemory.symm⟩

end CloneScan
