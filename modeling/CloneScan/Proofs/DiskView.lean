import CloneScan.Proofs.DiskOperations

/-!
# The store on disk as the abstract store

Every operation of a store in a healthy directory succeeds, and its files, its index and its answer
are those of the abstract store.  Beside that, an operation says what becomes of the index file and
of the mark that the index was changed.
-/

namespace CloneScan

namespace DiskStore

open StoreM FileTree

/-! ## The store from outside -/

/-- The records under keys, and the index. -/
def view (directory : List Text) (s : Surroundings DiskState) :
    StoreView (List UInt8 × Option Number) where
  records := fun key => if isKey key then recordAt directory s.files key else none
  index := (indexOf directory s).view

end DiskStore

/-- Every record that the index knows has a key that can name a file. -/
structure IndexView.HasKeys (v : IndexView) : Prop where
  paths : ∀ path key, v.paths path = some key → DiskStore.isKey key = true
  seen : ∀ key time, v.seen key = some time → DiskStore.isKey key = true

namespace IndexView.HasKeys

variable {v : IndexView}

theorem empty : IndexView.empty.HasKeys := by
  constructor
  · intro path key h
    cases h
  · intro key time h
    cases h

theorem touch (hv : v.HasKeys) {key : Text} (hkey : DiskStore.isKey key = true) (now : Number)
    (path : Option Text) : (v.touch key now path).HasKeys := by
  constructor
  · intro p k h
    cases path with
    | none => exact hv.paths p k h
    | some q =>
        simp only [IndexView.touch, Function.update_apply] at h
        split at h
        · cases h
          exact hkey
        · exact hv.paths p k h
  · intro k time h
    simp only [IndexView.touch, Function.update_apply] at h
    split at h
    case isTrue heq => exact heq ▸ hkey
    case isFalse => exact hv.seen k time h

theorem removePath (hv : v.HasKeys) (path : Text) : (v.removePath path).HasKeys := by
  constructor
  · intro p k h
    simp only [IndexView.removePath, Function.update_apply] at h
    split at h
    · cases h
    · exact hv.paths p k h
  · intro k time h
    cases hlast : v.lastKey? path with
    | none =>
        simp only [IndexView.removePath, hlast] at h
        exact hv.seen k time h
    | some key =>
        simp only [IndexView.removePath, hlast, Function.update_apply] at h
        split at h
        · cases h
        · exact hv.seen k time h

theorem takeDead (hv : v.HasKeys) (options : PruneOptions) (now : Number) :
    (v.takeDead options now).HasKeys := by
  constructor
  · intro p k h
    exact hv.paths p k (Option.filter_eq_some_iff.mp h).1
  · intro k time h
    simp only [IndexView.takeDead] at h
    split at h
    · cases h
    · exact hv.seen k time h

end IndexView.HasKeys

/-- The key of a call can name a file. -/
def StoreCall.HasKey : StoreCall → Prop
  | .get key => DiskStore.isKey key = true
  | .put key _ => DiskStore.isKey key = true
  | .recordSeen _ key => DiskStore.isKey key = true
  | _ => True

/-- A call forgets a path whose record another path has. -/
def IndexView.ForgetsShared (v : IndexView) : StoreCall → Prop
  | .invalidate path => ∃ key, v.paths path = some key ∧ v.IsShared path key
  | _ => False

namespace DiskStore

open StoreM FileTree

/-- Nothing is in the way of the store, its index is sound, and only a loaded index is marked as
changed. -/
structure IsSound (directory : List Text) (s : Surroundings DiskState) : Prop where
  healthy : IsHealthy directory s.files
  unique : (indexOf directory s).Unique
  keys : (indexOf directory s).view.HasKeys
  loaded : s.state.dirty = true → s.state.index.isSome = true

/-- The stored index stays, and the index is marked as changed unless it is the same, or lost a
path whose record another path has. -/
structure Marks (directory : List Text) (s s' : Surroundings DiskState) (c : StoreCall) : Prop where
  stored : storedIndex directory s'.files = storedIndex directory s.files
  dirty : s'.state.dirty = true ∨ s.state.dirty = false ∧
    ((indexOf directory s').view = (indexOf directory s).view ∨
      (indexOf directory s).view.ForgetsShared c)

/-- A call answers as the abstract store does and leaves sound surroundings. -/
structure Performs (directory : List Text) (s : Surroundings DiskState) (now : Number)
    (c : StoreCall) (answer : StoreAnswer) (s' : Surroundings DiskState) : Prop where
  run : (diskStore directory).call s now c = (.ok answer, s')
  step : (view directory s).step shelf now c = (answer, view directory s')
  sound : IsSound directory s'
  marks : c ≠ .flush → c ≠ .clear → Marks directory s s' c

section

variable {directory : List Text} {s : Surroundings DiskState}

theorem view_records {key : Text} (hkey : isKey key = true) (s : Surroundings DiskState) :
    (view directory s).records key = recordAt directory s.files key :=
  if_pos hkey

theorem records_update {t t' : FileTree} {key : Text} {r : Option (List UInt8 × Option Number)}
    (hkey : isKey key = true)
    (h : ∀ k, recordAt directory t' k = if k = key then r else recordAt directory t k) :
    (fun k => if isKey k then recordAt directory t' k else none) =
      Function.update (fun k => if isKey k then recordAt directory t k else none) key r := by
  funext k
  rw [h]
  by_cases hk : k = key
  · simp [hk, hkey]
  · simp [hk]

def viewOf (directory : List Text) (t : FileTree) (i : PathIndex) :
    StoreView (List UInt8 × Option Number) :=
  ⟨fun key => if isKey key then recordAt directory t key else none, i.view⟩

theorem view_eq (s : Surroundings DiskState) :
    view directory s = viewOf directory s.files (indexOf directory s) := rfl

/-- Loaded surroundings are as good as their index. -/
theorem performs_of_loaded {now : Number} {c : StoreCall} {a : StoreAnswer} {t : FileTree}
    {i : PathIndex} {dirty : Bool} {notes : List Note}
    (hrun : (diskStore directory).call s now c = (.ok a, ⟨t, ⟨some i, dirty⟩, now, notes⟩))
    (hstep : (view directory s).step shelf now c = (a, viewOf directory t i))
    (ht : IsHealthy directory t) (hi : i.Unique) (hkeys : i.view.HasKeys)
    (hstored : storedIndex directory t = storedIndex directory s.files)
    (hdirty : dirty = true ∨ dirty = s.state.dirty ∧
      (i.view = (indexOf directory s).view ∨ (indexOf directory s).view.ForgetsShared c)) :
    Performs directory s now c a ⟨t, ⟨some i, dirty⟩, now, notes⟩ := by
  refine ⟨hrun, hstep, ⟨ht, hi, hkeys, fun _ => rfl⟩, fun _ _ => ⟨hstored, ?_⟩⟩
  rcases hdirty with hdirty | ⟨hdirty, hindex⟩
  · exact .inl hdirty
  · cases hmark : s.state.dirty with
    | true => exact .inl (hdirty.trans hmark)
    | false => exact .inr ⟨rfl, hindex⟩

theorem performs_get (hs : IsSound directory s) (now : Number) {key : Text}
    (hkey : isKey key = true) : ∃ a s', Performs directory s now (.get key) a s' := by
  have hrecord : (view directory s).records key = _ := view_records hkey s
  have hhealthy : IsHealthy directory ({ s with now } : Surroundings DiskState).files := hs.healthy
  have hexec := exec_get hhealthy hkey
  have hsound : IsSound directory { s with now } := ⟨hs.healthy, hs.unique, hs.keys, hs.loaded⟩
  have hview : view directory { s with now } = view directory s := rfl
  have hmarks (s' : Surroundings DiskState) (hstate : s'.state = s.state)
      (hstored : storedIndex directory s'.files = storedIndex directory s.files) :
      indexOf directory s' = indexOf directory s ∧ Marks directory s s' (.get key) := by
    have hindex : indexOf directory s' = indexOf directory s := by
      rw [indexOf, indexOf, hstate, hstored]
    refine ⟨hindex, hstored, ?_⟩
    rw [hstate, hindex]
    cases s.state.dirty with
    | true => exact .inl rfl
    | false => exact .inr ⟨rfl, .inl rfl⟩
  cases hfound : recordAt directory s.files key with
  | none =>
      refine ⟨.found .miss, { s with now }, ?_, ?_, hsound,
        fun _ _ => (hmarks { s with now } rfl rfl).2⟩
      · simp [CacheStore.call, StoreCall.perform, exec_map, diskStore, hexec, hfound, Except.map]
      · simp [StoreView.step, hrecord, hfound, hview]
  | some r =>
      cases hread : CacheRecord.decode (Text.ofUtf8 r.1) with
      | ok found =>
          refine ⟨.found (.hit found), { s with now }, ?_, ?_, hsound,
            fun _ _ => (hmarks { s with now } rfl rfl).2⟩
          · simp [CacheStore.call, StoreCall.perform, exec_map, diskStore, hexec, hfound, hread,
              Except.map]
          · simp [StoreView.step, hrecord, hfound, shelf, hread, Lookup.ofReading, hview]
      | error fault =>
          obtain ⟨notes, hdiscard⟩ := exec_discard hhealthy hkey (.record fault)
          have hremoves := Removes.single hs.healthy hkey
          obtain ⟨hindex, hmarks⟩ := hmarks
            ⟨s.files.without (recordPath directory key), s.state, now, notes⟩ rfl hremoves.stored
          refine ⟨.found (.corrupt (.record fault)), _, ?_, ?_, ?_, fun _ _ => hmarks⟩
          · simp [CacheStore.call, StoreCall.perform, exec_map, diskStore, hexec, hfound, hread,
              hdiscard, Except.map]
          · have hrecords := records_update hkey (recordAt_without directory s.files key)
            simp only [StoreView.step, hrecord, hfound, shelf, hread, Lookup.ofReading,
              Option.map_some, StoreView.drop]
            rw [view, view, hindex, hrecords]
          · exact ⟨hremoves.healthy, hindex ▸ hs.unique, hindex ▸ hs.keys, hs.loaded⟩

theorem performs_put (hs : IsSound directory s) (now : Number) {key : Text}
    (hkey : isKey key = true) (value : Json) :
    ∃ s', Performs directory s now (.put key value) .done s' := by
  have hrecord : (view directory s).records key = _ := view_records hkey s
  obtain ⟨dirty, notes, hload, hdirty⟩ := exec_loadIndex directory { s with now }
  have hexec := exec_put hkey value hload
  have hcall : (diskStore directory).call s now (.put key value) =
      (((put directory key value).exec { s with now }).1.map fun _ => .done,
        ((put directory key value).exec { s with now }).2) := exec_map _ _ _
  dsimp only at hexec
  rw [hexec] at hcall
  cases hfound : recordAt directory s.files key with
  | some r =>
      rw [hs.healthy.find_of_recordAt hfound] at hcall
      refine ⟨_, performs_of_loaded hcall ?_ hs.healthy hs.unique hs.keys rfl ?_⟩
      · simp only [StoreView.step, hrecord, hfound]
        rfl
      · exact hdirty.imp_right fun h => ⟨h, .inl rfl⟩
  | none =>
      rw [hs.healthy.find_of_recordAt_none hkey hfound] at hcall
      obtain ⟨t₁, t, hmake, hwrite, ht, hstored, hrecords⟩ :=
        hs.healthy.save_record hkey (Text.toUtf8 value.render) now
      simp only [hmake, hwrite] at hcall
      have hkeys := hs.keys.touch hkey now none
      rw [← PathIndex.view_touch] at hkeys
      refine ⟨_, performs_of_loaded hcall ?_ ht (hs.unique.touch key now none) hkeys hstored
        (.inl rfl)⟩
      simp only [StoreView.step, hrecord, hfound]
      rw [viewOf, PathIndex.view_touch, records_update hkey hrecords]
      rfl

theorem performs_recordSeen (hs : IsSound directory s) (now : Number) (path : Text) {key : Text}
    (hkey : isKey key = true) :
    ∃ s', Performs directory s now (.recordSeen path key) .done s' := by
  obtain ⟨dirty, notes, hload, -⟩ := exec_loadIndex directory { s with now }
  have hcall : (diskStore directory).call s now (.recordSeen path key) =
      (.ok .done, ⟨s.files, ⟨some ((indexOf directory s).touch key now (some path)), true⟩, now,
        notes⟩) := by
    simp only [CacheStore.call, StoreCall.perform, exec_map, diskStore, recordSeen, exec_bind,
      hload]
    rfl
  have hkeys := hs.keys.touch hkey now (some path)
  rw [← PathIndex.view_touch] at hkeys
  refine ⟨_, performs_of_loaded hcall ?_ hs.healthy (hs.unique.touch key now (some path)) hkeys rfl
    (.inl rfl)⟩
  rw [viewOf, PathIndex.view_touch]
  rfl

/-- No key is known of a path that goes with its record, or of one that stays behind. -/
theorem forgetsShared_of_lastKey? {v : IndexView} {path : Text} (h : v.lastKey? path = none) :
    v.removePath path = v ∨ v.ForgetsShared (.invalidate path) := by
  cases hpath : v.paths path with
  | none =>
      left
      rw [IndexView.removePath, h]
      dsimp only
      rw [← hpath, Function.update_eq_self]
  | some key =>
      right
      refine ⟨key, hpath, ?_⟩
      by_contra hshared
      simp [IndexView.lastKey?, hpath, hshared] at h

theorem performs_invalidate (hs : IsSound directory s) (now : Number) (path : Text) :
    ∃ s', Performs directory s now (.invalidate path) .done s' := by
  obtain ⟨dirty, notes, hload, hdirty⟩ := exec_loadIndex directory { s with now }
  obtain ⟨hlast, hview, hunique⟩ := hs.unique.removePath path
  have hkeys := hs.keys.removePath path
  rw [← hview] at hkeys
  have hindex : (view directory s).index = (indexOf directory s).view := rfl
  rcases hremoved : (indexOf directory s).removePath path with ⟨_ | key, i⟩ <;>
    rw [hremoved] at hlast hview hunique hkeys
  · have hexec := exec_invalidate_of_none hload hremoved
    refine ⟨⟨s.files, ⟨some i, dirty⟩, now, notes⟩, performs_of_loaded ?_ ?_ hs.healthy hunique
      hkeys rfl ?_⟩
    · simp only [CacheStore.call, StoreCall.perform, exec_map, diskStore, hexec]
      rfl
    · simp only [StoreView.step, hindex, ← hlast, ← hview]
      rfl
    · refine hdirty.imp_right fun h => ⟨h, ?_⟩
      exact (forgetsShared_of_lastKey? hlast.symm).imp_left hview.trans
  · have hkey : isKey key = true := by
      have hfiltered := Option.filter_eq_some_iff.mp hlast.symm
      exact hs.keys.paths path key hfiltered.1
    have hexec := exec_invalidate_of_some (by exact hs.healthy) hkey hload hremoved
    have hremoves := Removes.single hs.healthy hkey
    refine ⟨⟨s.files.without (recordPath directory key), ⟨some i, true⟩, now, notes⟩,
      performs_of_loaded ?_ ?_ hremoves.healthy hunique hkeys hremoves.stored (.inl rfl)⟩
    · simp only [CacheStore.call, StoreCall.perform, exec_map, diskStore, hexec]
      rfl
    · have hrecords := records_update hkey (recordAt_without directory s.files key)
      simp only [StoreView.step, hindex, ← hlast, ← hview, StoreView.drop]
      rw [viewOf, hrecords]
      rfl

theorem performs_clear (hs : IsSound directory s) (now : Number) :
    ∃ s', Performs directory s now .clear .done s' ∧
      storedIndex directory s'.files = .empty ∧ s'.state = ⟨some .empty, false⟩ := by
  obtain ⟨t, hremove, ht, hstored, hrecords⟩ := hs.healthy.removeAll
  refine ⟨⟨t, ⟨some .empty, false⟩, now, s.notes⟩, ⟨?_, ?_, ?_, fun _ h => absurd rfl h⟩, hstored,
    rfl⟩
  · have hexec : (clear directory).exec { s with now } =
        (.ok (), ⟨t, ⟨some .empty, false⟩, now, s.notes⟩) := by
      rw [clear, exec_bind, exec_changeFiles]
      dsimp only
      rw [hremove]
      rfl
    simp only [CacheStore.call, StoreCall.perform, exec_map, diskStore, hexec]
    rfl
  · refine congrArg (Prod.mk StoreAnswer.done) ?_
    rw [view_eq, viewOf]
    simp only [hrecords, ite_self]
    rfl
  · exact ⟨ht, PathIndex.unique_empty, IndexView.HasKeys.empty, fun h => by cases h⟩

theorem performs_flush (hs : IsSound directory s) (now : Number) :
    ∃ s', Performs directory s now .flush .done s' ∧
      (s.state.dirty = false ∧ s'.files = s.files ∧ s'.state = s.state ∨
        s.state.dirty = true ∧
          storedIndex directory s'.files = (PathIndex.decode?
            (Text.ofUtf8 (Text.toUtf8 (indexOf directory s).encode))).getD .empty ∧
          s'.state = ⟨some (indexOf directory s), false⟩) := by
  cases hdirty : s.state.dirty with
  | false =>
      have hexec := @exec_flush_of_clean directory { s with now } hdirty
      refine ⟨{ s with now }, ⟨?_, rfl, ⟨hs.healthy, hs.unique, hs.keys, hs.loaded⟩,
        fun h => absurd rfl h⟩, .inl ⟨rfl, rfl, rfl⟩⟩
      simp only [CacheStore.call, StoreCall.perform, exec_map, diskStore, hexec]
      rfl
  | true =>
      obtain ⟨i, hi⟩ := Option.isSome_iff_exists.mp (hs.loaded hdirty)
      have hindex : indexOf directory s = i := by simp [indexOf, hi]
      obtain ⟨t₁, t, hmake, hwrite, ht, hstored, hrecords⟩ :=
        hs.healthy.save_index (Text.toUtf8 i.encode) now
      have hexec := @exec_flush_of_dirty directory { s with now } i t₁ t hdirty hi hmake hwrite
      rw [hindex]
      refine ⟨⟨t, ⟨some i, false⟩, now, s.notes⟩, ⟨?_, ?_, ?_, fun h => absurd rfl h⟩,
        .inr ⟨rfl, hstored, rfl⟩⟩
      · simp only [CacheStore.call, StoreCall.perform, exec_map, diskStore, hexec]
        rfl
      · refine congrArg (Prod.mk StoreAnswer.done) ?_
        rw [view_eq, view_eq, hindex, viewOf, viewOf]
        simp only [hrecords]
        rfl
      · exact ⟨ht, hindex ▸ hs.unique, hindex ▸ hs.keys, fun h => by cases h⟩

/-- What a sweep removes is what the abstract store prunes. -/
theorem isPruned_iff (hi : (indexOf directory s).Unique) {options : PruneOptions} {now : Number}
    {dead : List Text} {i : PathIndex}
    (htake : (indexOf directory s).takeDead options now = (dead, i)) (key : Text) :
    (view directory s).IsPruned shelf options now key ↔
      key ∈ dead ∨ key ∉ dead ∧ IsUntracked directory s.files i options now key := by
  have hmem := @PathIndex.mem_takeDead _ hi options now key
  have hview := hi.view_takeDead options now
  simp only [htake] at hmem hview
  have hindex : (view directory s).index = (indexOf directory s).view := rfl
  simp only [StoreView.IsPruned, StoreView.IsStray, IsUntracked, hindex, hview, hmem]
  by_cases hdead : (indexOf directory s).view.IsDead options now key
  · simp [hdead]
  · have hseen : ((indexOf directory s).view.takeDead options now).seen key =
        (indexOf directory s).view.seen key := by
      simp [IndexView.takeDead, hdead]
    rw [hseen]
    simp only [hdead, false_or, not_false_eq_true, true_and, view]
    cases hkey : isKey key with
    | false => simp
    | true => simp [Option.any_eq_true]

theorem isKey_of_isPruned
    (hkeys : ∀ key time, (indexOf directory s).view.seen key = some time → isKey key = true)
    {options : PruneOptions} {now : Number} {key : Text}
    (h : (view directory s).IsPruned shelf options now key) : isKey key = true := by
  rcases h with ⟨-, time, htime, -⟩ | ⟨-, -, r, hr, -⟩
  · exact hkeys key time htime
  · by_contra hkey
    simp [view, hkey] at hr

/-- Removing what is to be pruned is a prune. -/
theorem step_prune (hi : (indexOf directory s).Unique)
    (hkeys : ∀ key time, (indexOf directory s).view.seen key = some time → isKey key = true)
    {options : PruneOptions} {now : Number} {t : FileTree} {n : Nat}
    (hremoves : Removes directory {key | (view directory s).IsPruned shelf options now key}
      s.files t n) :
    (view directory s).step shelf now (.prune options) =
      (.removed n, viewOf directory t ((indexOf directory s).takeDead options now).2) := by
  have hcount : {key | ((view directory s).records key).isSome ∧
      (view directory s).IsPruned shelf options now key}.ncard = n := by
    rw [← hremoves.count]
    congr 1
    ext key
    simp only [Set.mem_ofPred_eq]
    constructor
    · rintro ⟨hsome, hgone⟩
      rw [view_records (isKey_of_isPruned hkeys hgone)] at hsome
      exact ⟨hgone, hsome⟩
    · rintro ⟨hgone, hsome⟩
      rw [view_records (isKey_of_isPruned hkeys hgone)]
      exact ⟨hsome, hgone⟩
  have hrecords : ((view directory s).step shelf now (.prune options)).2.records =
      fun key => if isKey key then recordAt directory t key else none := by
    funext key
    rw [hremoves.records]
    by_cases hgone : (view directory s).IsPruned shelf options now key
    · simp [StoreView.step, hgone]
    · have hkept : key ∉ {key | (view directory s).IsPruned shelf options now key} := hgone
      simp only [StoreView.step, if_neg hgone, if_neg hkept]
      rfl
  refine Prod.ext (congrArg StoreAnswer.removed hcount) ?_
  exact congrArg₂ StoreView.mk hrecords (hi.view_takeDead options now).symm

/-- A prune in a healthy directory, whatever the index and the directory know of each other. -/
theorem exists_call_prune (ht : IsHealthy directory s.files) (hi : (indexOf directory s).Unique)
    (hkeys : ∀ key time, (indexOf directory s).view.seen key = some time → isKey key = true)
    (now : Number) (options : PruneOptions) :
    ∃ n t dirty notes,
      (diskStore directory).call s now (.prune options) = (.ok (.removed n),
        ⟨t, ⟨some ((indexOf directory s).takeDead options now).2, dirty⟩, now, notes⟩) ∧
      Removes directory {key | (view directory s).IsPruned shelf options now key} s.files t n ∧
      (dirty = true ∨ dirty = s.state.dirty ∧
        ((indexOf directory s).takeDead options now).2.view = (indexOf directory s).view) := by
  obtain ⟨dirty, notes, hload, hdirty⟩ := exec_loadIndex directory { s with now }
  have hmem := @PathIndex.mem_takeDead _ hi options now
  have hview := hi.view_takeDead options now
  rcases htake : (indexOf directory s).takeDead options now with ⟨dead, i⟩
  simp only [htake] at hmem hview
  have hdead (key : Text) (hkey : key ∈ dead) : isKey key = true := by
    obtain ⟨-, time, htime, -⟩ := hmem.mp hkey
    exact hkeys key time htime
  obtain ⟨n, t, hsweep, hremoves⟩ := @exec_sweep directory
    ⟨s.files, ⟨some i, dirty || !dead.isEmpty⟩, now, notes⟩ ht options now dead hdead i
  have hexec := exec_prune options hload htake
  dsimp only at hexec hremoves
  rw [hsweep] at hexec
  refine ⟨n, t, dirty || !dead.isEmpty, notes, ?_, ?_, ?_⟩
  · simp only [CacheStore.call, StoreCall.perform, exec_map, diskStore, hexec]
    rfl
  · convert hremoves using 1
    ext key
    exact isPruned_iff hi htake key
  -- without a dead record the index stays as it is, and so does the mark
  cases hempty : dead.isEmpty with
  | false => exact .inl (by simp)
  | true =>
      have hnone (key : Text) : ¬ (indexOf directory s).view.IsDead options now key := by
        rw [← hmem, List.isEmpty_iff.mp hempty]
        exact List.not_mem_nil
      rw [IndexView.takeDead_of_not_isDead hnone] at hview
      rw [Bool.not_true, Bool.or_false]
      exact hdirty.imp_right fun h => ⟨h, hview⟩

theorem performs_prune (hs : IsSound directory s) (now : Number) (options : PruneOptions) :
    ∃ a s', Performs directory s now (.prune options) a s' := by
  obtain ⟨n, t, dirty, notes, hrun, hremoves, hdirty⟩ :=
    exists_call_prune hs.healthy hs.unique hs.keys.seen now options
  have hkeys := hs.keys.takeDead options now
  rw [← hs.unique.view_takeDead] at hkeys
  refine ⟨_, _, performs_of_loaded hrun (step_prune hs.unique hs.keys.seen hremoves)
    hremoves.healthy (hs.unique.takeDead options now) hkeys hremoves.stored ?_⟩
  exact hdirty.imp_right fun h => ⟨h.1, .inl h.2⟩

def Shows (directory : List Text) (s : Surroundings DiskState)
    (v : StoreView (List UInt8 × Option Number)) : Prop :=
  IsSound directory s ∧ v = view directory s

theorem exists_performs (hs : IsSound directory s) (now : Number) {c : StoreCall}
    (hc : c.HasKey) : ∃ a s', Performs directory s now c a s' := by
  cases c with
  | get key => exact performs_get hs now hc
  | put key value => exact ⟨.done, performs_put hs now hc value⟩
  | invalidate path => exact ⟨.done, performs_invalidate hs now path⟩
  | recordSeen path key => exact ⟨.done, performs_recordSeen hs now path hc⟩
  | prune options => exact performs_prune hs now options
  | flush =>
      obtain ⟨s', h, -⟩ := performs_flush hs now
      exact ⟨.done, s', h⟩
  | clear =>
      obtain ⟨s', h, -⟩ := performs_clear hs now
      exact ⟨.done, s', h⟩

theorem refines (directory : List Text) :
    (diskStore directory).Refines shelf (fun _ c => c.HasKey) (Shows directory) := by
  rintro s v now c ⟨hs, rfl⟩ hc
  obtain ⟨a, s', h⟩ := exists_performs hs now hc
  rw [h.run, h.step]
  exact ⟨rfl, h.sound, rfl⟩

end

end DiskStore

end CloneScan
