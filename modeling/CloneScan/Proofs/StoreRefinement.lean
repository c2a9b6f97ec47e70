import CloneScan.Proofs.PlainNumber
import CloneScan.Proofs.StoreRecords
import CloneScan.Proofs.StoreView

/-!
# The stores in memory and on a server as the abstract store

The store in memory shows its values and its index as they are.  The shared store spreads the same
data over the texts and the two hashes of a server, and the commands of each of its operations,
sent one after another, add up to the step of the abstract store.
-/

namespace CloneScan

open StoreM

/-! ## The store in memory -/

namespace MemoryStore

/-- Values are kept as they are; one that counts as none is not found. -/
def shelf : Shelf Json where
  write := fun _ v => v
  read := fun v => if isVoid v then .miss else .ofReading (CacheRecord.ofJson v)
  isOld := fun _ _ => false

def view (s : MemoryState) : StoreView Json :=
  ⟨s.values.get?, s.index.view⟩

/-- The surroundings show a view: no key stands twice in the maps of the store. -/
structure Shows (s : Surroundings MemoryState) (v : StoreView Json) : Prop where
  index : s.state.index.Unique
  view : v = view s.state

theorem shows_empty (files : FileTree) (now : Number) (notes : List Note) :
    Shows ⟨files, .empty, now, notes⟩ .empty :=
  ⟨PathIndex.unique_empty, rfl⟩

theorem isPruned_iff {v : StoreView Json} {options : PruneOptions} {now : Number} {key : Text} :
    v.IsPruned shelf options now key ↔ v.index.IsDead options now key :=
  StoreView.isPruned_iff_of_not_isOld (fun _ _ => rfl) options now key

theorem ncard_pruned {s : MemoryState} (hs : s.index.Unique) (options : PruneOptions)
    (now : Number) :
    {key | ((view s).records key).isSome ∧ (view s).IsPruned shelf options now key}.ncard =
      ((s.index.takeDead options now).1.filter s.values.has).length := by
  apply ncard_eq_length
  · exact (hs.nodup_takeDead options now).filter _
  · intro key
    simp only [Set.mem_ofPred_eq, isPruned_iff, List.mem_filter, PathIndex.mem_takeDead hs,
      TextMap.has_eq_isSome]
    exact and_comm

theorem refines : memoryStore.Refines shelf (fun _ _ => True) Shows := by
  rintro s v now c ⟨hindex, rfl⟩ -
  cases c with
  | get key =>
      simp only [CacheStore.call, StoreCall.perform, exec_map, memoryStore, exec_get,
        StoreView.step, view]
      cases hvalue : s.state.values.get? key with
      | none => exact ⟨rfl, hindex, rfl⟩
      | some value =>
          simp only [Option.map_some, shelf]
          cases hvoid : isVoid value with
          | true => exact ⟨rfl, hindex, rfl⟩
          | false =>
              cases CacheRecord.ofJson value with
              | ok found => exact ⟨rfl, hindex, rfl⟩
              | error fault =>
                  refine ⟨rfl, hindex, ?_⟩
                  simp [StoreView.drop, Lookup.ofReading, view, TextMap.get?_erase_eq_update]
  | put key value =>
      simp only [CacheStore.call, StoreCall.perform, exec_map, memoryStore, exec_put,
        StoreView.step, view, TextMap.has_eq_isSome]
      cases s.state.values.get? key with
      | some found => exact ⟨rfl, hindex, rfl⟩
      | none =>
          refine ⟨rfl, hindex.touch key now none, ?_⟩
          simp [view, shelf, TextMap.get?_set_eq_update, PathIndex.view_touch]
  | invalidate path =>
      obtain ⟨hlast, hview, hunique⟩ := hindex.removePath path
      simp only [CacheStore.call, StoreCall.perform, exec_map, memoryStore, invalidate, exec_bind,
        exec_state, StoreView.step, view, ← hlast, ← hview]
      rcases hremoved : s.state.index.removePath path with ⟨_ | key, index⟩ <;>
        rw [hremoved] at hunique
      · exact ⟨rfl, hunique, rfl⟩
      · refine ⟨rfl, hunique, ?_⟩
        simp only [exec_setState, view, StoreView.drop, TextMap.get?_erase_eq_update]
  | recordSeen path key =>
      refine ⟨rfl, hindex.touch key now (some path), ?_⟩
      change StoreView.mk _ (s.state.index.view.touch key now (some path)) = _
      rw [← PathIndex.view_touch]
      rfl
  | prune options =>
      refine ⟨?_, hindex.takeDead options now, ?_⟩
      · simp only [StoreView.step, ncard_pruned hindex]
        rfl
      · simp only [StoreView.step]
        change _ = StoreView.mk _ (s.state.index.takeDead options now).2.view
        rw [hindex.view_takeDead]
        congr 1
        funext key
        refine Eq.trans ?_ (TextMap.get?_filter_key s.state.values
          (fun k => !(s.state.index.takeDead options now).1.contains k) key).symm
        have hkey := @PathIndex.mem_takeDead _ hindex options now key
        by_cases hdead : s.state.index.view.IsDead options now key
        · rw [if_pos (isPruned_iff.mpr hdead), if_neg (by simpa using hkey.mpr hdead)]
        · rw [if_neg (mt isPruned_iff.mp hdead), if_pos (by simpa using mt hkey.mp hdead)]
          rfl
  | flush => exact ⟨rfl, hindex, rfl⟩
  | clear => exact ⟨rfl, PathIndex.unique_empty, rfl⟩

end MemoryStore

/-! ## The data of a server -/

namespace ServerData

/-- The fields of a hash; a hash that is not there has none. -/
def fields (d : ServerData) (key : Text) : TextMap Text :=
  (d.hashes.get? key).getD []

end ServerData

namespace ServerCommand

open ServerData

theorem run_hashGet (key field : Text) (d : ServerData) :
    (ServerCommand.hashGet key field).run d = ((d.fields key).get? field, d) := by
  simp only [run, fields]
  cases d.hashes.get? key <;> rfl

theorem run_hashAll (key : Text) (d : ServerData) :
    (ServerCommand.hashAll key).run d = (d.fields key, d) := rfl

theorem fields_hashSet (key field value : Text) (d : ServerData) (q : Text) :
    ((ServerCommand.hashSet key field value).run d).2.fields q =
      if q = key then (d.fields key).set field value else d.fields q := by
  simp only [run, fields, TextMap.get?_set]
  by_cases hq : q = key <;> simp [hq]

theorem hashes_hashDelete (key : Text) (gone : List Text) (d : ServerData) (q : Text) :
    ((ServerCommand.hashDelete key gone).run d).2.hashes.get? q =
      (d.hashes.get? q).map fun m =>
        if q == key then m.filter fun f => !gone.contains f.1 else m := by
  have hmap : (d.hashes.map fun e =>
        if e.1 == key then (e.1, e.2.filter fun f => !gone.contains f.1) else e) =
      d.hashes.map fun e =>
        (e.1, if e.1 == key then e.2.filter fun f => !gone.contains f.1 else e.2) := by
    apply List.map_congr_left
    intro e _
    split <;> rfl
  refine (congrArg (TextMap.get? · q) hmap).trans ?_
  exact TextMap.get?_map_value d.hashes
    (fun k m => if k == key then m.filter fun f => !gone.contains f.1 else m) q

theorem fields_hashDelete (key : Text) (gone : List Text) (d : ServerData) (q : Text) :
    ((ServerCommand.hashDelete key gone).run d).2.fields q =
      if q = key then (d.fields key).filter fun f => !gone.contains f.1 else d.fields q := by
  simp only [fields, hashes_hashDelete]
  by_cases hq : q = key
  · cases hfound : d.hashes.get? key <;> simp [hq, hfound]
  · simp [hq]

theorem fields_delete (keys : List Text) (d : ServerData) (q : Text) :
    ((ServerCommand.delete keys).run d).2.fields q = if q ∈ keys then [] else d.fields q := by
  have hget := TextMap.get?_filter_key d.hashes (fun k => !keys.contains k) q
  simp only [run, fields]
  rw [hget]
  by_cases hq : q ∈ keys <;> simp [hq]

theorem texts_delete (keys : List Text) (d : ServerData) (q : Text) :
    ((ServerCommand.delete keys).run d).2.texts.get? q =
      if q ∈ keys then none else d.texts.get? q := by
  refine (TextMap.get?_filter_key d.texts (fun k => !keys.contains k) q).trans ?_
  by_cases hq : q ∈ keys <;> simp [hq]

end ServerCommand

/-! ## The shared store -/

namespace SharedStore

open ServerCommand ServerProgram

variable {start : Text} {d : ServerData}

theorem entryKey_inj {k q : Text} : entryKey start k = entryKey start q ↔ k = q :=
  List.append_right_inj _

theorem entryKey_ne_pathsKey (start k : Text) : entryKey start k ≠ pathsKey start := by
  intro h
  rw [entryKey, pathsKey, List.append_assoc] at h
  cases List.append_cancel_left h

theorem entryKey_ne_seenKey (start k : Text) : entryKey start k ≠ seenKey start := by
  intro h
  rw [entryKey, seenKey, List.append_assoc] at h
  cases List.append_cancel_left h

theorem pathsKey_ne_seenKey (start : Text) : pathsKey start ≠ seenKey start := by
  intro h
  cases List.append_cancel_left h

def shelf : Shelf Text where
  write := fun _ v => v.render
  read := fun t => .ofReading (CacheRecord.decode t)
  isOld := fun _ _ => false

def view (start : Text) (d : ServerData) : StoreView Text where
  records := fun key => d.texts.get? (entryKey start key)
  index :=
    { paths := (d.fields (pathsKey start)).get?
      seen := fun key => ((d.fields (seenKey start)).get? key).map Number.ofText }

/-- No path and no record stands twice in the hashes, and no hash stands where a record does. -/
structure IsHealthy (start : Text) (d : ServerData) : Prop where
  paths : (d.fields (pathsKey start)).Unique
  seen : (d.fields (seenKey start)).Unique
  entries : ∀ key, d.hashes.get? (entryKey start key) = none

theorem isHealthy_empty (start : Text) : IsHealthy start .empty :=
  ⟨TextMap.unique_nil, TextMap.unique_nil, fun _ => rfl⟩

/-- Commands that set fields of the two hashes alone keep the data healthy. -/
theorem IsHealthy.run (hd : IsHealthy start d) (c : ServerCommand)
    (hc : ∀ key field value, c = .hashSet key field value →
      key = pathsKey start ∨ key = seenKey start) : IsHealthy start (c.run d).2 := by
  cases c with
  | get key => exact hd
  | hashGet key field => exact hd
  | hashAll key => exact hd
  | setIfAbsent key value =>
      simp only [ServerCommand.run]
      split
      · exact hd
      · exact ⟨hd.paths, hd.seen, hd.entries⟩
  | delete keys =>
      refine ⟨?_, ?_, fun key => ?_⟩
      · rw [fields_delete]
        split
        · exact TextMap.unique_nil
        · exact hd.paths
      · rw [fields_delete]
        split
        · exact TextMap.unique_nil
        · exact hd.seen
      · refine (TextMap.get?_filter_key d.hashes (fun k => !keys.contains k) _).trans ?_
        rw [hd.entries, ite_self]
  | hashSet key field value =>
      refine ⟨?_, ?_, fun k => ?_⟩
      · rw [fields_hashSet]
        split
        case isTrue h => exact (h ▸ hd.paths).set field value
        case isFalse => exact hd.paths
      · rw [fields_hashSet]
        split
        case isTrue h => exact (h ▸ hd.seen).set field value
        case isFalse => exact hd.seen
      · have hne : entryKey start k ≠ key := by
          rcases hc key field value rfl with rfl | rfl
          · exact entryKey_ne_pathsKey start k
          · exact entryKey_ne_seenKey start k
        simp [ServerCommand.run, TextMap.get?_set, hne, hd.entries]
  | hashDelete key gone =>
      refine ⟨?_, ?_, fun k => ?_⟩
      · rw [fields_hashDelete]
        split
        case isTrue h => exact (h ▸ hd.paths).filter _
        case isFalse => exact hd.paths
      · rw [fields_hashDelete]
        split
        case isTrue h => exact (h ▸ hd.seen).filter _
        case isFalse => exact hd.seen
      · rw [hashes_hashDelete, hd.entries, Option.map_none]

/-! ### What commands do to the view -/

theorem view_setSeen (start key time : Text) (d : ServerData) :
    view start ((ServerCommand.hashSet (seenKey start) key time).run d).2 =
      { view start d with
        index := (view start d).index.touch key (Number.ofText time) none } := by
  have hpaths := fields_hashSet (seenKey start) key time d (pathsKey start)
  have hseen := fields_hashSet (seenKey start) key time d (seenKey start)
  rw [if_neg (pathsKey_ne_seenKey start)] at hpaths
  rw [if_pos rfl] at hseen
  simp only [view, hpaths, hseen, IndexView.touch]
  congr 2
  funext k
  rw [TextMap.get?_set]
  by_cases hk : k = key <;> simp [hk]

theorem view_setPath (start path key : Text) (d : ServerData) :
    view start ((ServerCommand.hashSet (pathsKey start) path key).run d).2 =
      { view start d with
        index := { (view start d).index with
          paths := Function.update (view start d).index.paths path (some key) } } := by
  have hpaths := fields_hashSet (pathsKey start) path key d (pathsKey start)
  have hseen := fields_hashSet (pathsKey start) path key d (seenKey start)
  rw [if_pos rfl] at hpaths
  rw [if_neg (pathsKey_ne_seenKey start).symm] at hseen
  simp only [view, hpaths, hseen, TextMap.get?_set_eq_update]
  rfl

theorem view_deleteEntries (start : Text) (gone : List Text) (d : ServerData) :
    view start ((ServerCommand.delete (gone.map (entryKey start))).run d).2 =
      { view start d with
        records := fun key => if key ∈ gone then none else (view start d).records key } := by
  simp [view, fields_delete, texts_delete, entryKey_inj, entryKey_ne_pathsKey, entryKey_ne_seenKey]

theorem view_dropPaths (start : Text) (gone : List Text) (d : ServerData) :
    view start ((ServerCommand.hashDelete (pathsKey start) gone).run d).2 =
      { view start d with
        index :=
          { (view start d).index with
            paths := fun path =>
              if path ∈ gone then none else (view start d).index.paths path } } := by
  have hpaths := fields_hashDelete (pathsKey start) gone d (pathsKey start)
  have hseen := fields_hashDelete (pathsKey start) gone d (seenKey start)
  rw [if_pos rfl] at hpaths
  rw [if_neg (pathsKey_ne_seenKey start).symm] at hseen
  simp only [view, hpaths, hseen]
  congr 2
  funext path
  refine (TextMap.get?_filter_key _ (fun k => !gone.contains k) path).trans ?_
  by_cases hpath : path ∈ gone <;> simp [hpath]

theorem view_dropSeen (start : Text) (gone : List Text) (d : ServerData) :
    view start ((ServerCommand.hashDelete (seenKey start) gone).run d).2 =
      { view start d with
        index := { (view start d).index with
          seen := fun key => if key ∈ gone then none else (view start d).index.seen key } } := by
  have hpaths := fields_hashDelete (seenKey start) gone d (pathsKey start)
  have hseen := fields_hashDelete (seenKey start) gone d (seenKey start)
  rw [if_neg (pathsKey_ne_seenKey start)] at hpaths
  rw [if_pos rfl] at hseen
  simp only [view, hpaths, hseen]
  congr 2
  funext key
  refine (congrArg _ (TextMap.get?_filter_key _ (fun k => !gone.contains k) key)).trans ?_
  by_cases hkey : key ∈ gone <;> simp [hkey]

theorem ite_mem_singleton {α : Type} (f : Text → Option α) (key : Text) :
    (fun k => if k ∈ [key] then none else f k) = Function.update f key none := by
  funext k
  by_cases hk : k = key <;> simp [hk]

/-! ### What operations do to the view -/

theorem run_get_eq (start key : Text) (d : ServerData) :
    (get start key).run d =
      match d.texts.get? (entryKey start key) with
      | none => (.miss, d)
      | some t =>
        match CacheRecord.decode t with
        | .ok found => (.hit found, d)
        | .error fault =>
          (.corrupt (.record fault), ((ServerCommand.delete [entryKey start key]).run d).2) := by
  unfold get
  rw [run_bind, run_command, ServerCommand.run]
  dsimp only
  cases d.texts.get? (entryKey start key) with
  | none => rfl
  | some t =>
      dsimp only
      cases CacheRecord.decode t <;> rfl

theorem run_put (start key : Text) (value : Json) (now : Number) (d : ServerData) :
    ((put start key value now).run d).2 =
      match d.texts.get? (entryKey start key) with
      | some _ => d
      | none =>
        ((ServerCommand.hashSet (seenKey start) key now.text).run
          { d with texts := d.texts.set (entryKey start key) value.render }).2 := by
  unfold put
  rw [run_bind, run_command, ServerCommand.run, TextMap.has_eq_isSome]
  cases d.texts.get? (entryKey start key) <;> rfl

theorem run_invalidate (start path : Text) (d : ServerData) :
    ((invalidate start path).run d).2 =
      match (d.fields (pathsKey start)).get? path with
      | none => d
      | some key =>
        let rest := ((ServerCommand.hashDelete (pathsKey start) [path]).run d).2
        if (rest.fields (pathsKey start)).any fun e => e.2 == key then rest
        else
          ((ServerCommand.hashDelete (seenKey start) [key]).run
            ((ServerCommand.delete [entryKey start key]).run rest).2).2 := by
  unfold invalidate
  rw [run_bind, run_command, run_hashGet]
  cases (d.fields (pathsKey start)).get? path with
  | none => rfl
  | some key =>
      dsimp only
      rw [run_bind, run_command, run_bind, run_command]
      change (ServerProgram.run (if (ServerData.fields _ _).any _ then _ else _) _).2 = _
      split <;> rfl

/-- The records that a prune finds dead. -/
def deadKeys (start : Text) (options : PruneOptions) (now : Number) (d : ServerData) : List Text :=
  ((d.fields (seenKey start)).filter (isDead options now)).map (·.1)

/-- The paths that have dead records. -/
def stalePaths (start : Text) (dead : List Text) (d : ServerData) : List Text :=
  ((d.fields (pathsKey start)).filter fun e => dead.contains e.2).map (·.1)

theorem run_prune (start : Text) (options : PruneOptions) (now : Number) (d : ServerData) :
    (prune start options now).run d =
      let dead := deadKeys start options now d
      let deleted := (ServerCommand.delete (dead.map (entryKey start))).run d
      if dead.isEmpty then (0, d)
      else
        (deleted.1,
          ((ServerCommand.hashDelete (pathsKey start) (stalePaths start dead d)).run
            ((ServerCommand.hashDelete (seenKey start) dead).run deleted.2).2).2) := by
  unfold prune
  rw [run_bind, run_command, run_hashAll]
  change ServerProgram.run (if (deadKeys start options now d).isEmpty then _ else _) d = _
  dsimp only
  split <;> rfl

theorem run_clear (start : Text) (d : ServerData) :
    ((clear start).run d).2 = ((ServerCommand.delete ((d.fields (seenKey start)).keys.map
      (entryKey start) ++ [pathsKey start, seenKey start])).run d).2 := rfl

/-! ### The steps of the abstract store -/

theorem isPruned_iff {v : StoreView Text} {options : PruneOptions} {now : Number} {key : Text} :
    v.IsPruned shelf options now key ↔ v.index.IsDead options now key :=
  StoreView.isPruned_iff_of_not_isOld (fun _ _ => rfl) options now key

/-- The step of the abstract store, with the data still healthy. -/
structure Performs (start : Text) (d : ServerData) (now : Number) (c : StoreCall)
    (answer : StoreAnswer) (d' : ServerData) : Prop where
  healthy : IsHealthy start d'
  step : (view start d).step shelf now c = (answer, view start d')

section

variable (hd : IsHealthy start d) (now : Number)

include hd

theorem performs_get (key : Text) :
    Performs start d now (.get key) (.found ((get start key).run d).1)
      ((get start key).run d).2 := by
  have hrecord : (view start d).records key = d.texts.get? (entryKey start key) := rfl
  rw [run_get_eq]
  cases hfound : d.texts.get? (entryKey start key) with
  | none => exact ⟨hd, by simp [StoreView.step, hrecord, hfound]⟩
  | some t =>
      dsimp only
      cases hread : CacheRecord.decode t with
      | ok found =>
          exact ⟨hd, by simp [StoreView.step, hrecord, hfound, shelf, hread, Lookup.ofReading]⟩
      | error fault =>
          refine ⟨hd.run _ (by simp), ?_⟩
          have hview := view_deleteEntries start [key] d
          rw [List.map_singleton] at hview
          simp only [StoreView.step, hrecord, hfound, shelf, hread, Lookup.ofReading, hview,
            Option.map_some, StoreView.drop, ite_mem_singleton]

theorem performs_put (key : Text) (value : Json) :
    Performs start d (Number.ofText now.text) (.put key value) .done
      ((put start key value now).run d).2 := by
  have hrecord : (view start d).records key = d.texts.get? (entryKey start key) := rfl
  rw [run_put]
  cases hfound : d.texts.get? (entryKey start key) with
  | some t => exact ⟨hd, by simp [StoreView.step, hrecord, hfound]⟩
  | none =>
      dsimp only
      have hset : IsHealthy start
          { d with texts := d.texts.set (entryKey start key) value.render } :=
        ⟨hd.paths, hd.seen, hd.entries⟩
      refine ⟨hset.run _ ?_, ?_⟩
      · rintro q field text h
        cases h
        exact .inr rfl
      · rw [view_setSeen]
        simp only [StoreView.step, hrecord, hfound]
        congr 2
        funext k
        simp only [view, TextMap.get?_set]
        by_cases hk : k = key <;> simp [hk, entryKey_inj, shelf]

theorem performs_recordSeen (path key : Text) :
    Performs start d (Number.ofText now.text) (.recordSeen path key) .done
      ((recordSeen start path key now).run d).2 := by
  refine ⟨(hd.run (.hashSet (pathsKey start) path key) ?_).run
    (.hashSet (seenKey start) key now.text) ?_, ?_⟩
  · rintro q field text h
    cases h
    exact .inl rfl
  · rintro q field text h
    cases h
    exact .inr rfl
  · have hview := view_setSeen start key now.text
      ((ServerCommand.hashSet (pathsKey start) path key).run d).2
    rw [view_setPath] at hview
    exact congrArg (Prod.mk StoreAnswer.done) hview.symm

theorem performs_invalidate (path : Text) :
    Performs start d now (.invalidate path) .done ((invalidate start path).run d).2 := by
  have hpaths : (view start d).index.paths path = (d.fields (pathsKey start)).get? path := rfl
  rw [run_invalidate]
  cases hfound : (d.fields (pathsKey start)).get? path with
  | none =>
      refine ⟨hd, ?_⟩
      have hlast : (view start d).index.lastKey? path = none := by
        simp [IndexView.lastKey?, hpaths, hfound]
      have hsame : Function.update (view start d).index.paths path none =
          (view start d).index.paths := by
        rw [← hfound, ← hpaths, Function.update_eq_self]
      simp [StoreView.step, IndexView.removePath, hlast, hsame]
  | some key =>
      have hrest : IsHealthy start ((ServerCommand.hashDelete (pathsKey start) [path]).run d).2 :=
        hd.run _ (by simp)
      have hview := view_dropPaths start [path] d
      rw [ite_mem_singleton] at hview
      generalize ((ServerCommand.hashDelete (pathsKey start) [path]).run d).2 = rest at hrest hview
      have hshared : ((rest.fields (pathsKey start)).any fun e => e.2 == key) = true ↔
          (view start d).index.IsShared path key := by
        rw [hrest.paths.any_iff]
        apply exists_congr
        intro other
        change (view start rest).index.paths other = some key ↔ _
        rw [hview]
        by_cases hother : other = path <;> simp [hother]
      dsimp only
      by_cases hother : (view start d).index.IsShared path key
      · have hlast : (view start d).index.lastKey? path = none := by
          simp [IndexView.lastKey?, hpaths, hfound, hother]
        rw [if_pos (hshared.mpr hother)]
        refine ⟨hrest, ?_⟩
        simp only [StoreView.step, IndexView.removePath, hlast, hview]
      · have hlast : (view start d).index.lastKey? path = some key := by
          simp [IndexView.lastKey?, hpaths, hfound, hother]
        rw [if_neg (mt hshared.mp hother)]
        refine ⟨(hrest.run _ (by simp)).run _ (by simp), ?_⟩
        have hdelete := view_deleteEntries start [key] rest
        rw [List.map_singleton, ite_mem_singleton] at hdelete
        rw [view_dropSeen, ite_mem_singleton, hdelete, hview]
        simp only [StoreView.step, IndexView.removePath, hlast, StoreView.drop]

theorem mem_deadKeys {options : PruneOptions} {now : Number} {key : Text} :
    key ∈ deadKeys start options now d ↔ (view start d).index.IsDead options now key := by
  simp only [deadKeys, List.mem_map, List.mem_filter, Prod.exists, exists_and_right,
    exists_eq_right, hd.seen.mem_iff, isDead, IndexView.IsDead, view, Option.map_eq_some_iff]
  constructor
  · rintro ⟨time, hseen, hdead⟩
    simp only [Bool.and_eq_true, Bool.not_eq_true', List.contains_eq_mem, decide_eq_false_iff_not]
      at hdead
    exact ⟨hdead.1, _, ⟨time, hseen, rfl⟩, hdead.2⟩
  · rintro ⟨hlive, _, ⟨time, hseen, rfl⟩, hle⟩
    exact ⟨time, hseen, by simp [hlive, hle]⟩

theorem mem_stalePaths {dead : List Text} {path : Text} :
    path ∈ stalePaths start dead d ↔ ∃ key ∈ dead, (view start d).index.paths path = some key := by
  simp only [stalePaths, List.mem_map, List.mem_filter, Prod.exists, exists_and_right,
    exists_eq_right, hd.paths.mem_iff, List.contains_eq_mem, decide_eq_true_eq, view]
  simp only [and_comm]

/-- As many records are deleted as there are among the dead. -/
theorem run_delete_dead (options : PruneOptions) :
    ((ServerCommand.delete ((deadKeys start options now d).map (entryKey start))).run d).1 =
      {key | ((view start d).records key).isSome ∧
        (view start d).IsPruned shelf options now key}.ncard := by
  have hnodup : (deadKeys start options now d).Nodup := hd.seen.filter _
  have hthere (key : Text) : (d.texts.has (entryKey start key) ||
      d.hashes.has (entryKey start key)) = ((view start d).records key).isSome := by
    simp [TextMap.has_eq_isSome, hd.entries, view]
  simp only [ServerCommand.run]
  rw [eraseDups_of_nodup (hnodup.map fun _ _ => entryKey_inj.mp), List.filter_map, List.length_map]
  symm
  apply ncard_eq_length (hnodup.filter _)
  intro key
  simp only [Set.mem_ofPred_eq, isPruned_iff, List.mem_filter, mem_deadKeys hd, Function.comp_apply,
    hthere]
  exact and_comm

/-- The abstract store without what is dead. -/
theorem view_pruned (options : PruneOptions) :
    ((view start d).step shelf now (.prune options)).2 =
      let dead := deadKeys start options now d
      { records := fun key => if key ∈ dead then none else (view start d).records key
        index :=
          { paths := fun path =>
              if path ∈ stalePaths start dead d then none else (view start d).index.paths path
            seen := fun key => if key ∈ dead then none else (view start d).index.seen key } } := by
  have hmem := @mem_deadKeys start d hd options now
  have hrecords : ((view start d).step shelf now (.prune options)).2.records = fun key =>
      if key ∈ deadKeys start options now d then none else (view start d).records key := by
    funext key
    by_cases hdead : (view start d).index.IsDead options now key <;>
      simp [StoreView.step, isPruned_iff, hmem, hdead]
  have hseen : ((view start d).index.takeDead options now).seen = fun key =>
      if key ∈ deadKeys start options now d then none else (view start d).index.seen key := by
    funext key
    by_cases hdead : (view start d).index.IsDead options now key <;>
      simp [IndexView.takeDead, hmem, hdead]
  have hpaths : ((view start d).index.takeDead options now).paths = fun path =>
      if path ∈ stalePaths start (deadKeys start options now d) d then none
      else (view start d).index.paths path := by
    funext path
    have hstale := @mem_stalePaths start d hd (deadKeys start options now d) path
    cases hpath : (view start d).index.paths path with
    | none => simp [IndexView.takeDead, hpath]
    | some key =>
        by_cases hdead : (view start d).index.IsDead options now key <;>
          simp [IndexView.takeDead, hstale, hmem, hpath, hdead]
  exact congrArg₂ StoreView.mk hrecords (congrArg₂ IndexView.mk hpaths hseen)

theorem performs_prune (options : PruneOptions) :
    Performs start d now (.prune options) (.removed ((prune start options now).run d).1)
      ((prune start options now).run d).2 := by
  have hcount := run_delete_dead hd now options
  have hview := view_pruned hd now options
  have hstep (n : Nat) (hn : n = ((ServerCommand.delete
      ((deadKeys start options now d).map (entryKey start))).run d).1) (v : StoreView Text)
      (hv : v = ((view start d).step shelf now (.prune options)).2) :
      (view start d).step shelf now (.prune options) = (.removed n, v) := by
    rw [hn, hv, hcount]
    rfl
  rw [run_prune]
  dsimp only
  split
  case isTrue hnone =>
      rw [List.isEmpty_iff] at hnone
      refine ⟨hd, hstep 0 ?_ _ ?_⟩
      · rw [hnone]
        rfl
      · rw [hview, hnone]
        simp [stalePaths]
  case isFalse =>
      refine ⟨((hd.run _ (by simp)).run _ (by simp)).run _ (by simp), hstep _ rfl _ ?_⟩
      rw [view_dropPaths, view_dropSeen, view_deleteEntries, hview]

theorem performs_clear (htracked : (view start d).IsTracked) :
    Performs start d now .clear .done ((clear start).run d).2 := by
  rw [run_clear]
  refine ⟨hd.run _ (by simp), congrArg (Prod.mk StoreAnswer.done) ?_⟩
  have hrecords (key : Text) (hkey : key ∉ (d.fields (seenKey start)).keys) :
      d.texts.get? (entryKey start key) = none := by
    rw [Option.eq_none_iff_forall_ne_some]
    intro t ht
    obtain ⟨time, htime⟩ := htracked key t ht
    obtain ⟨text, htext, -⟩ := Option.map_eq_some_iff.mp htime
    rw [TextMap.mem_keys_iff, htext] at hkey
    exact hkey rfl
  simp only [view, fields_delete, texts_delete, List.mem_append, List.mem_map, entryKey_inj,
    exists_eq_right, List.mem_cons, List.not_mem_nil, or_false, or_true, true_or, if_true,
    entryKey_ne_pathsKey, entryKey_ne_seenKey, TextMap.get?_nil, Option.map_none]
  refine congrArg (StoreView.mk · .empty) ?_
  funext key
  by_cases hkey : key ∈ (d.fields (seenKey start)).keys
  · rw [if_pos hkey]
  · rw [if_neg hkey, hrecords key hkey]

end

/-- The surroundings show a view: healthy data in which the time of every record is known. -/
structure Shows (start : Text) (s : Surroundings ServerData) (v : StoreView Text) : Prop where
  healthy : IsHealthy start s.state
  tracked : v.IsTracked
  view : v = view start s.state

theorem shows_empty (start : Text) (files : FileTree) (now : Number) (notes : List Note) :
    Shows start ⟨files, .empty, now, notes⟩ .empty :=
  ⟨isHealthy_empty start, StoreView.isTracked_empty, rfl⟩

/-- The time that a call leaves in the data: times are written as texts and read back. -/
def heardAt (now : Number) : StoreCall → Number
  | .put _ _ => Number.ofText now.text
  | .recordSeen _ _ => Number.ofText now.text
  | _ => now

/-- Every call succeeds and is a step of the abstract store at the time that it leaves. -/
theorem exists_performs {s : Surroundings ServerData} (hd : IsHealthy start s.state)
    (htracked : (view start s.state).IsTracked) (now : Number) (c : StoreCall) :
    ∃ answer t, (sharedStore start).call s now c = (.ok answer, t) ∧
      Performs start s.state (heardAt now c) c answer t.state := by
  cases c with
  | get key =>
      obtain ⟨hanswer, hstate⟩ := exec_lookup start key { s with now }
      refine ⟨.found ((get start key).run s.state).1, ((lookup start key).exec { s with now }).2,
        ?_, ?_⟩
      · simp only [CacheStore.call, StoreCall.perform, exec_map, sharedStore, hanswer]
        rfl
      · rw [hstate]
        exact performs_get hd now key
  | put key value => exact ⟨_, _, rfl, performs_put hd now key value⟩
  | invalidate path => exact ⟨_, _, rfl, performs_invalidate hd now path⟩
  | recordSeen path key => exact ⟨_, _, rfl, performs_recordSeen hd now path key⟩
  | prune options => exact ⟨_, _, rfl, performs_prune hd now options⟩
  | flush => exact ⟨_, _, rfl, hd, rfl⟩
  | clear => exact ⟨_, _, rfl, performs_clear hd now htracked⟩

/-- Calls at times that their texts stand for. -/
def IsTimely (now : Number) (_ : StoreCall) : Prop :=
  Number.ofText now.text = now

theorem heardAt_eq {now : Number} {c : StoreCall} (h : IsTimely now c) : heardAt now c = now := by
  cases c with
  | put key value => exact h
  | recordSeen path key => exact h
  | _ => rfl

theorem refines (start : Text) : (sharedStore start).Refines shelf IsTimely (Shows start) := by
  rintro s v now c ⟨hd, htracked, rfl⟩ hnow
  obtain ⟨answer, t, hrun, h⟩ := exists_performs hd htracked now c
  rw [heardAt_eq hnow] at h
  have hnext := htracked.step shelf now c
  rw [h.step] at hnext ⊢
  rw [hrun]
  exact ⟨rfl, h.healthy, hnext, rfl⟩

end SharedStore

end CloneScan
