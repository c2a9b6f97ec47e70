import Mathlib.Data.Set.Card
import CloneScan.Proofs.IndexText
import CloneScan.Proofs.StoreEquivalence

/-!
# What a prune removes

A prune goes by the age of a record: the time at which it was last seen, and without one the time
that the record has by itself.  It removes the records that are not in use and old enough, and
forgets the last-seen times and the paths of those whose last-seen time is that old.  This is so in
memory and on a server after any calls, whatever the clock says, and on disk for any files and any
index, also when the two do not know of each other.
-/

namespace CloneScan

/-! ## Exact prunes -/

/-- A key is not in use, and its time is no later than the cutoff. -/
def PruneOptions.Expires (options : PruneOptions) (now : Number) (key : Text)
    (time : Option Number) : Prop :=
  key ∉ options.live ∧ ∃ t, time = some t ∧ t.le (options.cutoff now) = true

namespace StoreView

variable {ρ : Type} {v : StoreView ρ} {options : PruneOptions} {now : Number}

open Classical in
/-- From one view to the other exactly what is old has gone, and so many records with it. -/
structure PrunedTo (age : Text → Option Number) (options : PruneOptions) (now : Number)
    (v v' : StoreView ρ) (count : Nat) : Prop where
  records : ∀ key, v'.records key =
    if options.Expires now key (age key) then none else v.records key
  seen : ∀ key, v'.index.seen key =
    if options.Expires now key (v.index.seen key) then none else v.index.seen key
  paths : ∀ path, v'.index.paths path =
    (v.index.paths path).filter fun key => ¬ options.Expires now key (v.index.seen key)
  count : {key | (v.records key).isSome ∧ v'.records key = none}.encard = count

/-- The time at which a record was last seen, or else the one that the record has by itself. -/
def ageOf (time : ρ → Option Number) (v : StoreView ρ) (key : Text) : Option Number :=
  (v.index.seen key).or ((v.records key).bind time)

/-- A record that is there is pruned by its age. -/
theorem isPruned_iff_expires {shelf : Shelf ρ} {time : ρ → Option Number}
    (hshelf : ∀ r cutoff, shelf.isOld r cutoff = (time r).any fun t => t.le cutoff) {key : Text}
    {r : ρ} (hr : v.records key = some r) :
    v.IsPruned shelf options now key ↔ options.Expires now key (v.ageOf time key) := by
  simp only [IsPruned, IndexView.IsDead, IsStray, PruneOptions.Expires, ageOf, hr, hshelf]
  cases hseen : v.index.seen key with
  | some t => simp
  | none => simp [Option.any_eq_true]

/-- The step of the abstract store is an exact prune when it removes finitely many records. -/
theorem prunedTo_step {shelf : Shelf ρ} {time : ρ → Option Number}
    (hshelf : ∀ r cutoff, shelf.isOld r cutoff = (time r).any fun t => t.le cutoff)
    (hfinite : {key | v.IsPruned shelf options now key}.Finite) {n : Nat} {v' : StoreView ρ}
    (hstep : v.step shelf now (.prune options) = (.removed n, v')) :
    v.PrunedTo (v.ageOf time) options now v' n := by
  classical
  have hcount : {key | (v.records key).isSome ∧ v.IsPruned shelf options now key}.ncard = n :=
    StoreAnswer.removed.inj (congrArg Prod.fst hstep)
  obtain rfl : (v.step shelf now (.prune options)).2 = v' := congrArg Prod.snd hstep
  have hrecords (key : Text) : (v.step shelf now (.prune options)).2.records key =
      if options.Expires now key (v.ageOf time key) then none else v.records key := by
    cases hr : v.records key with
    | none => simp [step, hr]
    | some r => simp [step, hr, isPruned_iff_expires hshelf hr]
  refine ⟨hrecords, fun _ => rfl, fun _ => rfl, ?_⟩
  have hset : {key | (v.records key).isSome ∧
        (v.step shelf now (.prune options)).2.records key = none} =
      {key | (v.records key).isSome ∧ v.IsPruned shelf options now key} := by
    ext key
    refine and_congr_right fun hsome => ?_
    obtain ⟨r, hr⟩ := Option.isSome_iff_exists.mp hsome
    simp [step, hr]
  have hpruned : {key | (v.records key).isSome ∧ v.IsPruned shelf options now key}.Finite :=
    hfinite.subset fun key hkey => hkey.2
  rw [hset, ← hpruned.cast_ncard_eq, hcount]

end StoreView

/-- In these surroundings every prune succeeds, answers with its count and is exact. -/
def CacheStore.PrunesExactly {σ ρ : Type} (store : CacheStore σ)
    (view : Surroundings σ → StoreView ρ) (time : ρ → Option Number) (s : Surroundings σ) : Prop :=
  ∀ (options : PruneOptions) (now : Number), ∃ count t,
    store.call s now (.prune options) = (.ok (.removed count), t) ∧
      (view s).PrunedTo ((view s).ageOf time) options now (view t) count

/-! ## In memory -/

namespace MemoryStore

theorem prunesExactly {s : Surroundings MemoryState} (hs : s.state.index.Unique) :
    memoryStore.PrunesExactly (fun s => view s.state) (fun _ => none) s := by
  intro options now
  obtain ⟨hanswer, hshows⟩ := refines s (view s.state) now (.prune options) ⟨hs, rfl⟩ trivial
  have hfinite : {key | (view s.state).IsPruned shelf options now key}.Finite := by
    refine (List.finite_toSet (s.state.index.takeDead options now).1).subset fun key hkey => ?_
    exact (PathIndex.mem_takeDead hs).mpr (isPruned_iff.mp hkey)
  refine ⟨_, (memoryStore.call s now (.prune options)).2, Prod.ext hanswer rfl, ?_⟩
  exact StoreView.prunedTo_step (fun _ _ => rfl) hfinite (Prod.ext rfl hshows.view)

theorem shows_after {s : Surroundings MemoryState} {v : StoreView Json} (hs : Shows s v)
    (htracked : v.IsTracked) (session : Session) :
    (memoryStore.after s session).state.index.Unique ∧
      (view (memoryStore.after s session).state).IsTracked := by
  induction session generalizing s v with
  | nil => exact ⟨hs.index, hs.view ▸ htracked⟩
  | cons e session ih =>
      exact ih (refines s v e.1 e.2 hs trivial).2 (htracked.step shelf e.1 e.2)

end MemoryStore

/-! ## On a server -/

namespace SharedStore

variable {start : Text}

theorem prunesExactly {s : Surroundings ServerData} (hs : IsHealthy start s.state) :
    (sharedStore start).PrunesExactly (fun s => view start s.state) (fun _ => none) s := by
  intro options now
  have hfinite : {key | (view start s.state).IsPruned shelf options now key}.Finite := by
    refine (List.finite_toSet (deadKeys start options now s.state)).subset fun key hkey => ?_
    exact (mem_deadKeys hs).mpr (isPruned_iff.mp hkey)
  refine ⟨_, _, rfl, ?_⟩
  exact StoreView.prunedTo_step (fun _ _ => rfl) hfinite (performs_prune hs now options).step

/-- The induction is over the calls, each a step of the abstract store at some time. -/
theorem isHealthy_after {s : Surroundings ServerData} (hs : IsHealthy start s.state)
    (htracked : (view start s.state).IsTracked) (session : Session) :
    IsHealthy start ((sharedStore start).after s session).state ∧
      (view start ((sharedStore start).after s session).state).IsTracked := by
  induction session generalizing s with
  | nil => exact ⟨hs, htracked⟩
  | cons e session ih =>
      obtain ⟨answer, t, hrun, h⟩ := exists_performs hs htracked e.1 e.2
      have hnext := htracked.step shelf (heardAt e.1 e.2) e.2
      rw [h.step] at hnext
      rw [CacheStore.after, hrun]
      exact ih h.healthy hnext

end SharedStore

/-! ## On disk -/

namespace DiskStore

variable {directory : List Text} {s : Surroundings DiskState}

/-- An index that was read is unique, so only one that is in memory has to be. -/
theorem unique_indexOf (h : ∀ i, s.state.index = some i → i.Unique) :
    (indexOf directory s).Unique := by
  rw [indexOf]
  cases hindex : s.state.index with
  | some i => exact h i hindex
  | none =>
      rw [Option.getD_none, storedIndex]
      split
      · rename_i bytes _
        cases hread : PathIndex.decode? (Text.ofUtf8 bytes) with
        | none => exact PathIndex.unique_empty
        | some i => exact PathIndex.unique_of_decode? hread
      · exact PathIndex.unique_empty

section

variable (hs : IsHealthy directory s.files) (hi : (indexOf directory s).Unique)
  (hkeys : ∀ key time, (indexOf directory s).view.seen key = some time → isKey key = true)

include hs hi hkeys

theorem prunesExactly : (diskStore directory).PrunesExactly (view directory) (·.2) s := by
  intro options now
  obtain ⟨n, files, dirty, notes, hrun, hremoves, -⟩ := exists_call_prune hs hi hkeys now options
  exact ⟨n, _, hrun,
    StoreView.prunedTo_step (fun _ _ => rfl) hremoves.finite (step_prune hi hkeys hremoves)⟩

/-- A prune changes no entry but those of the records that it removes. -/
theorem entry?_call_prune (options : PruneOptions) (now : Number) {t : Surroundings DiskState}
    (ht : ((diskStore directory).call s now (.prune options)).2 = t) {path : List Text}
    (hpath : ∀ key, ((view directory s).records key).isSome → (view directory t).records key = none →
      path ≠ recordPath directory key) :
    t.files.entry? path = s.files.entry? path := by
  obtain ⟨n, files, dirty, notes, hrun, hremoves, -⟩ := exists_call_prune hs hi hkeys now options
  rw [hrun] at ht
  subst ht
  by_cases hgone : ∃ key, (view directory s).IsPruned shelf options now key ∧
      path = recordPath directory key
  · -- a key that is pruned without a record has no entry before and none after
    obtain ⟨key, hgone, rfl⟩ := hgone
    have hkey := isKey_of_isPruned hkeys hgone
    have hafter : recordAt directory files key = none :=
      (hremoves.records key).trans (if_pos hgone)
    have hbefore : recordAt directory s.files key = none := by
      by_contra hsome
      refine hpath key ?_ ?_ rfl
      · rwa [view_records hkey, Option.isSome_iff_ne_none]
      · rwa [view_records hkey]
    rw [(hremoves.healthy.recordAt_eq_none_iff hkey).mp hafter,
      (hs.recordAt_eq_none_iff hkey).mp hbefore]
  · exact hremoves.others path fun key hkey heq => hgone ⟨key, hkey, heq⟩

end

end DiskStore

/-- The directory has a record that the index does not know, and the index one that is not there. -/
def driftedStore : Surroundings DiskState where
  files := ⟨[([Text.ofString "entries"], .directory),
    ([Text.ofString "entries", Text.ofString "a.json"], .file [] (some (.finite 0)))]⟩
  state := ⟨some ⟨[(Text.ofString "p", Text.ofString "c")], [(Text.ofString "c", .finite 0)]⟩, false⟩
  now := .finite 0
  notes := []

theorem entry?_driftedStore {path : List Text} {e : FileEntry}
    (h : driftedStore.files.entry? path = some e) :
    (path = [] ∨ path = [Text.ofString "entries"]) ∧ e = .directory ∨
      path = [Text.ofString "entries", Text.ofString "a.json"] ∧ e = .file [] (some (.finite 0)) := by
  cases path with
  | nil => exact .inl ⟨.inl rfl, (Option.some.inj h).symm⟩
  | cons name rest =>
      obtain ⟨entry, hfound, rfl⟩ := Option.map_eq_some_iff.mp h
      have hpath : entry.1 = name :: rest := by simpa using List.find?_some hfound
      have hmem := List.mem_of_find?_eq_some hfound
      rw [← hpath]
      simp only [driftedStore, List.mem_cons, List.not_mem_nil, or_false] at hmem
      rcases hmem with rfl | rfl
      · exact .inl ⟨.inr rfl, rfl⟩
      · exact .inr ⟨rfl, rfl⟩

theorem isHealthy_driftedStore : DiskStore.IsHealthy [] driftedStore.files := by
  refine ⟨fun path e h => ?_, fun path hpath bytes time h => ?_, fun key _ h => ?_, fun h => ?_⟩
  · rcases entry?_driftedStore h with ⟨rfl | rfl, -⟩ | ⟨rfl, -⟩ <;> decide
  · rcases entry?_driftedStore h with ⟨-, he⟩ | ⟨rfl, -⟩
    · cases he
    · exact absurd hpath (by decide)
  · rcases entry?_driftedStore h with ⟨hpath | hpath, -⟩ | ⟨-, he⟩
    · simp [DiskStore.recordPath, DiskStore.entriesPath] at hpath
    · simp [DiskStore.recordPath, DiskStore.entriesPath] at hpath
    · cases he
  · rcases entry?_driftedStore h with ⟨hpath, -⟩ | ⟨-, he⟩
    · revert hpath
      decide
    · cases he

end CloneScan
