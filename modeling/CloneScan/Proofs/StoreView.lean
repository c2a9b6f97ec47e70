import CloneScan.Proofs.TextMaps

/-!
# Cache stores from outside

A store is used by calls, one after another, and all that is seen of it is the answers.  The
abstract store is a map of records beside an index, which knows the record of each path and the time
at which each record was last seen: a put writes where nothing is, a record that cannot be used
vanishes when it is looked up, and forgetting a path drops its record when no other path has it.
A store that shows a view of the abstract store and keeps showing it answers as the abstract store
does.
-/

namespace CloneScan

/-! ## Calls -/

/-- A call of an operation of a store. -/
inductive StoreCall where
  | get (key : Text)
  | put (key : Text) (value : Json)
  | invalidate (path : Text)
  | recordSeen (path key : Text)
  | prune (options : PruneOptions)
  | flush
  | clear

inductive StoreAnswer where
  | done
  | found (lookup : Lookup)
  | removed (count : Nat)

def StoreCall.perform {σ : Type} (store : CacheStore σ) : StoreCall → StoreM σ StoreAnswer
  | .get key => .found <$> store.get key
  | .put key value => (fun _ => .done) <$> store.put key value
  | .invalidate path => (fun _ => .done) <$> store.invalidate path
  | .recordSeen path key => (fun _ => .done) <$> store.recordSeen path key
  | .prune options => .removed <$> store.prune options
  | .flush => (fun _ => .done) <$> store.flush
  | .clear => (fun _ => .done) <$> store.clear

/-- Calls one after another, each with the time at which it is made. -/
abbrev Session := List (Number × StoreCall)

theorem StoreM.exec_map {σ α β : Type} (f : α → β) (op : StoreM σ α) (s : Surroundings σ) :
    (f <$> op).exec s = ((op.exec s).1.map f, (op.exec s).2) := by
  rw [map_eq_pure_bind, exec_bind]
  rcases op.exec s with ⟨_ | a, s'⟩ <;> rfl

namespace CacheStore

variable {σ : Type} (store : CacheStore σ)

def call (s : Surroundings σ) (now : Number) (c : StoreCall) :
    Except StoreFault StoreAnswer × Surroundings σ :=
  (c.perform store).exec { s with now }

/-- The answers to the calls of a session; a call that fails does not end it. -/
def answers (s : Surroundings σ) : Session → List (Except StoreFault StoreAnswer)
  | [] => []
  | (now, c) :: rest => (store.call s now c).1 :: answers (store.call s now c).2 rest

def after (s : Surroundings σ) : Session → Surroundings σ
  | [] => s
  | (now, c) :: rest => after (store.call s now c).2 rest

theorem after_append (s : Surroundings σ) (before rest : Session) :
    store.after s (before ++ rest) = store.after (store.after s before) rest := by
  induction before generalizing s with
  | nil => rfl
  | cons e before ih => exact ih _

end CacheStore

/-! ## Indexes -/

/-- The record of each path and the time at which each record was last seen. -/
structure IndexView where
  paths : Text → Option Text
  seen : Text → Option Number

namespace IndexView

def empty : IndexView := ⟨fun _ => none, fun _ => none⟩

def touch (v : IndexView) (key : Text) (now : Number) (path : Option Text) : IndexView where
  paths :=
    match path with
    | none => v.paths
    | some p => Function.update v.paths p (some key)
  seen := Function.update v.seen key (some now)

/-- Another path has the record. -/
def IsShared (v : IndexView) (path key : Text) : Prop :=
  ∃ other, other ≠ path ∧ v.paths other = some key

open Classical in
/-- The record that goes with a path: the one that no other path has. -/
noncomputable def lastKey? (v : IndexView) (path : Text) : Option Text :=
  (v.paths path).filter fun key => ¬ v.IsShared path key

/-- Forgets a path, and the time of the record that goes with it. -/
noncomputable def removePath (v : IndexView) (path : Text) : IndexView where
  paths := Function.update v.paths path none
  seen :=
    match v.lastKey? path with
    | none => v.seen
    | some key => Function.update v.seen key none

/-- A record is dead: not in use and last seen no later than the cutoff. -/
def IsDead (v : IndexView) (options : PruneOptions) (now : Number) (key : Text) : Prop :=
  key ∉ options.live ∧ ∃ time, v.seen key = some time ∧ time.le (options.cutoff now) = true

open Classical in
/-- Forgets the dead records and the paths that have them. -/
noncomputable def takeDead (v : IndexView) (options : PruneOptions) (now : Number) : IndexView where
  paths := fun path => (v.paths path).filter fun key => ¬ v.IsDead options now key
  seen := fun key => if v.IsDead options now key then none else v.seen key

theorem takeDead_of_not_isDead {v : IndexView} {options : PruneOptions} {now : Number}
    (h : ∀ key, ¬ v.IsDead options now key) : v.takeDead options now = v := by
  refine congrArg₂ IndexView.mk (funext fun path => ?_) (funext fun key => if_neg (h key))
  cases v.paths path <;> simp [h]

end IndexView

namespace PathIndex

variable {i : PathIndex}

def view (i : PathIndex) : IndexView :=
  ⟨i.paths.get?, i.seen.get?⟩

@[simp] theorem view_paths (i : PathIndex) : i.view.paths = i.paths.get? := rfl

@[simp] theorem view_seen (i : PathIndex) : i.view.seen = i.seen.get? := rfl

/-- No path and no record stands twice in the index. -/
structure Unique (i : PathIndex) : Prop where
  paths : i.paths.Unique
  seen : i.seen.Unique

theorem unique_empty : empty.Unique :=
  ⟨TextMap.unique_nil, TextMap.unique_nil⟩

theorem Unique.touch (hi : i.Unique) (key : Text) (now : Number) (path : Option Text) :
    (i.touch key now path).Unique := by
  refine ⟨?_, hi.seen.set key now⟩
  cases path with
  | none => exact hi.paths
  | some p => exact hi.paths.set p key

theorem view_touch (i : PathIndex) (key : Text) (now : Number) (path : Option Text) :
    (i.touch key now path).view = i.view.touch key now path := by
  have hseen := i.seen.get?_set_eq_update key now
  cases path with
  | none => exact congrArg (IndexView.mk i.paths.get?) hseen
  | some p => exact congrArg₂ IndexView.mk (i.paths.get?_set_eq_update p key) hseen

/-! ### Forgetting a path -/

theorem Unique.any_erase_iff (hi : i.Unique) (path key : Text) :
    ((i.paths.erase path).any fun e => e.2 == key) = true ↔ i.view.IsShared path key := by
  rw [(hi.paths.erase path).any_iff]
  simp only [TextMap.get?_erase, IndexView.IsShared, view_paths]
  apply exists_congr
  intro other
  by_cases hother : other = path <;> simp [hother]

/-- What forgetting a path returns, and what it leaves. -/
theorem Unique.removePath (hi : i.Unique) (path : Text) :
    (i.removePath path).1 = i.view.lastKey? path ∧
      (i.removePath path).2.view = i.view.removePath path ∧ (i.removePath path).2.Unique := by
  unfold PathIndex.removePath IndexView.removePath
  cases hpath : i.paths.get? path with
  | none =>
      have hlast : i.view.lastKey? path = none := by simp [IndexView.lastKey?, hpath]
      have hpaths : Function.update i.paths.get? path none = i.paths.get? := by
        rw [← hpath, Function.update_eq_self]
      simp only [hlast, view_paths, hpaths]
      exact ⟨trivial, rfl, hi⟩
  | some key =>
      have hshared := hi.any_erase_iff path key
      dsimp only
      by_cases hother : i.view.IsShared path key
      · have hlast : i.view.lastKey? path = none := by simp [IndexView.lastKey?, hpath, hother]
        rw [if_pos (hshared.mpr hother), hlast]
        refine ⟨rfl, ?_, hi.paths.erase path, hi.seen⟩
        simp only [view, TextMap.get?_erase_eq_update]
      · have hlast : i.view.lastKey? path = some key := by simp [IndexView.lastKey?, hpath, hother]
        rw [if_neg (mt hshared.mp hother), hlast]
        refine ⟨rfl, ?_, hi.paths.erase path, hi.seen.erase key⟩
        simp only [view, TextMap.get?_erase_eq_update]

/-! ### Forgetting what is dead -/

theorem mem_takeDead (hi : i.Unique) {options : PruneOptions} {now : Number} {key : Text} :
    key ∈ (i.takeDead options now).1 ↔ i.view.IsDead options now key := by
  simp only [takeDead, List.mem_map, List.mem_filter, Prod.exists, exists_and_right,
    exists_eq_right, hi.seen.mem_iff, isDead, IndexView.IsDead, view_seen]
  constructor
  · rintro ⟨time, hseen, hdead⟩
    simp only [Bool.and_eq_true, Bool.not_eq_true', List.contains_eq_mem, decide_eq_false_iff_not]
      at hdead
    exact ⟨hdead.1, time, hseen, hdead.2⟩
  · rintro ⟨hlive, time, hseen, hle⟩
    exact ⟨time, hseen, by simp [hlive, hle]⟩

theorem Unique.nodup_takeDead (hi : i.Unique) (options : PruneOptions) (now : Number) :
    (i.takeDead options now).1.Nodup :=
  hi.seen.filter _

theorem Unique.takeDead (hi : i.Unique) (options : PruneOptions) (now : Number) :
    (i.takeDead options now).2.Unique :=
  ⟨hi.paths.filter _, hi.seen.filter _⟩

theorem Unique.view_takeDead (hi : i.Unique) (options : PruneOptions) (now : Number) :
    (i.takeDead options now).2.view = i.view.takeDead options now := by
  have hpaths : (i.takeDead options now).2.paths.get? = (i.view.takeDead options now).paths := by
    funext path
    refine (hi.paths.get?_filter _ path).trans ?_
    simp only [IndexView.takeDead, view_paths]
    congr 1
    funext key
    have hkey := @mem_takeDead i hi options now key
    by_cases hdead : i.view.IsDead options now key
    · simpa [hdead, PathIndex.takeDead] using hkey.mpr hdead
    · simpa [hdead, PathIndex.takeDead] using mt hkey.mp hdead
  have hseen : (i.takeDead options now).2.seen.get? = (i.view.takeDead options now).seen := by
    funext key
    refine (hi.seen.get?_filter _ key).trans ?_
    cases htime : i.seen.get? key with
    | none => simp [IndexView.takeDead, htime]
    | some time =>
        by_cases hlive : key ∈ options.live <;>
          by_cases hle : time.le (options.cutoff now) = true <;>
            simp [IndexView.takeDead, IndexView.IsDead, htime, isDead, hlive, hle]
  exact congrArg₂ IndexView.mk hpaths hseen

end PathIndex

/-! ## Records -/

/-- What a look-up finds of a record that reads so. -/
def Lookup.ofReading : Except RecordFault CacheRecord → Lookup
  | .ok found => .hit found
  | .error fault => .corrupt (.record fault)

/-- How a store keeps its records, which it writes at some time. -/
structure Shelf (ρ : Type) where
  write : Number → Json → ρ
  read : ρ → Lookup
  isOld : ρ → Number → Bool

/-- The records of a store by key, and its index. -/
structure StoreView (ρ : Type) where
  records : Text → Option ρ
  index : IndexView

namespace StoreView

variable {ρ : Type}

def empty : StoreView ρ := ⟨fun _ => none, .empty⟩

def drop (v : StoreView ρ) (key : Text) : StoreView ρ :=
  { v with records := Function.update v.records key none }

/-- A record that no time is known for is old by itself. -/
def IsStray (shelf : Shelf ρ) (v : StoreView ρ) (options : PruneOptions) (now : Number)
    (key : Text) : Prop :=
  key ∉ options.live ∧ v.index.seen key = none ∧
    ∃ r, v.records key = some r ∧ shelf.isOld r (options.cutoff now) = true

/-- A record is pruned: it is dead, or no time is known for it and it is old. -/
def IsPruned (shelf : Shelf ρ) (v : StoreView ρ) (options : PruneOptions) (now : Number)
    (key : Text) : Prop :=
  v.index.IsDead options now key ∨ v.IsStray shelf options now key

open Classical in
/-- The answer of the store to a call, and the store afterwards. -/
noncomputable def step (shelf : Shelf ρ) (v : StoreView ρ) (now : Number) :
    StoreCall → StoreAnswer × StoreView ρ
  | .get key =>
    match (v.records key).map shelf.read with
    | none => (.found .miss, v)
    | some (.corrupt reason) => (.found (.corrupt reason), v.drop key)
    | some found => (.found found, v)
  | .put key value =>
    match v.records key with
    | some _ => (.done, v)
    | none =>
      (.done,
        { records := Function.update v.records key (some (shelf.write now value))
          index := v.index.touch key now none })
  | .invalidate path =>
    match v.index.lastKey? path with
    | none => (.done, { v with index := v.index.removePath path })
    | some key => (.done, { v.drop key with index := v.index.removePath path })
  | .recordSeen path key => (.done, { v with index := v.index.touch key now (some path) })
  | .prune options =>
    (.removed {key | (v.records key).isSome ∧ v.IsPruned shelf options now key}.ncard,
      { records := fun key =>
          if v.IsPruned shelf options now key then none else v.records key
        index := v.index.takeDead options now })
  | .flush => (.done, v)
  | .clear => (.done, empty)

noncomputable def answers (shelf : Shelf ρ) (v : StoreView ρ) : Session → List StoreAnswer
  | [] => []
  | (now, c) :: rest => (v.step shelf now c).1 :: answers shelf (v.step shelf now c).2 rest

noncomputable def after (shelf : Shelf ρ) (v : StoreView ρ) : Session → StoreView ρ
  | [] => v
  | (now, c) :: rest => after shelf (v.step shelf now c).2 rest

end StoreView

/-! ## What the abstract store keeps -/

namespace StoreView

variable {ρ : Type} {v : StoreView ρ}

/-- The time of every record is known. -/
def IsTracked (v : StoreView ρ) : Prop :=
  ∀ key r, v.records key = some r → ∃ time, v.index.seen key = some time

theorem isTracked_empty : (empty : StoreView ρ).IsTracked := by
  intro key r h
  cases h

theorem isPruned_iff_of_not_isOld {shelf : Shelf ρ} (hshelf : ∀ r time, shelf.isOld r time = false)
    (options : PruneOptions) (now : Number) (key : Text) :
    v.IsPruned shelf options now key ↔ v.index.IsDead options now key := by
  refine or_iff_left ?_
  rintro ⟨-, -, r, -, hold⟩
  rw [hshelf] at hold
  cases hold

/-- Where every time is known, no record is old by itself. -/
theorem IsTracked.isPruned_iff (hv : v.IsTracked) (shelf : Shelf ρ) (options : PruneOptions)
    (now : Number) (key : Text) :
    v.IsPruned shelf options now key ↔ v.index.IsDead options now key := by
  refine or_iff_left ?_
  rintro ⟨-, hseen, r, hr, -⟩
  obtain ⟨time, htime⟩ := hv key r hr
  rw [hseen] at htime
  cases htime

/-- Records lose their times with themselves only. -/
theorem IsTracked.step (hv : v.IsTracked) (shelf : Shelf ρ) (now : Number) (c : StoreCall) :
    (v.step shelf now c).2.IsTracked := by
  intro key r hr
  cases c with
  | get k =>
      have hkept : (v.step shelf now (.get k)).2 = v ∨
          (v.step shelf now (.get k)).2 = v.drop k := by
        simp only [StoreView.step]
        split
        · exact .inl rfl
        · exact .inr rfl
        · exact .inl rfl
      rcases hkept with heq | heq <;> rw [heq] at hr ⊢
      · exact hv key r hr
      · by_cases hkey : key = k
        · simp [drop, hkey] at hr
        · exact hv key r (by simpa [drop, hkey] using hr)
  | put k value =>
      cases hpresent : v.records k with
      | some found =>
          simp only [StoreView.step, hpresent] at hr ⊢
          exact hv key r hr
      | none =>
          simp only [StoreView.step, hpresent, IndexView.touch] at hr ⊢
          by_cases hkey : key = k
          · exact ⟨now, by simp [hkey]⟩
          · simpa [hkey] using hv key r (by simpa [hkey] using hr)
  | invalidate path =>
      cases hlast : v.index.lastKey? path with
      | none =>
          simp only [StoreView.step, IndexView.removePath, hlast] at hr ⊢
          exact hv key r hr
      | some k =>
          simp only [StoreView.step, IndexView.removePath, hlast, drop] at hr ⊢
          by_cases hkey : key = k
          · simp [hkey] at hr
          · simpa [hkey] using hv key r (by simpa [hkey] using hr)
  | recordSeen path k =>
      by_cases hkey : key = k
      · exact ⟨now, by simp [StoreView.step, IndexView.touch, hkey]⟩
      · simpa [StoreView.step, IndexView.touch, hkey] using hv key r hr
  | prune options =>
      simp only [StoreView.step, IndexView.takeDead] at hr ⊢
      by_cases hpruned : v.IsPruned shelf options now key
      · simp [hpruned] at hr
      · have hdead : ¬ v.index.IsDead options now key := fun h => hpruned (.inl h)
        simpa [hdead] using hv key r (by simpa [hpruned] using hr)
  | flush => exact hv key r hr
  | clear => cases hr

theorem index_invalidate (shelf : Shelf ρ) (v : StoreView ρ) (now : Number) (path : Text) :
    (v.step shelf now (.invalidate path)).2.index = v.index.removePath path := by
  simp only [StoreView.step]
  split <;> rfl

open Classical in
theorem records_invalidate (shelf : Shelf ρ) (v : StoreView ρ) (now : Number) (path key : Text) :
    (v.step shelf now (.invalidate path)).2.records key =
      if v.index.lastKey? path = some key then none else v.records key := by
  cases hlast : v.index.lastKey? path with
  | none => simp [StoreView.step, hlast]
  | some gone => by_cases hkey : key = gone <;> simp [StoreView.step, drop, hlast, hkey, eq_comm]

/-- Every time in the index is one from before or the time of the call. -/
theorem seen_step {shelf : Shelf ρ} {now time : Number} {c : StoreCall} {key : Text}
    (h : (v.step shelf now c).2.index.seen key = some time) :
    time = now ∨ v.index.seen key = some time := by
  have htouch (k : Text) (path : Option Text)
      (h : (v.index.touch k now path).seen key = some time) :
      time = now ∨ v.index.seen key = some time := by
    by_cases hkey : key = k
    · left
      simpa [IndexView.touch, hkey, eq_comm] using h
    · right
      simpa [IndexView.touch, hkey] using h
  cases c with
  | get k =>
      right
      simp only [StoreView.step] at h
      split at h <;> exact h
  | put k value =>
      simp only [StoreView.step] at h
      split at h
      · exact .inr h
      · exact htouch k none h
  | invalidate path =>
      right
      rw [index_invalidate, IndexView.removePath] at h
      cases hlast : v.index.lastKey? path with
      | none => simpa [hlast] using h
      | some gone =>
          by_cases hkey : key = gone
          · simp [hlast, hkey] at h
          · simpa [hlast, hkey] using h
  | recordSeen path k => exact htouch k (some path) h
  | prune options =>
      right
      simp only [StoreView.step, IndexView.takeDead] at h
      split at h
      · cases h
      · exact h
  | flush => exact .inr h
  | clear => cases h

theorem answers_append (shelf : Shelf ρ) (v : StoreView ρ) (before rest : Session) :
    v.answers shelf (before ++ rest) =
      v.answers shelf before ++ (v.after shelf before).answers shelf rest := by
  induction before generalizing v with
  | nil => rfl
  | cons e before ih => exact congrArg (List.cons _) (ih _)

end StoreView

/-! ## Refinement -/

/-- A store answers lawful calls as the abstract store, and shows its view before and after. -/
def CacheStore.Refines {σ ρ : Type} (store : CacheStore σ) (shelf : Shelf ρ)
    (lawful : Number → StoreCall → Prop) (Shows : Surroundings σ → StoreView ρ → Prop) : Prop :=
  ∀ s v now c, Shows s v → lawful now c →
    (store.call s now c).1 = .ok (v.step shelf now c).1 ∧
      Shows (store.call s now c).2 (v.step shelf now c).2

namespace CacheStore.Refines

variable {σ ρ : Type} {store : CacheStore σ} {shelf : Shelf ρ}
  {lawful : Number → StoreCall → Prop} {Shows : Surroundings σ → StoreView ρ → Prop}

theorem answers_eq (h : store.Refines shelf lawful Shows) {s : Surroundings σ} {v : StoreView ρ}
    (hs : Shows s v) {session : Session} (hsession : ∀ e ∈ session, lawful e.1 e.2) :
    store.answers s session = (v.answers shelf session).map .ok := by
  induction session generalizing s v with
  | nil => rfl
  | cons e rest ih =>
      rw [List.forall_mem_cons] at hsession
      obtain ⟨hanswer, hshows⟩ := h s v e.1 e.2 hs hsession.1
      rw [CacheStore.answers, StoreView.answers, List.map_cons, hanswer, ih hshows hsession.2]

end CacheStore.Refines

end CloneScan
