import CloneScan.Cache.MemoryStore
import CloneScan.Cache.SharedStore
import CloneScan.Proofs.DiskFiles
import CloneScan.Proofs.RecordText
import CloneScan.Scan

/-!
# The records of a store

Which records a store holds, and what its operations do to them.  Only a put adds a record, and the
record that it adds is its own; every other operation leaves records alone or takes some away, also
when it fails halfway.
-/

namespace CloneScan

/-- The same files at the same time. -/
structure Surroundings.Beside {σ : Type} (s t : Surroundings σ) : Prop where
  files : t.files = s.files
  now : t.now = s.now

/-! ## The store in memory -/

namespace MemoryStore

open StoreM

theorem exec_get (key : Text) (s : Surroundings MemoryState) :
    (get key).exec s =
      match s.state.values.get? key with
      | none => (.ok .miss, s)
      | some v =>
        if isVoid v then (.ok .miss, s)
        else
          match CacheRecord.ofJson v with
          | .ok found => (.ok (.hit found), s)
          | .error fault =>
            (.ok (.corrupt (.record fault)),
              { s with state := { s.state with values := s.state.values.erase key } }) := by
  unfold get
  rw [exec_bind, exec_state]
  dsimp only
  cases s.state.values.get? key with
  | none => rfl
  | some v =>
      dsimp only
      cases isVoid v with
      | true => rfl
      | false => cases CacheRecord.ofJson v <;> rfl

theorem beside_get (key : Text) (s : Surroundings MemoryState) :
    s.Beside ((get key).exec s).2 := by
  rw [exec_get]
  split
  · exact ⟨rfl, rfl⟩
  · split
    · exact ⟨rfl, rfl⟩
    · split <;> exact ⟨rfl, rfl⟩

theorem ofJson_of_exec_get {key : Text} {s : Surroundings MemoryState} {r : CacheRecord}
    (h : ((get key).exec s).1 = .ok (.hit r)) :
    ∃ v, s.state.values.get? key = some v ∧ CacheRecord.ofJson v = .ok r := by
  rw [exec_get] at h
  cases hv : s.state.values.get? key with
  | none => simp [hv] at h
  | some v =>
      refine ⟨v, rfl, ?_⟩
      simp only [hv] at h
      split at h
      · cases h
      · cases hr : CacheRecord.ofJson v with
        | ok found =>
            simp only [hr] at h
            cases h
            rfl
        | error fault => simp [hr] at h

theorem values_get {key q : Text} {s : Surroundings MemoryState} {v : Json}
    (h : ((get key).exec s).2.state.values.get? q = some v) : s.state.values.get? q = some v := by
  rw [exec_get] at h
  split at h
  · exact h
  · split at h
    · exact h
    · split at h
      · exact h
      · exact TextMap.get?_of_erase h

theorem exec_put (key : Text) (value : Json) (s : Surroundings MemoryState) :
    (put key value).exec s =
      if s.state.values.has key then (.ok (), s)
      else
        (.ok (), { s with state :=
          { values := s.state.values.set key value
            index := s.state.index.touch key s.now none } }) := by
  unfold put
  rw [exec_bind, exec_state]
  dsimp only
  split <;> rfl

theorem beside_put (key : Text) (value : Json) (s : Surroundings MemoryState) :
    s.Beside ((put key value).exec s).2 := by
  rw [exec_put]
  split <;> exact ⟨rfl, rfl⟩

theorem values_put {key q : Text} {value v : Json} {s : Surroundings MemoryState}
    (h : ((put key value).exec s).2.state.values.get? q = some v) :
    s.state.values.get? q = some v ∨ q = key ∧ v = value := by
  rw [exec_put] at h
  split at h
  · exact .inl h
  · rw [TextMap.get?_set] at h
    split at h
    case isTrue heq => exact .inr ⟨eq_of_beq heq, (Option.some.inj h).symm⟩
    case isFalse => exact .inl h

theorem values_invalidate {path : Text} {s : Surroundings MemoryState} {q : Text} {v : Json}
    (h : ((invalidate path).exec s).2.state.values.get? q = some v) :
    s.state.values.get? q = some v := by
  unfold invalidate at h
  rw [exec_bind, exec_state] at h
  dsimp only at h
  split at h
  · exact h
  · exact TextMap.get?_of_erase h

theorem beside_invalidate (path : Text) (s : Surroundings MemoryState) :
    s.Beside ((invalidate path).exec s).2 := by
  unfold invalidate
  rw [exec_bind, exec_state]
  dsimp only
  split <;> exact ⟨rfl, rfl⟩

theorem values_prune {options : PruneOptions} {s : Surroundings MemoryState} {q : Text} {v : Json}
    (h : ((prune options).exec s).2.state.values.get? q = some v) :
    s.state.values.get? q = some v :=
  TextMap.get?_of_filter
    (fun k => !(s.state.index.takeDead options s.now).1.contains k) h

end MemoryStore

/-! ## The shared store -/

namespace ServerCommand

/-- Only a conditional set brings a text. -/
theorem get?_texts_run {c : ServerCommand} {d : ServerData} {key t : Text}
    (h : (c.run d).2.texts.get? key = some t) :
    d.texts.get? key = some t ∨ c = .setIfAbsent key t := by
  cases c with
  | setIfAbsent k value =>
      simp only [run] at h
      split at h
      case isTrue => exact .inl h
      case isFalse =>
          rw [TextMap.get?_set] at h
          split at h
          case isTrue heq =>
              cases h
              rw [eq_of_beq heq]
              exact .inr rfl
          case isFalse => exact .inl h
  | delete keys => exact .inl (TextMap.get?_of_filter (fun k => !keys.contains k) h)
  | get k => exact .inl h
  | hashGet k field => exact .inl h
  | hashSet k field value => exact .inl h
  | hashDelete k fields => exact .inl h
  | hashAll k => exact .inl h

end ServerCommand

namespace ServerProgram

variable {α β : Type}

/-- Every text that a program may set is a new one. -/
def Writes (new : Text → Text → Prop) : ServerProgram α → Prop
  | .done _ => True
  | .send c next => (∀ key t, c = .setIfAbsent key t → new key t) ∧ ∀ reply, Writes new (next reply)

variable {new : Text → Text → Prop}

theorem Writes.bind {p : ServerProgram α} {next : α → ServerProgram β} (hp : p.Writes new)
    (hnext : ∀ a, (next a).Writes new) : (p >>= next).Writes new := by
  induction p with
  | done a => exact hnext a
  | send c rest ih => exact ⟨hp.1, fun reply => ih reply (hp.2 reply)⟩

theorem writes_pure (a : α) : (pure a : ServerProgram α).Writes new :=
  trivial

theorem writes_command {c : ServerCommand} (hc : ∀ key t, c = .setIfAbsent key t → new key t) :
    (command c).Writes new :=
  ⟨hc, fun _ => trivial⟩

theorem writes_ite {c : Prop} {_ : Decidable c} {p q : ServerProgram α} (hp : p.Writes new)
    (hq : q.Writes new) : (if c then p else q).Writes new := by
  split
  · exact hp
  · exact hq

theorem run_bind (p : ServerProgram α) (next : α → ServerProgram β) (d : ServerData) :
    (p >>= next).run d = (next (p.run d).1).run (p.run d).2 := by
  induction p generalizing d with
  | done a => rfl
  | send c rest ih => exact ih _ _

theorem run_command (c : ServerCommand) (d : ServerData) : (command c).run d = c.run d := rfl

theorem get?_texts_run {p : ServerProgram α} (hp : p.Writes new) {d : ServerData} {key t : Text}
    (h : (p.run d).2.texts.get? key = some t) : d.texts.get? key = some t ∨ new key t := by
  induction p generalizing d with
  | done a => exact .inl h
  | send c rest ih =>
      rcases ih _ (hp.2 _) h with h | h
      · rcases ServerCommand.get?_texts_run h with h | hset
        · exact .inl h
        · exact .inr (hp.1 key t hset)
      · exact .inr h

end ServerProgram

namespace SharedStore

open ServerProgram

variable {new : Text → Text → Prop} (start : Text)

theorem writes_get (key : Text) : (get start key).Writes new := by
  unfold get
  refine (writes_command (by simp)).bind fun found => ?_
  split
  · exact writes_pure _
  · split
    · exact writes_pure _
    · exact (writes_command (by simp)).bind fun _ => writes_pure _

theorem writes_put (key : Text) (value : Json) (now : Number)
    (hnew : new (entryKey start key) value.render) : (put start key value now).Writes new := by
  unfold put
  refine (writes_command ?_).bind fun written => ?_
  · rintro k t h
    cases h
    exact hnew
  · exact writes_ite (writes_command (by simp)) (writes_pure _)

theorem writes_invalidate (path : Text) : (invalidate start path).Writes new := by
  unfold invalidate
  refine (writes_command (by simp)).bind fun found => ?_
  split
  · exact writes_pure _
  · refine (writes_command (by simp)).bind fun _ => (writes_command (by simp)).bind fun paths => ?_
    exact writes_ite (writes_pure _)
      ((writes_command (by simp)).bind fun _ => writes_command (by simp))

theorem writes_recordSeen (path key : Text) (now : Number) :
    (recordSeen start path key now).Writes new :=
  (writes_command (by simp)).bind fun _ => writes_command (by simp)

theorem writes_prune (options : PruneOptions) (now : Number) :
    (prune start options now).Writes new := by
  unfold prune
  refine (writes_command (by simp)).bind fun seen => ?_
  dsimp only
  split
  · exact writes_pure _
  · exact (writes_command (by simp)).bind fun _ => (writes_command (by simp)).bind fun _ =>
      (writes_command (by simp)).bind fun _ => (writes_command (by simp)).bind fun _ =>
        writes_pure _

theorem writes_clear : (clear start).Writes new := by
  unfold clear
  exact (writes_command (by simp)).bind fun _ => (writes_command (by simp)).bind fun _ =>
    writes_pure _

theorem exec_perform {α : Type} (p : ServerProgram α) (s : Surroundings ServerData) :
    (perform p).exec s = (.ok (p.run s.state).1, { s with state := (p.run s.state).2 }) := rfl

theorem exec_lookup (key : Text) (s : Surroundings ServerData) :
    ((lookup start key).exec s).1 = .ok ((get start key).run s.state).1 ∧
      ((lookup start key).exec s).2.state = ((get start key).run s.state).2 := by
  unfold lookup
  rw [StoreM.exec_bind, exec_perform]
  dsimp only
  cases ((get start key).run s.state).1 <;> exact ⟨rfl, rfl⟩

theorem beside_lookup (key : Text) (s : Surroundings ServerData) :
    s.Beside ((lookup start key).exec s).2 := by
  unfold lookup
  rw [StoreM.exec_bind, exec_perform]
  dsimp only
  cases ((get start key).run s.state).1 <;> exact ⟨rfl, rfl⟩

theorem texts_lookup {key q t : Text} {s : Surroundings ServerData}
    (h : ((lookup start key).exec s).2.state.texts.get? q = some t) :
    s.state.texts.get? q = some t := by
  rw [(exec_lookup start key s).2] at h
  have hwrites : (get start key).Writes fun _ _ => False := writes_get start key
  rcases get?_texts_run hwrites h with h | h
  · exact h
  · exact h.elim

theorem run_get (key : Text) (d : ServerData) :
    ((get start key).run d).1 =
      match d.texts.get? (entryKey start key) with
      | none => .miss
      | some t =>
        match CacheRecord.decode t with
        | .ok found => .hit found
        | .error fault => .corrupt (.record fault) := by
  unfold get
  rw [run_bind, run_command, ServerCommand.run]
  dsimp only
  cases d.texts.get? (entryKey start key) with
  | none => rfl
  | some t =>
      dsimp only
      cases CacheRecord.decode t <;> rfl

/-- A look-up hits what the server has. -/
theorem decode_of_exec_lookup {key : Text} {s : Surroundings ServerData} {r : CacheRecord}
    (h : ((lookup start key).exec s).1 = .ok (.hit r)) :
    ∃ t, s.state.texts.get? (entryKey start key) = some t ∧ CacheRecord.decode t = .ok r := by
  rw [(exec_lookup start key s).1, run_get] at h
  cases ht : s.state.texts.get? (entryKey start key) with
  | none => simp [ht] at h
  | some t =>
      refine ⟨t, rfl, ?_⟩
      simp only [ht] at h
      cases hr : CacheRecord.decode t with
      | ok found =>
          simp only [hr] at h
          cases h
          rfl
      | error fault => simp [hr] at h

end SharedStore

/-! ## All stores -/

/-- The stores that a scan can use. -/
inductive StoreKind where
  | memory
  | shared (start : Text)
  | disk (directory : List Text)

namespace StoreKind

/-- What the store keeps for itself. -/
def State : StoreKind → Type
  | .memory => MemoryState
  | .shared _ => ServerData
  | .disk _ => DiskState

/-- The store. -/
def store : (k : StoreKind) → CacheStore k.State
  | .memory => memoryStore
  | .shared start => sharedStore start
  | .disk directory => diskStore directory

/-- The store holds a usable record under a key. -/
def Holds : (k : StoreKind) → Surroundings k.State → Text → CacheRecord → Prop
  | .memory, s, key, r => ∃ v, s.state.values.get? key = some v ∧ CacheRecord.ofJson v = .ok r
  | .shared start, s, key, r =>
    ∃ t, s.state.texts.get? (SharedStore.entryKey start key) = some t ∧
      CacheRecord.decode t = .ok r
  | .disk directory, s, key, r =>
    ∃ bytes, s.files.HasFile (DiskStore.entriesPath directory ++ [key ++ DiskStore.suffix]) bytes ∧
      CacheRecord.decode (Text.ofUtf8 bytes) = .ok r

/-- A record comes out of the store as it went in: always where values are kept as they are, and
when its numbers are exact where they are kept as text. -/
def Preserves : StoreKind → CacheRecord → Prop
  | .memory, _ => True
  | .shared _, r => r.IsExact
  | .disk _, r => r.IsExact

/-- The records of the second surroundings are those of the first or new ones. -/
def Adds (k : StoreKind) (new : Text → CacheRecord → Prop) (s t : Surroundings k.State) : Prop :=
  ∀ key r, k.Holds t key r → k.Holds s key r ∨ new key r

variable {k : StoreKind} {new : Text → CacheRecord → Prop}

theorem Adds.refl (s : Surroundings k.State) : k.Adds new s s :=
  fun _ _ h => .inl h

theorem Adds.trans {s t u : Surroundings k.State} (h : k.Adds new s t) (h' : k.Adds new t u) :
    k.Adds new s u := by
  intro key r hholds
  rcases h' key r hholds with hholds | hnew
  · exact h key r hholds
  · exact .inr hnew

/-- Records depend on the files and the state of the store alone. -/
theorem adds_of_eq {s t : Surroundings k.State} (hfiles : t.files = s.files)
    (hstate : t.state = s.state) : k.Adds new s t := by
  intro key r h
  refine .inl ?_
  cases k with
  | memory =>
      obtain ⟨v, hv, hr⟩ := h
      rw [hstate] at hv
      exact ⟨v, hv, hr⟩
  | shared start =>
      obtain ⟨t, ht, hr⟩ := h
      rw [hstate] at ht
      exact ⟨t, ht, hr⟩
  | disk directory =>
      obtain ⟨bytes, hfile, hr⟩ := h
      rw [hfiles] at hfile
      exact ⟨bytes, hfile, hr⟩

theorem adds_disk {directory : List Text} {s t : Surroundings DiskState}
    (files : List Text → List UInt8 → Prop) (h : FileTree.Brings files s.files t.files)
    (hnew : ∀ key bytes r,
      files (DiskStore.entriesPath directory ++ [key ++ DiskStore.suffix]) bytes →
      CacheRecord.decode (Text.ofUtf8 bytes) = .ok r → new key r) :
    (StoreKind.disk directory).Adds new s t := by
  rintro key r ⟨bytes, hfile, hdecode⟩
  rcases h _ _ hfile with hfile | hbrought
  · exact .inl ⟨bytes, hfile, hdecode⟩
  · exact .inr (hnew key bytes r hbrought hdecode)

theorem adds_shared {start : Text} {α : Type} {p : ServerProgram α} (texts : Text → Text → Prop)
    (hp : p.Writes texts) (s : Surroundings ServerData)
    (hnew : ∀ key t r, texts (SharedStore.entryKey start key) t →
      CacheRecord.decode t = .ok r → new key r) :
    (StoreKind.shared start).Adds new s ((SharedStore.perform p).exec s).2 := by
  rintro key r ⟨t, ht, hdecode⟩
  rcases ServerProgram.get?_texts_run hp (d := s.state) ht with ht | hset
  · exact .inl ⟨t, ht, hdecode⟩
  · exact .inr (hnew key t r hset hdecode)

theorem adds_disk_of_brings {directory : List Text} {s t : Surroundings DiskState}
    (h : FileTree.Brings (fun _ _ => False) s.files t.files) :
    (StoreKind.disk directory).Adds new s t :=
  adds_disk _ h fun _ _ _ hfalse => hfalse.elim

theorem adds_shared_of_writes {start : Text} {α : Type} {p : ServerProgram α}
    (hp : p.Writes fun _ _ => False) (s : Surroundings ServerData) :
    (StoreKind.shared start).Adds new s ((SharedStore.perform p).exec s).2 :=
  adds_shared _ hp s fun _ _ _ hfalse => hfalse.elim

theorem adds_memory {s t : Surroundings MemoryState} (values : Text → Json → Prop)
    (h : ∀ key v, t.state.values.get? key = some v →
      s.state.values.get? key = some v ∨ values key v)
    (hnew : ∀ key v r, values key v → CacheRecord.ofJson v = .ok r → new key r) :
    StoreKind.memory.Adds new s t := by
  rintro key r ⟨v, hv, hr⟩
  rcases h key v hv with hv | hset
  · exact .inl ⟨v, hv, hr⟩
  · exact .inr (hnew key v r hset hr)

/-- Fewer values are fewer records. -/
theorem adds_memory_of_imp {s t : Surroundings MemoryState}
    (h : ∀ key v, t.state.values.get? key = some v → s.state.values.get? key = some v) :
    StoreKind.memory.Adds new s t :=
  adds_memory (fun _ _ => False) (fun key v hv => .inl (h key v hv))
    fun _ _ _ hfalse => hfalse.elim

/-! ## What each operation does -/

/-- What a look-up hits is held. -/
theorem holds_of_get {s : Surroundings k.State} {key : Text} {r : CacheRecord}
    (h : ((k.store.get key).exec s).1 = .ok (.hit r)) : k.Holds s key r := by
  cases k with
  | memory => exact MemoryStore.ofJson_of_exec_get h
  | shared start => exact SharedStore.decode_of_exec_lookup start h
  | disk directory => exact DiskStore.decode_of_exec_get h

theorem adds_get (key : Text) (s : Surroundings k.State) :
    k.Adds new s ((k.store.get key).exec s).2 := by
  cases k with
  | memory => exact adds_memory_of_imp fun q v => MemoryStore.values_get
  | shared start =>
      rintro q r ⟨t, ht, hr⟩
      exact .inl ⟨t, SharedStore.texts_lookup start ht, hr⟩
  | disk directory =>
      exact adds_disk_of_brings (DiskStore.moves_get (DiskStore.permits_brings _ _) key s)

/-- What a put adds is its own record. -/
theorem adds_put {key : Text} {r : CacheRecord} (hr : k.Preserves r) (hnew : new key r)
    (s : Surroundings k.State) : k.Adds new s ((k.store.put key r.toJson).exec s).2 := by
  cases k with
  | memory =>
      apply adds_memory fun q v => q = key ∧ v = r.toJson
      · exact fun q v => MemoryStore.values_put
      · rintro q v found ⟨rfl, rfl⟩ hfound
        rwa [CacheRecord.eq_of_ofJson_toJson hfound]
  | shared start =>
      apply adds_shared (fun q t => q = SharedStore.entryKey start key ∧ t = r.toJson.render)
        (SharedStore.writes_put start key r.toJson s.now ⟨rfl, rfl⟩)
      rintro q t found ⟨hq, rfl⟩ hfound
      rw [CacheRecord.decode_render hr] at hfound
      rwa [List.append_cancel_left hq, CacheRecord.eq_of_ofJson_toJson hfound]
  | disk directory =>
      apply adds_disk (fun path bytes =>
        path = DiskStore.entriesPath directory ++ [key ++ DiskStore.suffix] ∧
          bytes = Text.toUtf8 r.toJson.render)
        (DiskStore.moves_put (DiskStore.permits_brings directory _) key r.toJson
          (fun h => FileTree.brings_write (by simp) h ⟨rfl, rfl⟩) s)
      rintro q bytes found ⟨hq, rfl⟩ hfound
      rw [CacheRecord.decode_ofUtf8_toUtf8_render hr] at hfound
      have hkey : q = key := by simpa using hq
      rwa [hkey, CacheRecord.eq_of_ofJson_toJson hfound]

theorem adds_recordSeen (path key : Text) (s : Surroundings k.State) :
    k.Adds new s ((k.store.recordSeen path key).exec s).2 := by
  cases k with
  | memory => exact adds_memory_of_imp fun q v h => h
  | shared start =>
      exact adds_shared_of_writes (SharedStore.writes_recordSeen start path key s.now) s
  | disk directory =>
      exact adds_disk_of_brings
        (DiskStore.moves_recordSeen (DiskStore.permits_brings _ _) path key s)

theorem adds_invalidate (path : Text) (s : Surroundings k.State) :
    k.Adds new s ((k.store.invalidate path).exec s).2 := by
  cases k with
  | memory => exact adds_memory_of_imp fun q v => MemoryStore.values_invalidate
  | shared start => exact adds_shared_of_writes (SharedStore.writes_invalidate start path) s
  | disk directory =>
      exact adds_disk_of_brings (DiskStore.moves_invalidate (DiskStore.permits_brings _ _) path s)

theorem adds_prune (options : PruneOptions) (s : Surroundings k.State) :
    k.Adds new s ((k.store.prune options).exec s).2 := by
  cases k with
  | memory => exact adds_memory_of_imp fun q v => MemoryStore.values_prune
  | shared start => exact adds_shared_of_writes (SharedStore.writes_prune start options s.now) s
  | disk directory =>
      exact adds_disk_of_brings (DiskStore.moves_prune (DiskStore.permits_brings _ _) options s)

theorem adds_flush (s : Surroundings k.State) : k.Adds new s ((k.store.flush).exec s).2 := by
  cases k with
  | memory => exact Adds.refl (k := .memory) s
  | shared start => exact Adds.refl (k := .shared start) s
  | disk directory =>
      apply adds_disk (fun path _ => path = DiskStore.indexPath directory)
        (DiskStore.moves_flush (DiskStore.permits_brings directory _)
          (fun h => FileTree.brings_write (by simp [DiskStore.indexPath]) h rfl) s)
      intro key bytes r hpath
      -- The index stands beside the directory of the records, not in it.
      have hlength := congrArg List.length hpath
      simp [DiskStore.entriesPath, DiskStore.indexPath] at hlength

theorem adds_clear (s : Surroundings k.State) : k.Adds new s ((k.store.clear).exec s).2 := by
  cases k with
  | memory => exact adds_memory_of_imp fun q v h => by cases h
  | shared start => exact adds_shared_of_writes (SharedStore.writes_clear start) s
  | disk directory =>
      exact adds_disk_of_brings (DiskStore.moves_clear (DiskStore.permits_brings _ _) s)

end StoreKind

end CloneScan
