import CloneScan.Proofs.StoreEquivalence

/-!
# Clients that share a server

Several clients use the shared store at once: their operations are sequences of commands, and the
server runs the commands of different operations in any order.  Between the command that deletes a
record and the one that drops its time, another client may put the record again; the time that it
notes is then dropped, and the record stays without one.  A put that notes the time of its record
while no other operation is about to drop it is safe, and when every put of a key is, then no record
of the key is left without its time once all operations are done.
-/

namespace CloneScan

namespace SharedStore

/-! ## Traffic -/

def program (start : Text) (now : Number) : StoreCall → ServerProgram StoreAnswer
  | .get key => .found <$> get start key
  | .put key value => (fun _ => .done) <$> put start key value now
  | .invalidate path => (fun _ => .done) <$> invalidate start path
  | .recordSeen path key => (fun _ => .done) <$> recordSeen start path key now
  | .prune options => .removed <$> prune start options now
  | .flush => pure .done
  | .clear => (fun _ => .done) <$> clear start

/-- A call under way, with the commands that are left of it. -/
structure Operation where
  call : StoreCall
  rest : ServerProgram StoreAnswer

/-- The data of a server and the operations under way. -/
structure Traffic where
  data : ServerData
  running : List Operation

/-- What happens next: a client makes a call, or an operation goes on. -/
inductive Action where
  | begin (now : Number) (call : StoreCall)
  | advance (i : Nat)

namespace Traffic

def empty : Traffic := ⟨.empty, []⟩

/-- An operation that goes on sends its next command, or ends when none is left. -/
def act (start : Text) (t : Traffic) : Action → Traffic
  | .begin now call => { t with running := t.running ++ [⟨call, program start now call⟩] }
  | .advance i =>
    match t.running[i]? with
    | none => t
    | some ⟨_, .done _⟩ => { t with running := t.running.eraseIdx i }
    | some ⟨call, .send c next⟩ =>
      { data := (c.run t.data).2
        running := t.running.set i ⟨call, next (c.run t.data).1⟩ }

def after (start : Text) (t : Traffic) : List Action → Traffic
  | [] => t
  | a :: rest => after start (t.act start a) rest

end Traffic

end SharedStore

/-! ## Commands that concern a record -/

namespace SharedStore

def hasRecord (start key : Text) (d : ServerData) : Bool :=
  (d.texts.get? (entryKey start key)).isSome

def hasTime (start key : Text) (d : ServerData) : Bool :=
  ((d.fields (seenKey start)).get? key).isSome

end SharedStore

namespace ServerCommand

open SharedStore

/-- The command notes the time of a record. -/
def notes (start key : Text) : ServerCommand → Bool
  | .hashSet hash field _ => hash == seenKey start && field == key
  | _ => false

/-- The command drops the time of a record and leaves the record. -/
def strands (start key : Text) : ServerCommand → Bool
  | .hashDelete hash fields => hash == seenKey start && fields.contains key
  | .delete keys => keys.contains (seenKey start) && !keys.contains (entryKey start key)
  | _ => false

def removes (start key : Text) : ServerCommand → Bool
  | .delete keys => keys.contains (entryKey start key)
  | _ => false

/-- The command writes a record. -/
def Wrote (start key : Text) : (c : ServerCommand) → c.Reply → Prop
  | .setIfAbsent entry _, reply => entry = entryKey start key ∧ reply = true
  | _, _ => False

/-- The command reads all times and finds none of a record. -/
def Lacks (start key : Text) : (c : ServerCommand) → c.Reply → Prop
  | .hashAll hash, reply => hash = seenKey start ∧ TextMap.get? reply key = none
  | _, _ => False

variable {start key : Text} {c : ServerCommand} {d : ServerData}

/-- A record that is stored after a command was written by it, or was stored before and not
deleted. -/
theorem wrote_or_kept (h : hasRecord start key (c.run d).2 = true) :
    c.Wrote start key (c.run d).1 ∨
      hasRecord start key d = true ∧ c.removes start key = false := by
  unfold hasRecord at h ⊢
  cases c with
  | setIfAbsent entry value =>
      by_cases hentry : entryKey start key = entry
      · subst hentry
        simp only [ServerCommand.run, TextMap.has_eq_isSome] at h ⊢
        cases hfound : (d.texts.get? (entryKey start key)).isSome with
        | true => exact .inr ⟨rfl, rfl⟩
        | false => exact .inl ⟨rfl, by simp⟩
      · right
        refine ⟨?_, rfl⟩
        simp only [ServerCommand.run] at h
        split at h
        · exact h
        · simpa [TextMap.get?_set, hentry] using h
  | delete keys =>
      rw [texts_delete] at h
      split at h
      case isTrue => cases h
      case isFalse hkeys => exact .inr ⟨h, by simpa [removes] using hkeys⟩
  | _ => exact .inr ⟨h, rfl⟩

/-- The time of a record that stays stored stays known, unless the command strands the record. -/
theorem hasTime_run (htime : hasTime start key d = true) (hstrands : c.strands start key = false)
    (hrecord : hasRecord start key (c.run d).2 = true) : hasTime start key (c.run d).2 = true := by
  unfold hasTime at htime ⊢
  cases c with
  | setIfAbsent entry value =>
      simp only [ServerCommand.run]
      split <;> exact htime
  | delete keys =>
      have hkept : entryKey start key ∉ keys := by
        intro hkeys
        rw [hasRecord, texts_delete, if_pos hkeys] at hrecord
        cases hrecord
      have hhash : seenKey start ∉ keys := by simpa [strands, hkept] using hstrands
      rw [fields_delete, if_neg hhash]
      exact htime
  | hashSet hash field value =>
      rw [fields_hashSet]
      split
      case isTrue h =>
          subst h
          rw [TextMap.get?_set]
          split
          · rfl
          · exact htime
      case isFalse => exact htime
  | hashDelete hash gone =>
      rw [fields_hashDelete]
      split
      case isTrue h =>
          subst h
          have hkept : key ∉ gone := by simpa [strands] using hstrands
          have hfilter := TextMap.get?_filter_key (d.fields (seenKey start))
            (fun k => !gone.contains k) key
          rw [if_pos (by simpa using hkept)] at hfilter
          rw [hfilter]
          exact htime
      case isFalse => exact htime
  | get _ => exact htime
  | hashGet _ _ => exact htime
  | hashAll _ => exact htime

theorem hasTime_of_notes (hnotes : c.notes start key = true) :
    hasTime start key (c.run d).2 = true := by
  cases c with
  | hashSet hash field value =>
      obtain ⟨rfl, rfl⟩ : hash = seenKey start ∧ field = key := by simpa [notes] using hnotes
      rw [hasTime, fields_hashSet, if_pos rfl, TextMap.get?_set, if_pos (by simp)]
      rfl
  | _ => cases hnotes

theorem not_lacks_of_notes (hnotes : c.notes start key = true) (reply : c.Reply) :
    ¬ c.Lacks start key reply := by
  cases c with
  | hashAll hash => cases hnotes
  | _ => exact id

theorem not_lacks_run (htime : hasTime start key d = true) : ¬ c.Lacks start key (c.run d).1 := by
  cases c with
  | hashAll hash =>
      rintro ⟨rfl, hnone⟩
      have hnone : (d.fields (seenKey start)).get? key = none := hnone
      rw [hasTime, hnone] at htime
      cases htime
  | _ => exact id

end ServerCommand

/-! ## Programs that concern a record -/

namespace ServerProgram

variable {α : Type} (start key : Text)

def willNote : ServerProgram α → Bool
  | .done _ => false
  | .send c _ => c.notes start key

/-- The next command drops the time of a record and leaves the record. -/
def willStrand : ServerProgram α → Bool
  | .done _ => false
  | .send c _ => c.strands start key

/-- Who writes the record is a put of it and notes its time next, and nobody comes to strand the
record but after deleting it or after finding no time of it. -/
def IsOrderly (puts : Bool) : ServerProgram α → Prop
  | .done _ => True
  | .send c next => ∀ reply,
    (c.Wrote start key reply → puts = true ∧ (next reply).willNote start key = true) ∧
      ((next reply).willStrand start key = true →
        c.removes start key = true ∨ c.Lacks start key reply) ∧
      IsOrderly puts (next reply)

end ServerProgram

def StoreCall.puts (key : Text) : StoreCall → Bool
  | .put k _ => k == key
  | _ => false

namespace SharedStore

open ServerProgram

variable (start key : Text) (now : Number)

theorem program_get (k : Text) :
    program start now (.get k) = .send (.get (entryKey start k)) fun found =>
      match found with
      | none => .done (.found .miss)
      | some text =>
        match CacheRecord.decode text with
        | .ok record => .done (.found (.hit record))
        | .error fault =>
          .send (.delete [entryKey start k]) fun _ =>
            .done (.found (.corrupt (.record fault))) := by
  refine congrArg (ServerProgram.send _) (funext fun found => ?_)
  cases found with
  | none => rfl
  | some text =>
      simp only [andThen]
      cases CacheRecord.decode text <;> rfl

theorem program_put (k : Text) (value : Json) :
    program start now (.put k value) =
      .send (.setIfAbsent (entryKey start k) value.render) fun written =>
        if written then .send (.hashSet (seenKey start) k now.text) fun _ => .done .done
        else .done .done := by
  refine congrArg (ServerProgram.send _) (funext fun written => ?_)
  cases written <;> rfl

theorem program_invalidate (path : Text) :
    program start now (.invalidate path) = .send (.hashGet (pathsKey start) path) fun found =>
      match found with
      | none => .done .done
      | some k => .send (.hashDelete (pathsKey start) [path]) fun _ =>
          .send (.hashAll (pathsKey start)) fun paths =>
            if paths.any fun e => e.2 == k then .done .done
            else .send (.delete [entryKey start k]) fun _ =>
              .send (.hashDelete (seenKey start) [k]) fun _ => .done .done := by
  refine congrArg (ServerProgram.send _) (funext fun found => ?_)
  cases found with
  | none => rfl
  | some k =>
      refine congrArg (ServerProgram.send _) (funext fun _ => ?_)
      refine congrArg (ServerProgram.send _) (funext fun paths => ?_)
      simp only [andThen]
      cases paths.any fun e => e.2 == k <;> rfl

theorem program_prune (options : PruneOptions) :
    program start now (.prune options) = .send (.hashAll (seenKey start)) fun seen =>
      let dead := (seen.filter (isDead options now)).map (·.1)
      if dead.isEmpty then .done (.removed 0)
      else .send (.hashAll (pathsKey start)) fun paths =>
        .send (.delete (dead.map (entryKey start))) fun removed =>
          .send (.hashDelete (seenKey start) dead) fun _ =>
            .send (.hashDelete (pathsKey start)
                ((paths.filter fun e => dead.contains e.2).map (·.1))) fun _ =>
              .done (.removed removed) := by
  refine congrArg (ServerProgram.send _) (funext fun seen => ?_)
  simp only [andThen]
  cases ((seen.filter (isDead options now)).map (·.1)).isEmpty <;> rfl

theorem program_recordSeen (path k : Text) :
    program start now (.recordSeen path k) =
      .send (.hashSet (pathsKey start) path k) fun _ =>
        .send (.hashSet (seenKey start) k now.text) fun _ => .done .done := rfl

theorem program_clear :
    program start now .clear = .send (.hashAll (seenKey start)) fun seen =>
      .send (.delete (seen.keys.map (entryKey start) ++ [pathsKey start, seenKey start]))
        fun _ => .done .done := rfl

theorem not_strands_delete_entries (keys : List Text) :
    (ServerCommand.delete (keys.map (entryKey start))).strands start key = false := by
  have hseen : seenKey start ∉ keys.map (entryKey start) := by
    intro h
    obtain ⟨k, -, hk⟩ := List.mem_map.mp h
    exact entryKey_ne_seenKey start k hk
  simp [ServerCommand.strands, hseen]

theorem not_strands_delete_entry (k : Text) :
    (ServerCommand.delete [entryKey start k]).strands start key = false :=
  not_strands_delete_entries start key [k]

/-- No call starts by stranding a record. -/
theorem willStrand_program (call : StoreCall) :
    (program start now call).willStrand start key = false := by
  cases call with
  | get k => rw [program_get]; rfl
  | put k value => rw [program_put]; rfl
  | invalidate path => rw [program_invalidate]; rfl
  | prune options => rw [program_prune]; rfl
  | _ => rfl

theorem isOrderly_get (k : Text) :
    (program start now (.get k)).IsOrderly start key (StoreCall.puts key (.get k)) := by
  rw [program_get]
  intro found
  refine ⟨nofun, ?_⟩
  cases found with
  | none => exact ⟨nofun, trivial⟩
  | some text =>
      dsimp only
      cases CacheRecord.decode text with
      | ok record => exact ⟨nofun, trivial⟩
      | error fault =>
          refine ⟨fun h => ?_, fun _ => ⟨nofun, nofun, trivial⟩⟩
          rw [willStrand, not_strands_delete_entry] at h
          cases h

theorem isOrderly_put (k : Text) (value : Json) :
    (program start now (.put k value)).IsOrderly start key (StoreCall.puts key (.put k value)) := by
  rw [program_put]
  intro written
  cases written with
  | false => exact ⟨fun h => absurd h.2 nofun, nofun, trivial⟩
  | true =>
      refine ⟨fun h => ?_, nofun, fun _ => ⟨nofun, nofun, trivial⟩⟩
      obtain rfl := entryKey_inj.mp h.1
      simp [StoreCall.puts, willNote, ServerCommand.notes]

theorem isOrderly_invalidate (path : Text) :
    (program start now (.invalidate path)).IsOrderly start key
      (StoreCall.puts key (.invalidate path)) := by
  rw [program_invalidate]
  intro found
  refine ⟨nofun, ?_⟩
  cases found with
  | none => exact ⟨nofun, trivial⟩
  | some k =>
      refine ⟨fun h => ?_, fun _ => ⟨nofun, nofun, fun paths => ⟨nofun, ?_⟩⟩⟩
      · simp [willStrand, ServerCommand.strands, pathsKey_ne_seenKey] at h
      dsimp only
      split
      · exact ⟨nofun, trivial⟩
      · refine ⟨fun h => ?_, fun _ => ⟨nofun, fun h => .inl ?_,
          fun _ => ⟨nofun, nofun, trivial⟩⟩⟩
        · rw [willStrand, not_strands_delete_entry] at h
          cases h
        · -- only the record that was deleted loses its time
          obtain rfl : key = k := by simpa [willStrand, ServerCommand.strands] using h
          simp [ServerCommand.removes]

theorem isOrderly_prune (options : PruneOptions) :
    (program start now (.prune options)).IsOrderly start key
      (StoreCall.puts key (.prune options)) := by
  rw [program_prune]
  intro seen
  refine ⟨nofun, ?_⟩
  dsimp only
  split
  · exact ⟨nofun, trivial⟩
  · refine ⟨nofun, fun paths => ⟨nofun, fun h => ?_, fun removed => ⟨nofun, fun h => .inl ?_,
      fun _ => ⟨nofun, fun h => ?_, fun _ => ⟨nofun, nofun, trivial⟩⟩⟩⟩⟩
    · rw [willStrand, not_strands_delete_entries] at h
      cases h
    · -- the times that are dropped are those of the deleted records
      simp only [willStrand, ServerCommand.strands, beq_self_eq_true, Bool.true_and,
        List.contains_eq_mem, decide_eq_true_eq] at h
      simpa [ServerCommand.removes, entryKey_inj] using h
    · simp [willStrand, ServerCommand.strands, pathsKey_ne_seenKey] at h

theorem isOrderly_clear :
    (program start now .clear).IsOrderly start key (StoreCall.puts key .clear) := by
  rw [program_clear]
  intro seen
  refine ⟨nofun, fun h => .inr ⟨rfl, ?_⟩, fun _ => ⟨nofun, nofun, trivial⟩⟩
  -- the records of all the times that were read are deleted with the times
  have hkey : key ∉ seen.keys := by
    intro hkey
    simp [willStrand, ServerCommand.strands, hkey, entryKey_inj] at h
  rw [TextMap.mem_keys_iff, Option.not_isSome_iff_eq_none] at hkey
  exact hkey

theorem isOrderly_program (call : StoreCall) :
    (program start now call).IsOrderly start key (call.puts key) := by
  cases call with
  | get k => exact isOrderly_get start key now k
  | put k value => exact isOrderly_put start key now k value
  | invalidate path => exact isOrderly_invalidate start key now path
  | recordSeen path k =>
      rw [program_recordSeen]
      exact fun _ => ⟨nofun, nofun, fun _ => ⟨nofun, nofun, trivial⟩⟩
  | prune options => exact isOrderly_prune start key now options
  | flush => trivial
  | clear => exact isOrderly_clear start key now

/-! ## Traffic that keeps the times of records -/

namespace Traffic

/-- A put notes the time of its record while another operation is about to strand the record. -/
def collides (start key : Text) (t : Traffic) : Action → Bool
  | .begin .. => false
  | .advance i =>
    match t.running[i]? with
    | none => false
    | some op =>
      op.call.puts key && op.rest.willNote start key && hasRecord start key t.data &&
        t.running.any fun other => other.rest.willStrand start key

def spares (start key : Text) (t : Traffic) : List Action → Bool
  | [] => true
  | a :: rest => !t.collides start key a && spares start key (t.act start a) rest

/-- A put of the key is about to note the time of its record. -/
def IsAwaited (start key : Text) (t : Traffic) : Prop :=
  ∃ op ∈ t.running, op.call.puts key = true ∧ op.rest.willNote start key = true

/-- Operations are orderly, and a stored record awaits its time, or has it and is in no danger. -/
structure IsKept (start key : Text) (t : Traffic) : Prop where
  orderly : ∀ op ∈ t.running, op.rest.IsOrderly start key (op.call.puts key)
  noted : hasRecord start key t.data = true → t.IsAwaited start key ∨
    hasTime start key t.data = true ∧ ∀ op ∈ t.running, op.rest.willStrand start key = false

variable {start key : Text} {t : Traffic}

theorem isKept_empty (start key : Text) : IsKept start key .empty :=
  ⟨nofun, nofun⟩

theorem IsKept.begin (h : t.IsKept start key) (now : Number) (call : StoreCall) :
    (t.act start (.begin now call)).IsKept start key := by
  refine ⟨?_, fun hrecord => ?_⟩
  · intro op hop
    rcases List.mem_append.mp hop with hop | hop
    · exact h.orderly op hop
    · rw [List.mem_singleton.mp hop]
      exact isOrderly_program start key now call
  · rcases h.noted hrecord with ⟨op, hop, hawaited⟩ | ⟨htime, hsafe⟩
    · exact .inl ⟨op, List.mem_append_left _ hop, hawaited⟩
    · refine .inr ⟨htime, fun op hop => ?_⟩
      rcases List.mem_append.mp hop with hop | hop
      · exact hsafe op hop
      · rw [List.mem_singleton.mp hop]
        exact willStrand_program start key now call

theorem IsKept.finish (h : t.IsKept start key) {i : Nat} {call : StoreCall} {answer : StoreAnswer}
    (hi : t.running[i]? = some ⟨call, .done answer⟩) :
    IsKept start key { t with running := t.running.eraseIdx i } := by
  refine ⟨fun op hop => h.orderly op (List.mem_of_mem_eraseIdx hop), fun hrecord => ?_⟩
  rcases h.noted hrecord with ⟨op, hop, hputs, hnotes⟩ | ⟨htime, hsafe⟩
  · -- the operation that ends awaits nothing
    refine .inl ⟨op, ?_, hputs, hnotes⟩
    obtain ⟨j, hj⟩ := List.mem_iff_getElem?.mp hop
    refine List.mem_eraseIdx_iff_getElem?.mpr ⟨j, ?_, hj⟩
    rintro rfl
    rw [hi] at hj
    cases hj
    cases hnotes
  · exact .inr ⟨htime, fun op hop => hsafe op (List.mem_of_mem_eraseIdx hop)⟩

theorem IsKept.send (h : t.IsKept start key) {i : Nat} {call : StoreCall} {c : ServerCommand}
    {next : c.Reply → ServerProgram StoreAnswer} (hi : t.running[i]? = some ⟨call, .send c next⟩)
    (hspared : t.collides start key (.advance i) = false) :
    IsKept start key
      { data := (c.run t.data).2
        running := t.running.set i ⟨call, next (c.run t.data).1⟩ } := by
  have hmem : (⟨call, .send c next⟩ : Operation) ∈ t.running := List.mem_of_getElem? hi
  have hlt : i < t.running.length := (List.getElem?_eq_some_iff.mp hi).1
  obtain ⟨hwrote, hstrand, hrest⟩ := h.orderly _ hmem (c.run t.data).1
  refine ⟨fun op hop => ?_, fun hrecord => ?_⟩
  · rcases List.mem_or_eq_of_mem_set hop with hop | rfl
    · exact h.orderly op hop
    · exact hrest
  rcases c.wrote_or_kept hrecord with hwritten | ⟨hstored, hkept⟩
  · obtain ⟨hputs, hnotes⟩ := hwrote hwritten
    exact .inl ⟨_, List.mem_set hlt _, hputs, hnotes⟩
  have hsafe (hothers : ∀ op ∈ t.running, op.rest.willStrand start key = false)
      (hlacks : ¬ c.Lacks start key (c.run t.data).1) :
      ∀ op ∈ t.running.set i ⟨call, next (c.run t.data).1⟩,
        op.rest.willStrand start key = false := by
    intro op hop
    rcases List.mem_or_eq_of_mem_set hop with hop | rfl
    · exact hothers op hop
    · by_contra hnext
      rcases hstrand (Bool.not_eq_false _ ▸ hnext) with hremoves | hlacked
      · rw [hkept] at hremoves
        cases hremoves
      · exact hlacks hlacked
  rcases h.noted hstored with ⟨op, hop, hputs, hnotes⟩ | ⟨htime, hothers⟩
  · obtain ⟨j, hj⟩ := List.mem_iff_getElem?.mp hop
    by_cases hij : i = j
    · -- the put that was awaited notes the time, and it does not collide
      subst hij
      obtain rfl : (⟨call, .send c next⟩ : Operation) = op := Option.some.inj (hi.symm.trans hj)
      have hothers : ∀ op ∈ t.running, op.rest.willStrand start key = false := by
        simpa [collides, hi, hputs, hnotes, hstored] using hspared
      exact .inr ⟨c.hasTime_of_notes hnotes, hsafe hothers (c.not_lacks_of_notes hnotes _)⟩
    · refine .inl ⟨op, List.mem_of_getElem? (i := j) ?_, hputs, hnotes⟩
      rw [List.getElem?_set_ne hij, hj]
  · exact .inr ⟨c.hasTime_run htime (hothers _ hmem) hrecord,
      hsafe hothers (c.not_lacks_run htime)⟩

theorem IsKept.act (h : t.IsKept start key) {a : Action}
    (hspared : t.collides start key a = false) : (t.act start a).IsKept start key := by
  cases a with
  | begin now call => exact h.begin now call
  | advance i =>
      rw [Traffic.act]
      split
      case h_1 => exact h
      case h_2 hi => exact h.finish hi
      case h_3 hi => exact h.send hi hspared

theorem IsKept.after (h : t.IsKept start key) {schedule : List Action}
    (hspared : t.spares start key schedule = true) :
    (t.after start schedule).IsKept start key := by
  induction schedule generalizing t with
  | nil => exact h
  | cons a schedule ih =>
      simp only [spares, Bool.and_eq_true, Bool.not_eq_true'] at hspared
      exact ih (h.act hspared.1) hspared.2

end Traffic

/-- A clear that runs alone deletes every record whose time is known. -/
theorem hasRecord_clear {start key : Text} {d : ServerData}
    (h : hasRecord start key d = true → hasTime start key d = true) :
    hasRecord start key ((clear start).run d).2 = false := by
  rw [run_clear, hasRecord, ServerCommand.texts_delete]
  split
  case isTrue => rfl
  case isFalse hkeys =>
      rw [← hasRecord, ← Bool.not_eq_true]
      intro hrecord
      apply hkeys
      have htime := h hrecord
      rw [hasTime, ← TextMap.mem_keys_iff] at htime
      exact List.mem_append_left _ (List.mem_map_of_mem htime)

/-- In every schedule from a new server in which no put of a key notes the time of its record while
another operation is about to strand the record, the record of the key has a time when no operation
is under way, and a clear that runs alone from there deletes it. -/
theorem hasTime_of_spares {start key : Text} {schedule : List Action}
    (hspared : Traffic.empty.spares start key schedule = true)
    (hquiet : (Traffic.empty.after start schedule).running = []) :
    let d := (Traffic.empty.after start schedule).data
    (hasRecord start key d = true → hasTime start key d = true) ∧
      hasRecord start key ((clear start).run d).2 = false := by
  have hkept := (Traffic.isKept_empty start key).after hspared
  have htime : hasRecord start key (Traffic.empty.after start schedule).data = true →
      hasTime start key (Traffic.empty.after start schedule).data = true := by
    intro hrecord
    rcases hkept.noted hrecord with ⟨op, hop, -⟩ | ⟨htime, -⟩
    · rw [hquiet] at hop
      cases hop
    · exact htime
  exact ⟨htime, hasRecord_clear htime⟩

/-- A record is put and seen under a path; then one client forgets the path and has deleted the
record, but not yet its time, when another client puts the record again. -/
def overlap : List Action :=
  [.begin (clock 1) (.put (Text.ofString "k") blankRecord.toJson), .advance 0, .advance 0,
    .advance 0, .begin (clock 2) (.recordSeen (Text.ofString "p") (Text.ofString "k")), .advance 0,
    .advance 0, .advance 0, .begin (clock 3) (.invalidate (Text.ofString "p")), .advance 0,
    .advance 0, .advance 0, .advance 0,
    .begin (clock 4) (.put (Text.ofString "k") blankRecord.toJson), .advance 1]

/-- The old time is dropped before the new one is noted. -/
def dropFirst : List Action :=
  overlap ++ [.advance 0, .advance 1, .advance 0, .advance 0]

theorem hasTime_dropFirst :
    hasRecord [] (Text.ofString "k") (Traffic.empty.after [] dropFirst).data = true ∧
      hasTime [] (Text.ofString "k") (Traffic.empty.after [] dropFirst).data = true := by
  have hrecord : hasRecord [] (Text.ofString "k") (Traffic.empty.after [] dropFirst).data = true :=
    by decide +kernel
  have hspared : Traffic.empty.spares [] (Text.ofString "k") dropFirst = true := by decide +kernel
  have hquiet : (Traffic.empty.after [] dropFirst).running = [] :=
    List.isEmpty_iff.mp (by decide +kernel)
  exact ⟨hrecord, (hasTime_of_spares hspared hquiet).1 hrecord⟩

/-- The new time is noted before the old one is dropped. -/
def noteFirst : List Action :=
  overlap ++ [.advance 1, .advance 1, .advance 0, .advance 0]

/-- The record is left without a time, and a clear does not delete it. -/
theorem not_hasTime_noteFirst :
    (Traffic.empty.after [] noteFirst).running = [] ∧
      hasRecord [] (Text.ofString "k") (Traffic.empty.after [] noteFirst).data = true ∧
      hasTime [] (Text.ofString "k") (Traffic.empty.after [] noteFirst).data = false ∧
      hasRecord [] (Text.ofString "k")
        ((clear []).run (Traffic.empty.after [] noteFirst).data).2 = true := by
  refine ⟨List.isEmpty_iff.mp ?_, ?_, ?_, ?_⟩ <;> decide +kernel

end SharedStore

end CloneScan
