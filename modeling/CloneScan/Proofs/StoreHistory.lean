import CloneScan.Proofs.CachedFile
import CloneScan.Proofs.StoreRecords
import Mathlib.Logic.Relation

/-!
# A store in use

Scans share a store with one another and with its upkeep.  Their files make their calls in any
order, a call may fail after any part of its work, and scans may stop halfway.  Still every record
that the store holds is genuine, and every file that comes to its end has the outcome that it would
have with nothing stored.
-/

namespace CloneScan

open Relation

/-! ## Calls and upkeep -/

namespace StoreKind

variable {k : StoreKind} {α : Type} {new : Text → CacheRecord → Prop}

/-- What a call can come to: its own answer, or a fault after any part of its work. -/
inductive Performs (op : StoreM k.State α) (s : Surroundings k.State) :
    Except StoreFault α → Surroundings k.State → Prop where
  | whole : Performs op s (op.exec s).1 (op.exec s).2
  | torn (fault : StoreFault) (t : Surroundings k.State)
      (hpart : ∀ key r, k.Holds t key r → k.Holds s key r ∨ k.Holds (op.exec s).2 key r) :
      Performs op s (.error fault) t

theorem Performs.adds {op : StoreM k.State α} {s t : Surroundings k.State}
    {reply : Except StoreFault α} (h : Performs op s reply t)
    (hop : k.Adds new s (op.exec s).2) : k.Adds new s t := by
  cases h with
  | whole => exact hop
  | torn fault t hpart =>
      intro key r hholds
      rcases hpart key r hholds with hholds | hholds
      · exact .inl hholds
      · exact hop key r hholds

/-- A call adds no record but the one that it puts. -/
theorem adds_perform {c : FileCall} (hput : ∀ key r, c = .put key r → k.Preserves r ∧ new key r)
    (s : Surroundings k.State) : k.Adds new s ((c.perform k.store).exec s).2 := by
  cases c with
  | get key => exact adds_get key s
  | put key r =>
      obtain ⟨hr, hnew⟩ := hput key r rfl
      exact adds_put hr hnew s
  | recordSeen path key => exact adds_recordSeen path key s

end StoreKind

/-- What is done to a store besides the calls of files. -/
inductive Upkeep where
  | invalidate (path : Text)
  | prune (options : PruneOptions)
  | flush
  | clear

namespace Upkeep

/-- Does it. -/
def perform {σ : Type} (store : CacheStore σ) : Upkeep → StoreM σ Unit
  | .invalidate path => store.invalidate path
  | .prune options => do
    let _ ← store.prune options
  | .flush => store.flush
  | .clear => store.clear

theorem exec_prune {σ : Type} (store : CacheStore σ) (options : PruneOptions)
    (s : Surroundings σ) :
    ((store.prune options).exec s).2 = (((Upkeep.prune options).perform store).exec s).2 := by
  unfold perform
  rw [StoreM.exec_bind]
  rcases (store.prune options).exec s with ⟨fault | count, t⟩ <;> rfl

variable {k : StoreKind} {new : Text → CacheRecord → Prop}

/-- No upkeep adds a record. -/
theorem adds_perform (u : Upkeep) (s : Surroundings k.State) :
    k.Adds new s ((u.perform k.store).exec s).2 := by
  cases u with
  | invalidate path => exact StoreKind.adds_invalidate path s
  | prune options =>
      rw [← exec_prune]
      exact StoreKind.adds_prune options s
  | flush => exact StoreKind.adds_flush s
  | clear => exact StoreKind.adds_clear s

end Upkeep

namespace StoreKind

variable {k : StoreKind}

/-- No operation of the store spoils what is known of the files and the time. -/
structure Keeps (k : StoreKind) (P : FileTree → Number → Prop) : Prop where
  call : ∀ (c : FileCall) (s : Surroundings k.State), P s.files s.now →
    P ((c.perform k.store).exec s).2.files ((c.perform k.store).exec s).2.now
  upkeep : ∀ (u : Upkeep) (s : Surroundings k.State), P s.files s.now →
    P ((u.perform k.store).exec s).2.files ((u.perform k.store).exec s).2.now

theorem keeps_of_beside {P : FileTree → Number → Prop}
    (hcall : ∀ (c : FileCall) (s : Surroundings k.State),
      s.Beside ((c.perform k.store).exec s).2)
    (hupkeep : ∀ (u : Upkeep) (s : Surroundings k.State),
      s.Beside ((u.perform k.store).exec s).2) : k.Keeps P := by
  constructor
  · intro c s hs
    rw [(hcall c s).files, (hcall c s).now]
    exact hs
  · intro u s hs
    rw [(hupkeep u s).files, (hupkeep u s).now]
    exact hs

/-- The store in memory has nothing to do with files. -/
theorem keeps_memory (P : FileTree → Number → Prop) : StoreKind.memory.Keeps P := by
  apply keeps_of_beside
  · intro c s
    cases c with
    | get key => exact MemoryStore.beside_get key s
    | put key r => exact MemoryStore.beside_put key r.toJson s
    | recordSeen path key => exact ⟨rfl, rfl⟩
  · intro u s
    cases u with
    | invalidate path => exact MemoryStore.beside_invalidate path s
    | prune options => exact ⟨rfl, rfl⟩
    | flush => exact ⟨rfl, rfl⟩
    | clear => exact ⟨rfl, rfl⟩

/-- Nor has the store on a server. -/
theorem keeps_shared (start : Text) (P : FileTree → Number → Prop) :
    (StoreKind.shared start).Keeps P := by
  apply keeps_of_beside
  · intro c s
    cases c with
    | get key => exact SharedStore.beside_lookup start key s
    | put key r => exact ⟨rfl, rfl⟩
    | recordSeen path key => exact ⟨rfl, rfl⟩
  · intro u s
    cases u with
    | invalidate path => exact ⟨rfl, rfl⟩
    | prune options => exact ⟨rfl, rfl⟩
    | flush => exact ⟨rfl, rfl⟩
    | clear => exact ⟨rfl, rfl⟩

end StoreKind

/-! ## A store in use -/

/-- What a scan read for one of its inputs, and when. -/
structure Reading where
  job : ScanJob
  input : ScanInput
  content : Except FileFault (List UInt8)
  now : Number

namespace Reading

/-- The whole way of the file. -/
def task (r : Reading) : FileTask :=
  FileTask.start r.job.config r.job.tokenizer (ScanJob.millis r.now) r.input r.content

/-- The record that the file puts when it has to be tokenized. -/
def record (r : Reading) (language : Language) (bytes : List UInt8) (tokens : List Token) :
    CacheRecord :=
  let params :=
    (FileTask.subject r.job.config (ScanJob.millis r.now) r.input.path language bytes).params
  ⟨params, tokens, FileTask.hashesOf params tokens, ScanJob.millis r.now⟩

/-- The numbers that a record of the reading would hold are binary64 values, as clocks, settings and
places in a text are; a count below `2 ^ 53` always is one. -/
structure HasExactNumbers (r : Reading) : Prop where
  time : Number.IsExact (ScanJob.millis r.now)
  window : ∀ language, Language.ofTag? r.input.language = some language →
    Number.IsExact (r.job.config.thresholds language).tokens
  tokens : ∀ language bytes tokens, Language.ofTag? r.input.language = some language →
    r.content = .ok bytes →
    r.job.tokenizer (Text.ofUtf8 bytes) language r.input.path = .ok tokens →
    ∀ t ∈ tokens, CacheRecord.HasExactPlace t

end Reading

/-- A file on its way: what was read of it, and what it has still to do. -/
structure Visit where
  reading : Reading
  task : FileTask

/-- A store in use: its surroundings, and every file that a scan has begun. -/
structure World (k : StoreKind) where
  around : Surroundings k.State
  visits : List Visit

namespace World

variable {k : StoreKind}

/-- Everything that was read. -/
def readings (w : World k) : List Reading :=
  w.visits.map (·.reading)

/-- The contents that were read. -/
def contents (w : World k) : Set (List UInt8) :=
  {bytes | ∃ r ∈ w.readings, r.content = .ok bytes}

end World

/-- A file as a scan begins it. -/
def Visit.begin {σ : Type} (job : ScanJob) (input : ScanInput) (around : Surroundings σ) : Visit :=
  let reading : Reading := ⟨job, input, around.files.read (job.pathOf input), around.now⟩
  ⟨reading, reading.task⟩

/-- One step of a store in use.  What happens elsewhere may change anything, but it makes no
records. -/
inductive Step {k : StoreKind} : World k → World k → Prop where
  | begin (around : Surroundings k.State) (visits : List Visit) (job : ScanJob)
      (input : ScanInput) : Step ⟨around, visits⟩ ⟨around, visits ++ [Visit.begin job input around]⟩
  | say (around : Surroundings k.State) (before after : List Visit) (reading : Reading)
      (note : Note) (next : FileTask) :
      Step ⟨around, before ++ ⟨reading, .say note next⟩ :: after⟩
        ⟨{ around with notes := around.notes ++ [note] }, before ++ ⟨reading, next⟩ :: after⟩
  | call {around around' : Surroundings k.State} (before after : List Visit) (reading : Reading)
      {c : FileCall} (next : Except StoreFault c.Reply → FileTask)
      {reply : Except StoreFault c.Reply}
      (hcall : StoreKind.Performs (c.perform k.store) around reply around') :
      Step ⟨around, before ++ ⟨reading, .call c next⟩ :: after⟩
        ⟨around', before ++ ⟨reading, next reply⟩ :: after⟩
  | upkeep {around around' : Surroundings k.State} (visits : List Visit) (u : Upkeep)
      {reply : Except StoreFault Unit}
      (hcall : StoreKind.Performs (u.perform k.store) around reply around') :
      Step ⟨around, visits⟩ ⟨around', visits⟩
  | elsewhere {around around' : Surroundings k.State} (visits : List Visit)
      (hrecords : ∀ key r, k.Holds around' key r → k.Holds around key r) :
      Step ⟨around, visits⟩ ⟨around', visits⟩

/-- What is said to the log is no matter of the store. -/
theorem Step.note {k : StoreKind} (around : Surroundings k.State) (visits : List Visit)
    (notes : List Note) :
    Step (⟨around, visits⟩ : World k) ⟨{ around with notes }, visits⟩ := by
  have hsame : k.Adds (fun _ _ => False) around { around with notes } :=
    StoreKind.adds_of_eq rfl rfl
  exact .elsewhere visits fun key r hholds => (hsame key r hholds).resolve_right id

/-! ## What every step keeps -/

/-- Nothing that was read is forgotten. -/
theorem Step.readings_grow {k : StoreKind} {w w' : World k} (h : Step w w') :
    w.readings <+: w'.readings := by
  cases h with
  | begin around visits job input =>
      exact ⟨[(Visit.begin job input around).reading], by simp [World.readings]⟩
  | say => exact ⟨[], by simp [World.readings]⟩
  | call => exact ⟨[], by simp [World.readings]⟩
  | upkeep => exact ⟨[], by simp [World.readings]⟩
  | elsewhere => exact ⟨[], by simp [World.readings]⟩

section

variable {k : StoreKind} (tokenizer : Tokenizer) (known : Set (List UInt8))

/-- A reading that is of a known content and whose record the store would keep. -/
structure Admits (k : StoreKind) (r : Reading) : Prop where
  tokenizer : r.job.tokenizer = tokenizer
  content : ∀ bytes, r.content = .ok bytes → bytes ∈ known
  numbers : k = .memory ∨ r.HasExactNumbers

/-- Every record is genuine, and every file will put a genuine record, if any, and end as it would
with nothing stored. -/
structure Consistent (w : World k) : Prop where
  records : ∀ key r, k.Holds w.around key r → Genuine tokenizer known key r
  visits : ∀ v ∈ w.visits, v.task.Sound (Genuine tokenizer known)
    (fun key r => Genuine tokenizer known key r ∧ k.Preserves r)
    fun o => o.Agrees v.reading.task.uncached

variable {tokenizer known}

theorem hashes_lt {params : RecordParams} {tokens : List Token} {n : Nat}
    (hn : n ∈ FileTask.hashesOf params tokens) : n < 2 ^ 53 := by
  obtain ⟨u, -, rfl⟩ := List.mem_map.mp hn
  exact lt_of_lt_of_le u.toNat_lt (by norm_num)

theorem Admits.preserves {r : Reading} (hr : Admits tokenizer known k r) {language : Language}
    {bytes : List UInt8} {tokens : List Token}
    (hlanguage : Language.ofTag? r.input.language = some language)
    (hcontent : r.content = .ok bytes)
    (htokens : tokenizer (Text.ofUtf8 bytes) language r.input.path = .ok tokens) :
    k.Preserves (r.record language bytes tokens) := by
  rcases hr.numbers with rfl | hnumbers
  · exact trivial
  · rw [← hr.tokenizer] at htokens
    have hexact : (r.record language bytes tokens).IsExact :=
      { window := hnumbers.window language hlanguage
        createdAt := hnumbers.time
        tokens := hnumbers.tokens language bytes tokens hlanguage hcontent htokens
        hashes := fun n hn => Number.isExact_of_lt (hashes_lt hn) }
    cases k with
    | memory => exact trivial
    | shared start => exact hexact
    | disk directory => exact hexact

/-- The answer to a call goes on soundly, and the call leaves only genuine records. -/
theorem Consistent.call {around around' : Surroundings k.State}
    (hrecords : ∀ key r, k.Holds around key r → Genuine tokenizer known key r)
    {c : FileCall} {next : Except StoreFault c.Reply → FileTask} {good : FileOutcome → Prop}
    (htask : FileTask.Sound (Genuine tokenizer known)
      (fun key r => Genuine tokenizer known key r ∧ k.Preserves r) good (.call c next))
    {reply : Except StoreFault c.Reply}
    (hcall : StoreKind.Performs (c.perform k.store) around reply around') :
    (∀ key r, k.Holds around' key r → Genuine tokenizer known key r) ∧
      FileTask.Sound (Genuine tokenizer known)
        (fun key r => Genuine tokenizer known key r ∧ k.Preserves r) good (next reply) := by
  have hput : ∀ key r, c = .put key r → k.Preserves r ∧ Genuine tokenizer known key r := by
    rintro key r rfl
    exact htask.1.symm
  have hadds := hcall.adds (StoreKind.adds_perform hput around)
  refine ⟨fun key r hholds => (hadds key r hholds).elim (hrecords key r) id, ?_⟩
  cases c with
  | get key =>
      -- a torn look-up answers with a fault, so it hands out no record
      apply htask
      intro r hreply
      cases hcall with
      | whole => exact hrecords key r (StoreKind.holds_of_get hreply)
      | torn => cases hreply
  | put key r => exact htask.2 reply
  | recordSeen path key => exact htask reply

/-- One file may go on while the others wait. -/
theorem Consistent.replace {around around' : Surroundings k.State} {before after : List Visit}
    {v v' : Visit} (hw : Consistent tokenizer known (⟨around, before ++ v :: after⟩ : World k))
    (hrecords : ∀ key r, k.Holds around' key r → Genuine tokenizer known key r)
    (hv' : v'.task.Sound (Genuine tokenizer known)
      (fun key r => Genuine tokenizer known key r ∧ k.Preserves r)
      fun o => o.Agrees v'.reading.task.uncached) :
    Consistent tokenizer known (⟨around', before ++ v' :: after⟩ : World k) := by
  refine ⟨hrecords, ?_⟩
  intro u hu
  rcases List.mem_append.mp hu with hu | hu
  · exact hw.visits u (List.mem_append_left _ hu)
  · rcases List.mem_cons.mp hu with rfl | hu
    · exact hv'
    · exact hw.visits u (by simp [hu])

theorem Step.consistent (htokenizer : FollowsDialect tokenizer)
    (hhash : Set.InjOn contentHash known) {w w' : World k} (hstep : Step w w')
    (hw : Consistent tokenizer known w) (hadmits : ∀ r ∈ w'.readings, Admits tokenizer known k r) :
    Consistent tokenizer known w' := by
  cases hstep with
  | begin around visits job input =>
      refine ⟨hw.records, ?_⟩
      intro v hv
      rcases List.mem_append.mp hv with hold | hnew
      · exact hw.visits v hold
      · have hr := hadmits v.reading (List.mem_map_of_mem hv)
        obtain rfl := List.mem_singleton.mp hnew
        have hsound := FileTask.sound_start htokenizer hhash hr.content
          fun _ _ _ hlanguage hcontent htokens => hr.preserves hlanguage hcontent htokens
        rw [← hr.tokenizer] at hsound ⊢
        exact hsound
  | say around before after reading note next =>
      have hsame : k.Adds (fun _ _ => False) around
          { around with notes := around.notes ++ [note] } := StoreKind.adds_of_eq rfl rfl
      exact hw.replace
        (fun key r hholds => hw.records key r ((hsame key r hholds).resolve_right id))
        (hw.visits ⟨reading, .say note next⟩ (by simp))
  | call before after reading next hcall =>
      have hold := hw.visits ⟨reading, .call _ next⟩ (by simp)
      obtain ⟨hrecords, hnext⟩ := Consistent.call hw.records hold hcall
      exact hw.replace hrecords hnext
  | upkeep visits u hcall =>
      have hadds : k.Adds (fun _ _ => False) _ _ := hcall.adds (u.adds_perform _)
      exact ⟨fun key r hholds => hw.records key r ((hadds key r hholds).resolve_right id),
        hw.visits⟩
  | elsewhere visits hrecords =>
      exact ⟨fun key r hholds => hw.records key r (hrecords key r hholds), hw.visits⟩

/-- What every step keeps holds at the end of every history. -/
theorem consistent_of_reachable (htokenizer : FollowsDialect tokenizer)
    (hhash : Set.InjOn contentHash known) {w w' : World k} (hreach : ReflTransGen Step w w')
    (hw : Consistent tokenizer known w) (hadmits : ∀ r ∈ w'.readings, Admits tokenizer known k r) :
    Consistent tokenizer known w' := by
  induction hreach with
  | refl => exact hw
  | tail _ hstep ih =>
      -- what was read before is among what was read at the end, so it is admitted too
      exact hstep.consistent htokenizer hhash
        (ih fun r hr => hadmits r (hstep.readings_grow.subset hr)) hadmits

theorem consistent_of_empty {around : Surroundings k.State}
    (hempty : ∀ key r, ¬ k.Holds around key r) :
    Consistent tokenizer known (⟨around, []⟩ : World k) :=
  ⟨fun key r hholds => absurd hholds (hempty key r), fun v hv => absurd hv (by simp)⟩

end

end CloneScan
