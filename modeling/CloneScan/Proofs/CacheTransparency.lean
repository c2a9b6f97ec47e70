import CloneScan.Proofs.StoreHistory

/-!
# Cache transparency

A scan that comes to its end on a store in use reports the violations and warnings that it would
report with an empty store.  A scan that runs by itself takes steps of a store in use, so scans one
after the other are a special case of its histories.
-/

namespace CloneScan

open Relation

namespace ScanJob

/-- The outcome of an input with nothing stored. -/
def uncached (job : ScanJob) (files : FileTree) (input : ScanInput) : FileOutcome :=
  (FileTask.start job.config job.tokenizer 0 input (files.read (job.pathOf input))).uncached

/-- An outcome that a scan of some files has for an input, if it has one yet. -/
inductive Settled {k : StoreKind} (job : ScanJob) (files : FileTree) (w : World k) :
    ScanInput → FileOutcome → Prop where
  | visited {reading : Reading} {outcome : FileOutcome}
      (hvisit : ⟨reading, .done outcome⟩ ∈ w.visits) (hjob : reading.job = job)
      (hcontent : reading.content = files.read (job.pathOf reading.input)) :
      Settled job files w reading.input outcome
  | aborted (input : ScanInput) : Settled job files w input .aborted

/-- A file that was visited ended as with nothing stored. -/
theorem agrees_of_visited {k : StoreKind} {tokenizer : Tokenizer} {known : Set (List UInt8)}
    {w : World k} (hw : Consistent tokenizer known w) {job : ScanJob} {files : FileTree}
    {reading : Reading} {outcome : FileOutcome}
    (hvisit : ⟨reading, .done outcome⟩ ∈ w.visits) (hjob : reading.job = job)
    (hcontent : reading.content = files.read (job.pathOf reading.input)) :
    outcome.Agrees (job.uncached files reading.input) := by
  have hagrees : outcome.Agrees reading.task.uncached := hw.visits _ hvisit
  rw [uncached, ← hcontent, ← hjob, FileTask.uncached_start_now _ _ 0 (millis reading.now)]
  exact hagrees

/-! ### Reports -/

theorem forall₂_agrees {outcomes outcomes' : List FileOutcome}
    (hagrees : List.Forall₂ FileOutcome.Agrees outcomes outcomes') :
    outcomes.filterMap FileOutcome.file? = outcomes'.filterMap FileOutcome.file? ∧
      outcomes.flatMap FileOutcome.suppressed = outcomes'.flatMap FileOutcome.suppressed ∧
      outcomes.filterMap FileOutcome.warning? = outcomes'.filterMap FileOutcome.warning? := by
  induction hagrees with
  | nil => exact ⟨rfl, rfl, rfl⟩
  | cons h _ ih =>
      obtain ⟨hfiles, hsuppressed, hwarnings⟩ := ih
      simp only [List.filterMap_cons, List.flatMap_cons, h.file, h.suppressed, h.warning, hfiles,
        hsuppressed, hwarnings, and_self]

/-- A report is made of what outcomes have in common when they agree. -/
theorem report_eq_of_agrees (job : ScanJob) (unique included : List ScanInput)
    {outcomes outcomes' : List FileOutcome} (pruned pruned' : Nat)
    (hagrees : List.Forall₂ FileOutcome.Agrees outcomes outcomes') :
    (job.report unique included outcomes pruned).violations =
        (job.report unique included outcomes' pruned').violations ∧
      (job.report unique included outcomes pruned).warnings =
        (job.report unique included outcomes' pruned').warnings := by
  obtain ⟨hfiles, hsuppressed, hwarnings⟩ := forall₂_agrees hagrees
  simp only [report, hfiles, hsuppressed, hwarnings, and_self]

section

variable {σ : Type} {job : ScanJob} {store : CacheStore σ} {inputs : List ScanInput}
  {outcomes : List FileOutcome} {around : Surroundings σ}

theorem conclude_of_settled (store : CacheStore σ) (inputs : List ScanInput)
    (around : Surroundings σ) (hsettled : ∀ o ∈ outcomes, o.isAborted = false) :
    ∃ pruned, (job.conclude store inputs outcomes around).1 =
      .ok (job.report (uniqueInputs inputs) (job.included inputs) outcomes pruned) := by
  have hnone : ¬ 0 < outcomes.countP FileOutcome.isAborted := by
    simpa [List.countP_pos_iff] using hsettled
  unfold conclude
  simp only [if_neg hnone]
  exact ⟨_, rfl⟩

theorem settled_of_conclude {result : ScanResult}
    (h : (job.conclude store inputs outcomes around).1 = .ok result) :
    ∀ o ∈ outcomes, o.isAborted = false := by
  by_contra hsome
  have hpos : 0 < outcomes.countP FileOutcome.isAborted := by
    simpa [List.countP_pos_iff] using hsome
  unfold conclude at h
  simp only [if_pos hpos] at h
  cases h

end

/-! ### Scans in turn -/

section

variable {k : StoreKind} {P : FileTree → Number → Prop}

theorem runTask_keeps (hk : k.Keeps P) {task : FileTask} {s : ScanState k.State}
    (hs : P s.around.files s.around.now) :
    P (s.runTask k.store task).2.around.files (s.runTask k.store task).2.around.now := by
  induction task generalizing s with
  | done outcome => exact hs
  | say note next ih => exact ih hs
  | call c next ih => exact ih _ (hk.call c s.around hs)

/-- Steps that let files run one after the other, as long as `P` holds of the files and the time. -/
structure TakesTurns (P : FileTree → Number → Prop) (R : World k → World k → Prop) : Prop where
  begin : ∀ (around : Surroundings k.State) (visits : List Visit) (job : ScanJob)
    (input : ScanInput), R ⟨around, visits⟩ ⟨around, visits ++ [Visit.begin job input around]⟩
  say : ∀ (around : Surroundings k.State) (visits : List Visit) (reading : Reading) (note : Note)
    (next : FileTask), R ⟨around, visits ++ [⟨reading, .say note next⟩]⟩
      ⟨{ around with notes := around.notes ++ [note] }, visits ++ [⟨reading, next⟩]⟩
  call : ∀ (around : Surroundings k.State) (visits : List Visit) (reading : Reading) (c : FileCall)
    (next : Except StoreFault c.Reply → FileTask), P around.files around.now →
    R ⟨around, visits ++ [⟨reading, .call c next⟩]⟩
      ⟨((c.perform k.store).exec around).2,
        visits ++ [⟨reading, next ((c.perform k.store).exec around).1⟩]⟩

theorem takesTurns_step (P : FileTree → Number → Prop) : TakesTurns P (@Step k) where
  begin := .begin
  say := fun around visits reading note next => .say around visits [] reading note next
  call := fun _ visits reading _ next _ => .call visits [] reading next .whole

/-- A file that runs without interruption takes the steps of its task. -/
theorem runTask_reachable {R : World k → World k → Prop} (hR : TakesTurns P R) (hk : k.Keeps P)
    (task : FileTask) (s : ScanState k.State) (hs : P s.around.files s.around.now)
    (visits : List Visit) (reading : Reading) :
    ReflTransGen R (⟨s.around, visits ++ [⟨reading, task⟩]⟩ : World k)
      ⟨(s.runTask k.store task).2.around,
        visits ++ [⟨reading, .done (s.runTask k.store task).1⟩]⟩ := by
  induction task generalizing s with
  | done outcome => exact .refl
  | say note next ih =>
      exact .head (hR.say s.around visits reading note next) (ih (s.say note) hs)
  | call c next ih =>
      exact .head (hR.call s.around visits reading c next hs)
        (ih (s.call k.store c).1 (s.call k.store c).2 (hk.call c s.around hs))

theorem runFiles_cons_aborted {σ : Type} {job : ScanJob} {s : ScanState σ}
    (h : job.isAborted s.seen = true) (store : CacheStore σ) (input : ScanInput)
    (rest : List ScanInput) :
    job.runFiles store s (input :: rest) =
      (.aborted :: (job.runFiles store s rest).1, (job.runFiles store s rest).2) := by
  rw [runFiles, if_pos h]

theorem runFiles_cons {σ : Type} {job : ScanJob} {s : ScanState σ}
    (h : ¬ job.isAborted s.seen = true) (store : CacheStore σ) (input : ScanInput)
    (rest : List ScanInput) :
    job.runFiles store s (input :: rest) =
      ((s.runTask store (Visit.begin job input s.around).task).1 ::
          (job.runFiles store (s.runTask store (Visit.begin job input s.around).task).2 rest).1,
        (job.runFiles store (s.runTask store (Visit.begin job input s.around).task).2 rest).2) := by
  rw [runFiles, if_neg h]
  rfl

theorem abortAfter_ne_none {job : ScanJob} {seen : Nat} (h : job.isAborted seen = true) :
    job.abortAfter ≠ none := by
  intro hnone
  simp [isAborted, hnone] at h

/-- What a scan that ran by itself has visited: each file is that of an input and was read where
`P` holds, and every input has the outcome of its file, unless the scan was cut short. -/
structure Visited (P : FileTree → Number → Prop) (job : ScanJob) (inputs : List ScanInput)
    (visits : List Visit) (outcomes : List FileOutcome) : Prop where
  readings : ∀ v ∈ visits, v.reading.job = job ∧ v.reading.input ∈ inputs ∧
    ∃ t, P t v.reading.now ∧ v.reading.content = t.read (job.pathOf v.reading.input)
  outcomes : List.Forall₂ (fun input outcome => (job.abortAfter ≠ none ∧ outcome = .aborted) ∨
    ∃ v ∈ visits, v.reading.input = input ∧ v.task = .done outcome) inputs outcomes

namespace Visited

variable {job : ScanJob} {rest : List ScanInput} {visits : List Visit}
  {outcomes : List FileOutcome}

theorem aborted (h : Visited P job rest visits outcomes) (hcut : job.abortAfter ≠ none)
    (input : ScanInput) : Visited P job (input :: rest) visits (.aborted :: outcomes) := by
  refine ⟨?_, .cons (.inl ⟨hcut, rfl⟩) h.outcomes⟩
  intro v hv
  obtain ⟨hjob, hinput, hcontent⟩ := h.readings v hv
  exact ⟨hjob, List.mem_cons_of_mem input hinput, hcontent⟩

theorem cons (h : Visited P job rest visits outcomes) {around : Surroundings k.State}
    (haround : P around.files around.now) (input : ScanInput) (outcome : FileOutcome) :
    Visited P job (input :: rest)
      (⟨(Visit.begin job input around).reading, .done outcome⟩ :: visits)
      (outcome :: outcomes) := by
  refine ⟨?_, .cons (.inr ⟨_, List.mem_cons_self, rfl, rfl⟩) (h.outcomes.imp ?_)⟩
  · intro v hv
    rcases List.mem_cons.mp hv with rfl | hv
    · exact ⟨rfl, List.mem_cons_self, around.files, haround, rfl⟩
    · obtain ⟨hjob, hinput, hcontent⟩ := h.readings v hv
      exact ⟨hjob, List.mem_cons_of_mem input hinput, hcontent⟩
  · rintro i o (hcut | ⟨v, hv, hinput, htask⟩)
    · exact .inl hcut
    · exact .inr ⟨v, List.mem_cons_of_mem _ hv, hinput, htask⟩

end Visited

/-- Files that run one after the other take their steps in turn. -/
theorem runFiles_reachable {R : World k → World k → Prop} (hR : TakesTurns P R) (hk : k.Keeps P)
    (job : ScanJob) (inputs : List ScanInput) :
    ∀ (s : ScanState k.State) (visits : List Visit), P s.around.files s.around.now →
    ∃ more, ReflTransGen R (⟨s.around, visits⟩ : World k)
        ⟨(job.runFiles k.store s inputs).2.around, visits ++ more⟩ ∧
      P (job.runFiles k.store s inputs).2.around.files
        (job.runFiles k.store s inputs).2.around.now ∧
      Visited P job inputs more (job.runFiles k.store s inputs).1 := by
  induction inputs with
  | nil =>
      intro s visits hs
      exact ⟨[], by rw [List.append_nil]; exact .refl, hs, by simp, .nil⟩
  | cons input rest ih =>
      intro s visits hs
      by_cases haborted : job.isAborted s.seen = true
      · obtain ⟨more, hreach, hafter, hvisited⟩ := ih s visits hs
        rw [runFiles_cons_aborted haborted]
        exact ⟨more, hreach, hafter, hvisited.aborted (abortAfter_ne_none haborted) input⟩
      · rw [runFiles_cons haborted]
        set begun := Visit.begin job input s.around
        set ran := s.runTask k.store begun.task
        have hran : P ran.2.around.files ran.2.around.now := runTask_keeps hk hs
        obtain ⟨more, hreach, hafter, hvisited⟩ :=
          ih ran.2 (visits ++ [⟨begun.reading, .done ran.1⟩]) hran
        have hfirst : ReflTransGen R (⟨s.around, visits⟩ : World k)
            ⟨ran.2.around, visits ++ [⟨begun.reading, .done ran.1⟩]⟩ :=
          .head (hR.begin s.around visits job input)
            (runTask_reachable hR hk begun.task s hs visits begun.reading)
        refine ⟨⟨begun.reading, .done ran.1⟩ :: more, ?_, hafter, hvisited.cons hs input ran.1⟩
        rw [List.append_cons]
        exact hfirst.trans hreach

theorem exists_maintain_eq {σ α : Type} (step : String) (op : StoreM σ α) (fallback : α)
    (around : Surroundings σ) :
    ∃ notes, (maintain step op fallback around).2 = { (op.exec around).2 with notes } := by
  unfold maintain StoreM.exec
  rcases op.run.run around with ⟨fault | a, after⟩
  · exact ⟨_, rfl⟩
  · exact ⟨after.notes, rfl⟩

/-- A maintenance step is upkeep, with a note when it fails. -/
theorem maintain_reachable (hk : k.Keeps P) (u : Upkeep) {α : Type} {op : StoreM k.State α}
    (hop : ∀ s, (op.exec s).2 = ((u.perform k.store).exec s).2) (step : String) (fallback : α)
    {around : Surroundings k.State} (haround : P around.files around.now) (visits : List Visit) :
    ReflTransGen Step (⟨around, visits⟩ : World k)
        ⟨(maintain step op fallback around).2, visits⟩ ∧
      P (maintain step op fallback around).2.files (maintain step op fallback around).2.now := by
  have hstep : Step (⟨around, visits⟩ : World k) ⟨(op.exec around).2, visits⟩ := by
    rw [hop]
    exact .upkeep visits u .whole
  have hkept : P (op.exec around).2.files (op.exec around).2.now := by
    rw [hop]
    exact hk.upkeep u around haround
  obtain ⟨notes, hafter⟩ := exists_maintain_eq step op fallback around
  rw [hafter]
  exact ⟨.head hstep (.single (Step.note _ visits notes)), hkept⟩

theorem conclude_reachable (hk : k.Keeps P) (job : ScanJob) (inputs : List ScanInput)
    (outcomes : List FileOutcome) {around : Surroundings k.State}
    (haround : P around.files around.now) (visits : List Visit) :
    ReflTransGen Step (⟨around, visits⟩ : World k)
        ⟨(job.conclude k.store inputs outcomes around).2, visits⟩ ∧
      P (job.conclude k.store inputs outcomes around).2.files
        (job.conclude k.store inputs outcomes around).2.now := by
  have hflush : ∀ {around : Surroundings k.State}, P around.files around.now →
      ReflTransGen Step (⟨around, visits⟩ : World k)
          ⟨(maintain "flush" k.store.flush () around).2, visits⟩ ∧
        P (maintain "flush" k.store.flush () around).2.files
          (maintain "flush" k.store.flush () around).2.now :=
    fun h => maintain_reachable hk .flush (fun _ => rfl) "flush" () h visits
  unfold conclude
  dsimp only
  split
  · exact hflush haround
  · split
    · set options : PruneOptions :=
        ⟨outcomes.filterMap FileOutcome.key?, job.config.cache.maxAgeDays⟩
      obtain ⟨hpruned, hafter⟩ := maintain_reachable hk (.prune options)
        (Upkeep.exec_prune k.store options) "prune" 0 haround visits
      obtain ⟨hflushed, hend⟩ := hflush hafter
      exact ⟨(hpruned.trans hflushed).tail (Step.note _ visits _), hend⟩
    · obtain ⟨hflushed, hend⟩ := hflush haround
      exact ⟨hflushed.tail (Step.note _ visits _), hend⟩

/-- A scan that runs by itself takes steps of a store in use. -/
theorem run_reachable (hk : k.Keeps P) (job : ScanJob) (inputs : List ScanInput)
    (around : Surroundings k.State) (haround : P around.files around.now) (visits : List Visit) :
    ∃ more outcomes before, ReflTransGen Step (⟨around, visits⟩ : World k)
        ⟨(job.run k.store inputs around).2, visits ++ more⟩ ∧
      P (job.run k.store inputs around).2.files (job.run k.store inputs around).2.now ∧
      Visited P job (job.included inputs) more outcomes ∧
      job.run k.store inputs around = job.conclude k.store inputs outcomes before := by
  obtain ⟨more, hfiles, hbefore, hvisited⟩ :=
    runFiles_reachable (takesTurns_step P) hk job (job.included inputs) ⟨around, 0⟩ visits haround
  obtain ⟨hconclude, hend⟩ := conclude_reachable hk job inputs
    (job.runFiles k.store ⟨around, 0⟩ (job.included inputs)).1 hbefore (visits ++ more)
  exact ⟨more, _, _, hfiles.trans hconclude, hend, hvisited, rfl⟩

end

/-! ### Scans with an empty store -/

theorem isAborted_uncached (job : ScanJob) (files : FileTree) (input : ScanInput) :
    (job.uncached files input).isAborted = false :=
  FileTask.isAborted_uncached_start job.config job.tokenizer 0 input _

theorem isAborted_of_agrees {job : ScanJob} {files : FileTree} {included : List ScanInput}
    {outcomes : List FileOutcome} (hagrees : List.Forall₂
      (fun input o => o.Agrees (job.uncached files input)) included outcomes) :
    ∀ o ∈ outcomes, o.isAborted = false := by
  induction hagrees with
  | nil => simp
  | @cons input o _ _ h _ ih =>
      intro o' ho'
      rcases List.mem_cons.mp ho' with rfl | ho'
      · rw [h.aborted, isAborted_uncached]
      · exact ih o' ho'

section

variable {tokenizer : Tokenizer} {known : Set (List UInt8)}

/-- Alone on an empty store in memory, a scan comes to its end, and its files end as with nothing
stored. -/
theorem run_memory_of_empty (htokenizer : FollowsDialect tokenizer)
    (hhash : Set.InjOn contentHash known) (job : ScanJob) (hwhole : job.abortAfter = none)
    {files : FileTree} {inputs : List ScanInput}
    (hinputs : ∀ input ∈ job.included inputs, job.tokenizer = tokenizer ∧
      ∀ bytes, files.read (job.pathOf input) = .ok bytes → bytes ∈ known)
    (now : Number) (notes : List Note) :
    ∃ outcomes pruned, (job.run memoryStore inputs ⟨files, .empty, now, notes⟩).1 =
        .ok (job.report (uniqueInputs inputs) (job.included inputs) outcomes pruned) ∧
      List.Forall₂ (fun input o => o.Agrees (job.uncached files input))
        (job.included inputs) outcomes := by
  have hkeeps := StoreKind.keeps_memory fun t _ => t = files
  obtain ⟨more, outcomes, before, hreach, -, hvisited, hrun⟩ :=
    run_reachable hkeeps job inputs ⟨files, .empty, now, notes⟩ rfl []
  have hadmits : ∀ v ∈ more, Admits tokenizer known .memory v.reading := by
    intro v hv
    obtain ⟨hjob, hinput, t, rfl, hcontent⟩ := hvisited.readings v hv
    obtain ⟨htok, hknown⟩ := hinputs _ hinput
    exact ⟨hjob ▸ htok, fun bytes hbytes => hknown bytes (hcontent ▸ hbytes), .inl rfl⟩
  have hconsistent := consistent_of_reachable htokenizer hhash hreach
    (consistent_of_empty (by rintro key r ⟨v, hv, -⟩; cases hv))
    (by simpa [World.readings] using hadmits)
  have hagrees : List.Forall₂ (fun input o => o.Agrees (job.uncached files input))
      (job.included inputs) outcomes := by
    refine hvisited.outcomes.imp ?_
    rintro input outcome (⟨hcut, -⟩ | ⟨⟨reading, task⟩, hv, rfl, rfl⟩)
    · exact absurd hwhole hcut
    · obtain ⟨hjob, -, t, rfl, hcontent⟩ := hvisited.readings _ hv
      exact agrees_of_visited hconsistent hv hjob hcontent
  obtain ⟨pruned, hconclude⟩ :=
    conclude_of_settled memoryStore inputs before (isAborted_of_agrees hagrees)
  exact ⟨outcomes, pruned, (congrArg Prod.fst hrun).trans hconclude, hagrees⟩

/-- What is known of an input once its file was visited: the tokenizer of the scan, and the content
of the file among those that were read. -/
theorem known_of_settled {k : StoreKind} {w : World k}
    (hsame : ∀ r ∈ w.readings, r.job.tokenizer = tokenizer) {job : ScanJob} {files : FileTree}
    {included : List ScanInput} {outcomes : List FileOutcome}
    (hsettled : List.Forall₂ (job.Settled files w) included outcomes)
    (hwhole : ∀ o ∈ outcomes, o.isAborted = false) :
    ∀ input ∈ included, job.tokenizer = tokenizer ∧
      ∀ bytes, files.read (job.pathOf input) = .ok bytes → bytes ∈ w.contents := by
  induction hsettled with
  | nil => simp
  | @cons input o _ _ h _ ih =>
      have hrest := ih fun o' ho' => hwhole o' (List.mem_cons_of_mem o ho')
      intro input' hinput'
      rcases List.mem_cons.mp hinput' with rfl | hinput'
      · cases h with
        | @visited reading _ hvisit hjob hcontent =>
            have hreading : reading ∈ w.readings := List.mem_map_of_mem hvisit
            refine ⟨hjob ▸ hsame reading hreading, ?_⟩
            intro bytes hbytes
            exact ⟨reading, hreading, hcontent.trans hbytes⟩
        | aborted => cases hwhole .aborted List.mem_cons_self
      · exact hrest input' hinput'

theorem agrees_of_settled {k : StoreKind} {w : World k} (hw : Consistent tokenizer known w)
    {job : ScanJob} {files : FileTree} {included : List ScanInput} {outcomes : List FileOutcome}
    (hsettled : List.Forall₂ (job.Settled files w) included outcomes)
    (hwhole : ∀ o ∈ outcomes, o.isAborted = false) :
    List.Forall₂ (fun input o => o.Agrees (job.uncached files input)) included outcomes := by
  induction hsettled with
  | nil => exact .nil
  | @cons input o _ _ h _ ih =>
      refine .cons ?_ (ih fun o' ho' => hwhole o' (List.mem_cons_of_mem o ho'))
      cases h with
      | visited hvisit hjob hcontent => exact agrees_of_visited hw hvisit hjob hcontent
      | aborted => cases hwhole .aborted List.mem_cons_self

theorem agrees_of_agrees {job : ScanJob} {files : FileTree} {included : List ScanInput}
    {outcomes outcomes' : List FileOutcome}
    (h : List.Forall₂ (fun input o => o.Agrees (job.uncached files input)) included outcomes)
    (h' : List.Forall₂ (fun input o => o.Agrees (job.uncached files input)) included outcomes') :
    List.Forall₂ FileOutcome.Agrees outcomes outcomes' := by
  induction h generalizing outcomes' with
  | nil =>
      cases h'
      exact .nil
  | cons hagrees _ ih =>
      cases h' with
      | cons hagrees' hrest => exact .cons (hagrees.trans hagrees'.symm) (ih hrest)

end

/-- **Cache transparency.**  A store that began empty was used in any way by scans with one
tokenizer; no two contents that they read share a digest.  A scan that comes to its end there
reports the violations and warnings that it reports alone on an empty store with the same files. -/
theorem conclude_eq_run_of_empty {k : StoreKind} {tokenizer : Tokenizer}
    (htokenizer : FollowsDialect tokenizer) {around₀ : Surroundings k.State}
    (hempty : ∀ key r, ¬ k.Holds around₀ key r) {w : World k}
    (hreach : ReflTransGen Step ⟨around₀, []⟩ w)
    (hsame : ∀ r ∈ w.readings, r.job.tokenizer = tokenizer)
    (hhash : Set.InjOn contentHash w.contents)
    (hnumbers : k = .memory ∨ ∀ r ∈ w.readings, r.HasExactNumbers)
    {job : ScanJob} {files : FileTree} {inputs : List ScanInput} {outcomes : List FileOutcome}
    (hsettled : List.Forall₂ (job.Settled files w) (job.included inputs) outcomes)
    {around : Surroundings k.State} {result : ScanResult}
    (hresult : (job.conclude k.store inputs outcomes around).1 = .ok result)
    (now : Number) (notes : List Note) :
    ∃ fresh, (({ job with abortAfter := none } : ScanJob).run memoryStore inputs
        ⟨files, .empty, now, notes⟩).1 = .ok fresh ∧
      result.violations = fresh.violations ∧ result.warnings = fresh.warnings := by
  have hwhole := settled_of_conclude hresult
  have hadmits : ∀ r ∈ w.readings, Admits tokenizer w.contents k r := by
    intro r hr
    exact ⟨hsame r hr, fun bytes hbytes => ⟨r, hr, hbytes⟩, hnumbers.imp_right fun h => h r hr⟩
  have hconsistent := consistent_of_reachable htokenizer hhash hreach
    (consistent_of_empty hempty) hadmits
  have hagrees := agrees_of_settled hconsistent hsettled hwhole
  -- the scan alone reads what was read here, so the contents that it meets are known ones
  have hinputs := known_of_settled hsame hsettled hwhole
  obtain ⟨outcomes', pruned', hfresh, hagrees'⟩ := run_memory_of_empty htokenizer hhash
    { job with abortAfter := none } rfl hinputs now notes
  obtain ⟨pruned, hconclude⟩ := conclude_of_settled k.store inputs around hwhole
  obtain rfl := Except.ok.inj (hconclude.symm.trans hresult)
  exact ⟨_, hfresh, report_eq_of_agrees job _ _ pruned pruned' (agrees_of_agrees hagrees hagrees')⟩

/-! ### Two scans of twin files -/

/-- A scan with a window of so many tokens. -/
def twinJob (window : Nat) : ScanJob where
  config :=
    { settings := {}
      root := Text.ofString "/"
      duplicates := ⟨true, ⟨1, window, 2⟩, [], false, .warning, [], true, 2⟩
      ignore := []
      cache := ⟨true, .redis, [], .finite 30, []⟩
      scan := ⟨0, false, true⟩ }
  tokenizer := tokenizeAs
  suppressed := []
  filters := none
  abortAfter := none

/-- Two files of one content, `a=b`. -/
def twinInputs : List ScanInput :=
  ["a.py", "b.py"].map fun path => ⟨Text.ofString path, Text.ofString "python"⟩

def twinBytes : List UInt8 := [0x61, 0x3D, 0x62]

def twinFiles : FileTree :=
  ⟨["a.py", "b.py"].map fun path => ([Text.ofString path], .file twinBytes none)⟩

/-- The surroundings of the files, one millisecond after the start of the clock. -/
def twinAround {σ : Type} (state : σ) : Surroundings σ :=
  ⟨twinFiles, state, .finite 1, []⟩

/-- A reading of one of the files in a scan with a window. -/
structure IsTwin (window : Nat) (r : Reading) : Prop where
  job : r.job = twinJob window
  input : r.input ∈ twinInputs
  content : r.content = .ok twinBytes
  now : r.now = .finite 1

theorem read_twinFiles (window : Nat) {input : ScanInput} (hinput : input ∈ twinInputs) :
    twinFiles.read ((twinJob window).pathOf input) = .ok twinBytes := by
  rcases List.mem_pair.mp hinput with rfl | rfl <;> rfl

theorem tokens_twinBytes : (tokenizeAs (Text.ofUtf8 twinBytes) .python []).toOption.all
    (fun tokens => tokens.all fun t =>
      t.startLine < 2 ^ 53 && t.startColumn < 2 ^ 53 && t.endLine < 2 ^ 53 &&
        t.endColumn < 2 ^ 53) = true := by
  decide +kernel

theorem hasExactNumbers_of_twinBytes {r : Reading} (htokenizer : r.job.tokenizer = tokenizeAs)
    (hinput : r.input ∈ twinInputs) (hcontent : r.content = .ok twinBytes)
    (hnow : r.now = .finite 1) (hwindow : (r.job.config.thresholds .python).tokens < 2 ^ 53) :
    r.HasExactNumbers := by
  have hpython : ∀ language, Language.ofTag? r.input.language = some language →
      Language.python = language := by
    intro language hlanguage
    rcases List.mem_pair.mp hinput with hinput | hinput <;> rw [hinput] at hlanguage <;>
      exact Option.some.inj hlanguage
  constructor
  · rw [hnow]
    exact Number.isExact_of_lt (by decide : millis (.finite 1) < 2 ^ 53)
  · intro language hlanguage
    obtain rfl := hpython language hlanguage
    exact Number.isExact_of_lt hwindow
  · intro language bytes tokens hlanguage hread htokens
    obtain rfl : twinBytes = bytes := Except.ok.inj (hcontent.symm.trans hread)
    obtain rfl := hpython language hlanguage
    rw [htokenizer] at htokens
    have hall := tokens_twinBytes
    rw [show tokenizeAs (Text.ofUtf8 twinBytes) .python [] = .ok tokens from htokens] at hall
    intro t ht
    simp only [Except.toOption, Option.all_some, List.all_eq_true, Bool.and_eq_true,
      decide_eq_true_eq] at hall
    obtain ⟨⟨⟨hstartLine, hstartColumn⟩, hendLine⟩, hendColumn⟩ := hall t ht
    exact ⟨Number.isExact_of_lt hstartLine, Number.isExact_of_lt hstartColumn,
      Number.isExact_of_lt hendLine, Number.isExact_of_lt hendColumn⟩

theorem IsTwin.hasExactNumbers {window : Nat} {r : Reading} (h : IsTwin window r)
    (hwindow : window < 2 ^ 53) : r.HasExactNumbers := by
  apply hasExactNumbers_of_twinBytes
  · rw [h.job]
    rfl
  · exact h.input
  · exact h.content
  · exact h.now
  · rw [h.job]
    exact hwindow

theorem isTwin_of_visited {window : Nat} {visits : List Visit} {outcomes : List FileOutcome}
    (h : Visited (fun t now => t = twinFiles ∧ now = .finite 1) (twinJob window)
      ((twinJob window).included twinInputs) visits outcomes) :
    ∀ v ∈ visits, IsTwin window v.reading := by
  intro v hv
  obtain ⟨hjob, hinput, t, ⟨rfl, hnow⟩, hcontent⟩ := h.readings v hv
  exact ⟨hjob, hinput, hcontent.trans (read_twinFiles window hinput), hnow⟩

/-- A scan with a window of three tokens after one with a window of two, on a new server. -/
def twinScans : Except Failure ScanResult × Surroundings ServerData :=
  (twinJob 3).run (sharedStore []) twinInputs
    ((twinJob 2).run (sharedStore []) twinInputs (twinAround .empty)).2

theorem exists_twinHistory : ∃ (w : World (.shared [])) (outcomes : List FileOutcome)
    (before : Surroundings ServerData),
    ReflTransGen Step (⟨twinAround ServerData.empty, []⟩ : World (.shared [])) w ∧
      (∀ r ∈ w.readings, ∃ window, window < 2 ^ 53 ∧ IsTwin window r) ∧
      List.Forall₂ ((twinJob 3).Settled twinFiles w) ((twinJob 3).included twinInputs) outcomes ∧
      twinScans = (twinJob 3).conclude (sharedStore []) twinInputs outcomes before := by
  have hkeeps := StoreKind.keeps_shared [] fun t now => t = twinFiles ∧ now = .finite 1
  obtain ⟨first, _, _, hfirst, hbetween, hvisited, -⟩ :=
    run_reachable hkeeps (twinJob 2) twinInputs (twinAround .empty) ⟨rfl, rfl⟩ []
  obtain ⟨second, outcomes, before, hsecond, -, hvisited', hrun⟩ :=
    run_reachable hkeeps (twinJob 3) twinInputs _ hbetween ([] ++ first)
  refine ⟨_, outcomes, before, hfirst.trans hsecond, ?_, hvisited'.outcomes.imp ?_, hrun⟩
  · intro r hr
    obtain ⟨v, hv, rfl⟩ := List.mem_map.mp hr
    rcases List.mem_append.mp hv with hv | hv
    · exact ⟨2, by decide, isTwin_of_visited hvisited v hv⟩
    · exact ⟨3, by decide, isTwin_of_visited hvisited' v hv⟩
  · rintro input outcome (⟨hcut, -⟩ | ⟨⟨reading, task⟩, hv, rfl, rfl⟩)
    · exact absurd rfl hcut
    · obtain ⟨hjob, -, t, ⟨rfl, -⟩, hcontent⟩ := hvisited'.readings _ hv
      exact .visited (List.mem_append_right _ hv) hjob hcontent

/-- The second scan finds the records of the first, which have hashes of another window. -/
theorem conclude_eq_run_of_empty_twinFiles :
    ∃ result fresh, twinScans.1 = .ok result ∧ result.stats.cacheHits = 2 ∧
      ((twinJob 3).run memoryStore twinInputs (twinAround .empty)).1 = .ok fresh ∧
      result.violations = fresh.violations ∧ result.warnings = fresh.warnings := by
  have hhits : (twinScans.1.toOption.any fun result => result.stats.cacheHits = 2) = true := by
    decide +kernel
  obtain ⟨w, outcomes, before, hreach, htwins, hsettled, hrun⟩ := exists_twinHistory
  cases hresult : twinScans.1 with
  | error failure =>
      rw [hresult] at hhits
      cases hhits
  | ok result =>
      rw [hresult] at hhits
      have hsame : ∀ r ∈ w.readings, r.job.tokenizer = tokenizeAs := by
        intro r hr
        obtain ⟨window, -, htwin⟩ := htwins r hr
        rw [htwin.job]
        rfl
      have hhash : Set.InjOn contentHash w.contents := by
        rintro bytes ⟨r, hr, hbytes⟩ bytes' ⟨r', hr', hbytes'⟩ -
        obtain ⟨_, -, htwin⟩ := htwins r hr
        obtain ⟨_, -, htwin'⟩ := htwins r' hr'
        rw [htwin.content] at hbytes
        rw [htwin'.content] at hbytes'
        exact Except.ok.inj (hbytes.symm.trans hbytes')
      have hnumbers : ∀ r ∈ w.readings, r.HasExactNumbers := by
        intro r hr
        obtain ⟨window, hwindow, htwin⟩ := htwins r hr
        exact htwin.hasExactNumbers hwindow
      have hempty : ∀ key r,
          ¬ StoreKind.Holds (.shared []) (twinAround ServerData.empty) key r := by
        rintro key r ⟨t, ht, -⟩
        cases ht
      obtain ⟨fresh, hfresh, hreports⟩ := conclude_eq_run_of_empty followsDialect_tokenizeAs hempty
        hreach hsame hhash (.inr hnumbers) hsettled (hrun ▸ hresult) (.finite 1) []
      exact ⟨result, fresh, rfl, of_decide_eq_true hhits, hfresh, hreports⟩

end ScanJob

end CloneScan
