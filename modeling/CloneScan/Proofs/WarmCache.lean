import CloneScan.Proofs.CacheClearing
import CloneScan.Proofs.FileTurns

/-!
# A scan after a scan

A scan leaves a record under the key of every file that it analyzes, and its upkeep spares those
records, so a second scan of the same files misses nothing.  A put writes where nothing is: a record
of another language, which a file of the same content in the same dialect has left, stays and is
found unusable by every later scan.
-/

namespace CloneScan

open Relation

/-! ## What becomes of a file -/

namespace FileTask

variable {made : Text → CacheRecord → Prop} {tokenizer : Tokenizer} {s : Subject}
  {v₀ v v' : StoreView Json}

/-- What becomes of a file that began no earlier than on a store `v₀` and whose turns are over on a
store `v`. -/
inductive Ends (tokenizer : Tokenizer) (s : Subject) (v₀ v : StoreView Json) : FileOutcome → Prop
  | hit (file : AnalyzedFile) (suppressed : List Location) {r : CacheRecord}
      (hfound : v.found s.key = some (.ok r)) (hgrammar : r.params.sameDialect s.params = true) :
      Ends tokenizer s v₀ v (.analyzed file s.key .hit suppressed)
  | computed (file : AnalyzedFile) (cache : CacheOutcome) (suppressed : List Location)
      {tokens : List Token} {r : CacheRecord}
      (htokens : tokenizer s.source s.language s.path = .ok tokens)
      (hfound : v.found s.key = some (.ok r)) (hcache : cache ≠ .hit)
      (hgrammar : ∀ r₀, v₀.found s.key = some (.ok r₀) →
        r₀.params.sameDialect s.params = false ∧ cache = .corrupt) :
      Ends tokenizer s v₀ v (.analyzed file s.key cache suppressed)
  | skipped (warning : ScanWarning) {failure : Failure}
      (htokens : tokenizer s.source s.language s.path = .error failure) :
      Ends tokenizer s v₀ v (.skipped warning)

theorem Ends.grows {o : FileOutcome} (hv : v.Grows made v') (h : Ends tokenizer s v₀ v o) :
    Ends tokenizer s v₀ v' o := by
  cases h with
  | hit file suppressed hfound hgrammar =>
      exact .hit file suppressed (hv.keeps _ _ hfound) hgrammar
  | computed file cache suppressed htokens hfound hcache hgrammar =>
      exact .computed file cache suppressed htokens (hv.keeps _ _ hfound) hcache hgrammar
  | skipped warning htokens => exact .skipped warning htokens

theorem leads_finish (tokens : List Token) (hashes : List Nat) {cache : CacheOutcome}
    (h : ∀ v', v.Grows made v' → Ends tokenizer s v₀ v'
      (.analyzed ⟨s.path, s.language, s.source, tokens, hashes⟩ s.key cache s.suppressed)) :
    (finish s tokens hashes cache).Leads made (Ends tokenizer s v₀) v := by
  intro v' hv' now
  exact h _ (hv'.trans (.of_found_eq rfl))

/-- A file that computes its tokens finds a record under its key in the end: its own, or the one
that kept it from being written. -/
theorem leads_compute
    (hread : ∀ tokens, tokenizer s.source s.language s.path = .ok tokens →
      CacheRecord.ofJson (s.record tokens).toJson = .ok (s.record tokens))
    (hsound : ∀ fault, v.found s.key ≠ some (.error fault)) {cache : CacheOutcome}
    (hcache : cache ≠ .hit)
    (hgrammar : ∀ r₀, v₀.found s.key = some (.ok r₀) →
      r₀.params.sameDialect s.params = false ∧ cache = .corrupt) :
    (compute tokenizer s cache).Leads made (Ends tokenizer s v₀) v := by
  unfold compute
  cases htokens : tokenizer s.source s.language s.path with
  | error failure => exact .skipped _ htokens
  | ok tokens =>
      intro v' hv' now
      have hput : ∃ r, (v'.step .plain now (.put s.key (s.record tokens).toJson)).2.found s.key =
          some (.ok r) := by
        rcases hfound : v'.found s.key with _ | (fault | r)
        · rw [StoreView.found_put now _ hfound, Function.update_self, hread tokens htokens]
          exact ⟨_, rfl⟩
        · exact absurd (hv'.errors _ _ hfound) (hsound fault)
        · rw [StoreView.found_put_of_some now _ hfound]
          exact ⟨r, hfound⟩
      obtain ⟨r, hr⟩ := hput
      refine leads_finish tokens _ fun v'' hv'' => ?_
      exact .computed _ cache _ htokens (hv''.keeps _ _ hr) hcache hgrammar

/-- The way of a file, wherever the store stands when it is looked up. -/
theorem leads_resume
    (hread : ∀ tokens, tokenizer s.source s.language s.path = .ok tokens →
      CacheRecord.ofJson (s.record tokens).toJson = .ok (s.record tokens))
    (hv : v₀.Grows made v) :
    (FileTask.call (.get s.key) fun found => resume tokenizer s found).Leads made
      (Ends tokenizer s v₀) v := by
  intro v' hv' now
  have hkeeps := (hv.trans hv').keeps s.key
  rcases hfound : v'.found s.key with _ | (fault | r)
  · have hafter : (v'.step .plain now (.get s.key)).2.found = v'.found :=
      StoreView.found_get now (by simp [hfound])
    have hreply : FileCall.reply v' (.get s.key) = Lookup.miss := by
      rw [FileCall.reply, hfound]
      rfl
    rw [hreply]
    refine leads_compute hread (by simp [FileCall.toStoreCall, hafter, hfound]) (by decide) ?_
    intro r₀ hr₀
    rw [hkeeps r₀ hr₀] at hfound
    cases hfound
  · have hafter := StoreView.found_get_of_error now hfound
    have hreply : FileCall.reply v' (.get s.key) = Lookup.corrupt (.record fault) := by
      rw [FileCall.reply, hfound]
      rfl
    rw [hreply]
    refine leads_compute hread (by simp [FileCall.toStoreCall, hafter]) (by decide) ?_
    intro r₀ hr₀
    rw [hkeeps r₀ hr₀] at hfound
    cases hfound
  · have hafter : (v'.step .plain now (.get s.key)).2.found = v'.found :=
      StoreView.found_get now (by simp [hfound])
    have hreply : FileCall.reply v' (.get s.key) = Lookup.hit r := by
      rw [FileCall.reply, hfound]
      rfl
    rw [hreply]
    simp only [resume]
    split
    case isTrue hgrammar =>
      refine leads_finish _ _ fun v'' hv'' => .hit _ _ (hv''.keeps _ r ?_) hgrammar
      rw [FileCall.toStoreCall, hafter, hfound]
    case isFalse hgrammar =>
      refine leads_compute hread (by simp [FileCall.toStoreCall, hafter, hfound]) (by decide) ?_
      intro r₀ hr₀
      rw [hkeeps r₀ hr₀] at hfound
      cases hfound
      exact ⟨by simpa using hgrammar, rfl⟩

end FileTask

/-! ## Scans on a store that does not fail -/

namespace StoreKind

/-- No store touches the clock. -/
theorem keeps_now (k : StoreKind) (now : Number) : k.Keeps fun _ time => time = now := by
  cases k with
  | memory => exact keeps_memory _
  | shared start => exact keeps_shared start _
  | disk directory =>
      have hnone : ∀ (path : List Text) (bytes : List UInt8),
          FileTree.empty.read path ≠ .ok bytes := by
        intro path bytes hread
        obtain ⟨time, hentry⟩ := FileTree.hasFile_of_read hread
        cases path <;> cases hentry
      have hkeeps := keeps_disk directory .empty now
      have hvacuous : ∀ (t : FileTree) (path : List Text) (bytes : List UInt8),
          ¬ directory <+: path → FileTree.empty.read path = .ok bytes →
            t.read path = .ok bytes := fun t path bytes _ hread => absurd hread (hnone path bytes)
      exact ⟨fun c s hs => (hkeeps.call c s ⟨hs, hvacuous s.files⟩).1,
        fun u s hs => (hkeeps.upkeep u s ⟨hs, hvacuous s.files⟩).1⟩

variable {k : StoreKind} {around : Surroundings k.State} {v : StoreView Json}

/-- A maintenance step is upkeep at the time of its surroundings. -/
theorem Shows.maintain (hs : k.Shows around v) (hnow : around.now.IsFinite) (u : Upkeep) {α : Type}
    {op : StoreM k.State α} (hop : ∀ s, (op.exec s).2 = ((u.perform k.store).exec s).2)
    (step : String) (fallback : α) :
    k.Shows (maintain step op fallback around).2 (v.step .plain around.now u.toStoreCall).2 ∧
      (maintain step op fallback around).2.now = around.now := by
  obtain ⟨notes, hmaintain⟩ := ScanJob.exists_maintain_eq step op fallback around
  obtain ⟨-, hshows⟩ := k.refines around v around.now u.toStoreCall hs ⟨hnow, u.accepts⟩
  rw [← Upkeep.exec_perform, ← hop] at hshows
  rw [hmaintain]
  refine ⟨hshows.of_eq rfl rfl, ?_⟩
  change (op.exec around).2.now = around.now
  rw [hop]
  exact (k.keeps_now around.now).upkeep u around rfl

end StoreKind

theorem exists_of_forall₂ {α β : Type} {R : α → β → Prop} {l : List α} {l' : List β}
    (h : List.Forall₂ R l l') :
    (∀ a ∈ l, ∃ b ∈ l', R a b) ∧ ∀ b ∈ l', ∃ a ∈ l, R a b := by
  induction h with
  | nil => simp
  | cons h _ ih =>
      constructor
      · exact List.forall_mem_cons.mpr ⟨⟨_, List.mem_cons_self, h⟩, fun a ha => by
          obtain ⟨b, hb, hr⟩ := ih.1 a ha
          exact ⟨b, List.mem_cons_of_mem _ hb, hr⟩⟩
      · exact List.forall_mem_cons.mpr ⟨⟨_, List.mem_cons_self, h⟩, fun b hb => by
          obtain ⟨a, ha, hr⟩ := ih.2 b hb
          exact ⟨a, List.mem_cons_of_mem _ ha, hr⟩⟩

namespace ScanJob

/-- What the way of the file of an input depends on, with the clock at its start. -/
def subject? (job : ScanJob) (files : FileTree) (input : ScanInput) : Option FileTask.Subject :=
  FileTask.subject? job.config 0 input (files.read (job.pathOf input))

/-- One of the files of a scan that have tokens. -/
def Analyzes (job : ScanJob) (files : FileTree) (inputs : List ScanInput) (s : FileTask.Subject) :
    Prop :=
  ∃ input ∈ job.included inputs, job.subject? files input = some s ∧
    ∃ tokens, job.tokenizer s.source s.language s.path = .ok tokens

/-- The files of the inputs read as those in a tree. -/
def ReadsAs (job : ScanJob) (files : FileTree) (inputs : List ScanInput) (t : FileTree)
    (_ : Number) : Prop :=
  ∀ input ∈ job.included inputs, t.read (job.pathOf input) = files.read (job.pathOf input)

section

variable {k : StoreKind}

/-- The files of a scan have taken their turns, in any order, on a store that did not fail. -/
structure Pass (job : ScanJob) (files : FileTree) (inputs : List ScanInput)
    (around before : Surroundings k.State) (visits : List Visit) (outcomes : List FileOutcome) :
    Prop where
  steps : ReflTransGen FileStep (⟨around, []⟩ : World k) ⟨before, visits⟩
  visited : Visited (job.ReadsAs files inputs) job (job.included inputs) visits outcomes
  numbers : k = .memory ∨ ∀ v ∈ visits, v.reading.HasExactNumbers
  time : before.now.IsFinite

/-- A scan of some files that leads from one store to another, with its result. -/
def Scans (job : ScanJob) (files : FileTree) (inputs : List ScanInput)
    (around : Surroundings k.State) (result : ScanResult) (around' : Surroundings k.State) : Prop :=
  ∃ before visits outcomes, job.Pass files inputs around before visits outcomes ∧
    job.conclude k.store inputs outcomes before = (.ok result, around')

/-- What becomes of the file of an input. -/
def Ends (job : ScanJob) (files : FileTree) (v₀ v : StoreView Json) (input : ScanInput)
    (o : FileOutcome) : Prop :=
  match job.subject? files input with
  | none => ∃ warning, o = .skipped warning
  | some s => FileTask.Ends job.tokenizer s v₀ v o

/-- A record under the key of a file of the scan, in the grammar of that file, which every store
keeps and which can be read. -/
structure Made (k : StoreKind) (job : ScanJob) (files : FileTree) (inputs : List ScanInput)
    (key : Text) (r : CacheRecord) : Prop where
  file : ∃ s, job.Analyzes files inputs s ∧ key = s.key ∧ r.params = s.params
  keeps : k.shelf.Keeps r.toJson
  reads : CacheRecord.ofJson r.toJson = .ok r

/-- What a scan makes of a store, and what becomes of its files. -/
structure Course (k : StoreKind) (job : ScanJob) (files : FileTree) (inputs : List ScanInput)
    (v₀ v : StoreView Json) (outcomes : List FileOutcome) : Prop where
  grows : v₀.Grows (Made k job files inputs) v
  of_input : ∀ input ∈ job.included inputs, ∃ o ∈ outcomes, job.Ends files v₀ v input o
  of_outcome : ∀ o ∈ outcomes, ∃ input ∈ job.included inputs, job.Ends files v₀ v input o

variable {job : ScanJob} {files : FileTree} {inputs : List ScanInput}
  {around before around' : Surroundings k.State} {visits : List Visit}
  {outcomes : List FileOutcome} {result : ScanResult} {v₀ v : StoreView Json}

theorem subject?_reading {r : Reading} (hjob : r.job = job)
    (hcontent : r.content = files.read (job.pathOf r.input)) :
    r.subject? = (job.subject? files r.input).map fun s =>
      { s with createdAt := millis r.now } := by
  rw [Reading.subject?, subject?, hjob, hcontent]
  unfold FileTask.subject?
  cases Language.ofTag? r.input.language <;> cases files.read (job.pathOf r.input) <;> rfl

theorem ends_grows {made : Text → CacheRecord → Prop} {v' : StoreView Json} {input : ScanInput}
    {o : FileOutcome} (hv : v.Grows made v') (h : job.Ends files v₀ v input o) :
    job.Ends files v₀ v' input o := by
  unfold Ends at h ⊢
  split at h
  · exact h
  · exact h.grows hv

/-- A file of the scan as it begins: it makes its own record at most, and comes to its end. -/
theorem begins {r : Reading} (hjob : r.job = job) (hinput : r.input ∈ job.included inputs)
    (hcontent : r.content = files.read (job.pathOf r.input))
    (hnumbers : k = .memory ∨ r.HasExactNumbers) :
    r.task.Makes (Made k job files inputs) ∧
      ∀ v, v₀.Grows (Made k job files inputs) v →
        r.task.Leads (Made k job files inputs) (fun v o => job.Ends files v₀ v r.input o) v := by
  have hsubject := subject?_reading hjob hcontent
  constructor
  · apply FileTask.makes_start
    intro s tokens hs htokens
    have hkept := Reading.keeps_record hnumbers hs htokens
    rw [show FileTask.subject? _ _ _ _ = _ from hsubject] at hs
    obtain ⟨s₀, hs₀, rfl⟩ := Option.map_eq_some_iff.mp hs
    rw [hjob] at htokens
    exact ⟨⟨s₀, ⟨r.input, hinput, hs₀, tokens, htokens⟩, rfl, rfl⟩, hkept.1, hkept.2⟩
  · intro v hv
    cases hs₀ : job.subject? files r.input with
    | none =>
        rw [hs₀, Option.map_none] at hsubject
        obtain ⟨failure, hskip⟩ := FileTask.exists_start_eq_skip r.job.tokenizer hsubject
        rw [Reading.task, hskip]
        change job.Ends files v₀ v r.input _
        rw [Ends, hs₀]
        exact ⟨_, rfl⟩
    | some s₀ =>
        rw [hs₀, Option.map_some] at hsubject
        rw [Reading.task, FileTask.start_eq r.job.tokenizer hsubject]
        have hleads := FileTask.leads_resume
          (fun tokens htokens => (Reading.keeps_record hnumbers hsubject htokens).2) hv
        refine hleads.mono (fun v v' o hv' h => ?_) (.refl v)
        rw [Ends, hs₀]
        rw [hjob] at h
        -- the time of the record is all that depends on the clock
        cases h.grows hv' with
        | hit file suppressed hfound hgrammar => exact .hit file suppressed hfound hgrammar
        | computed file cache suppressed htokens hfound hcache hgrammar =>
            exact .computed file cache suppressed htokens hfound hcache hgrammar
        | skipped warning htokens => exact .skipped warning htokens

/-- The store where the files of a scan have taken their turns, and what became of each. -/
theorem Pass.exists_ends (hpass : job.Pass files inputs around before visits outcomes)
    (hshows : k.Shows around v₀) :
    ∃ v, v₀.Grows (Made k job files inputs) v ∧ k.Shows before v ∧
      ∀ reading o, ⟨reading, .done o⟩ ∈ visits → job.Ends files v₀ v reading.input o := by
  have hbegin : ∀ r ∈ (⟨before, visits⟩ : World k).readings,
      r.task.Makes (Made k job files inputs) ∧
        ∀ v, v₀.Grows (Made k job files inputs) v →
          r.task.Leads (Made k job files inputs) (fun v o => job.Ends files v₀ v r.input o) v := by
    intro r hr
    obtain ⟨u, hu, rfl⟩ := List.mem_map.mp hr
    obtain ⟨hjob, hinput, t, ht, hcontent⟩ := hpass.visited.readings u hu
    exact begins hjob hinput (hcontent.trans (ht _ hinput))
      (hpass.numbers.imp_right fun h => h u hu)
  have hmade : ∀ key r, Made k job files inputs key r →
      k.shelf.Keeps r.toJson ∧ CacheRecord.ofJson r.toJson = .ok r :=
    fun key r h => ⟨h.keeps, h.reads⟩
  have hstable : ∀ (r : Reading) (v v' : StoreView Json) (o : FileOutcome),
      v.Grows (Made k job files inputs) v' → job.Ends files v₀ v r.input o →
        job.Ends files v₀ v' r.input o := fun r v v' o hv h => ends_grows hv h
  obtain ⟨v, hgrows, hattends⟩ :=
    attends_of_reachable hstable hmade hshows hpass.steps hbegin
  exact ⟨v, hgrows, hattends.shows, fun reading o hu => (hattends.visits _ hu).2⟩

theorem isAborted_of_ends {input : ScanInput} {o : FileOutcome} (h : job.Ends files v₀ v input o) :
    o.isAborted = false := by
  unfold Ends at h
  split at h
  · obtain ⟨warning, rfl⟩ := h
    rfl
  · cases h <;> rfl

theorem Pass.settled (hpass : job.Pass files inputs around before visits outcomes)
    (hshows : k.Shows around v₀) (hwhole : job.abortAfter = none) :
    ∀ o ∈ outcomes, o.isAborted = false := by
  obtain ⟨v, -, -, hends⟩ := hpass.exists_ends hshows
  intro o ho
  obtain ⟨input, -, ⟨hcut, -⟩ | ⟨⟨reading, task⟩, hu, -, rfl⟩⟩ :=
    (exists_of_forall₂ hpass.visited.outcomes).2 o ho
  · exact absurd hwhole hcut
  · exact isAborted_of_ends (hends reading o hu)

theorem Pass.exists_course (hpass : job.Pass files inputs around before visits outcomes)
    (hshows : k.Shows around v₀) (hsettled : ∀ o ∈ outcomes, o.isAborted = false) :
    ∃ v, Course k job files inputs v₀ v outcomes ∧ k.Shows before v := by
  obtain ⟨v, hgrows, hbefore, hends⟩ := hpass.exists_ends hshows
  obtain ⟨hinputs, houtcomes⟩ := exists_of_forall₂ hpass.visited.outcomes
  have hcase : ∀ input, ∀ o ∈ outcomes, ((job.abortAfter ≠ none ∧ o = .aborted) ∨
      ∃ u ∈ visits, u.reading.input = input ∧ u.task = .done o) → job.Ends files v₀ v input o := by
    rintro input o ho (⟨-, rfl⟩ | ⟨⟨reading, task⟩, hu, rfl, rfl⟩)
    · cases hsettled _ ho
    · exact hends reading o hu
  refine ⟨v, ⟨hgrows, fun input hinput => ?_, fun o ho => ?_⟩, hbefore⟩
  · obtain ⟨o, ho, h⟩ := hinputs input hinput
    exact ⟨o, ho, hcase input o ho h⟩
  · obtain ⟨input, hinput, h⟩ := houtcomes o ho
    exact ⟨input, hinput, hcase input o ho h⟩

/-- The upkeep at the end of a scan spares the records of its files. -/
theorem exists_shows_conclude (hshows : k.Shows before v) (hnow : before.now.IsFinite)
    (hend : job.conclude k.store inputs outcomes before = (.ok result, around')) :
    ∃ v', k.Shows around' v' ∧
      ∀ o ∈ outcomes, ∀ key, o.key? = some key → v'.found key = v.found key := by
  have hwhole := settled_of_conclude (congrArg Prod.fst hend)
  have hnone : ¬ 0 < outcomes.countP FileOutcome.isAborted := by
    simpa [List.countP_pos_iff] using hwhole
  have hflush {s : Surroundings k.State} {u : StoreView Json} (hs : k.Shows s u)
      (hs' : s.now.IsFinite) : k.Shows (maintain "flush" k.store.flush () s).2 u :=
    (hs.maintain hs' .flush (fun _ => rfl) "flush" ()).1
  unfold conclude at hend
  simp only [if_neg hnone] at hend
  obtain ⟨-, rfl⟩ := Prod.mk.inj hend
  split
  · set options : PruneOptions := ⟨outcomes.filterMap FileOutcome.key?, job.config.cache.maxAgeDays⟩
    obtain ⟨hpruned, htime⟩ := hshows.maintain hnow (.prune options)
      (Upkeep.exec_prune k.store options) "prune" 0
    refine ⟨_, (hflush hpruned (htime ▸ hnow)).of_eq rfl rfl, fun o ho key hkey => ?_⟩
    exact StoreView.found_prune_of_live v before.now (List.mem_filterMap.mpr ⟨o, ho, hkey⟩)
  · exact ⟨v, (hflush hshows hnow).of_eq rfl rfl, fun _ _ _ _ => rfl⟩

theorem Scans.exists_course (hscan : job.Scans files inputs around result around')
    (hshows : k.Shows around v₀) :
    ∃ v v' outcomes pruned, Course k job files inputs v₀ v outcomes ∧ k.Shows around' v' ∧
      (∀ o ∈ outcomes, ∀ key, o.key? = some key → v'.found key = v.found key) ∧
      result = job.report (uniqueInputs inputs) (job.included inputs) outcomes pruned := by
  obtain ⟨before, visits, outcomes, hpass, hend⟩ := hscan
  have hwhole := settled_of_conclude (congrArg Prod.fst hend)
  obtain ⟨v, hcourse, hbefore⟩ := hpass.exists_course hshows hwhole
  obtain ⟨v', hafter, hspared⟩ := exists_shows_conclude hbefore hpass.time hend
  obtain ⟨pruned, hresult⟩ := conclude_of_settled k.store inputs before hwhole
  rw [hend] at hresult
  exact ⟨v, v', outcomes, pruned, hcourse, hafter, hspared, Except.ok.inj hresult⟩

/-! ### The records of analyzed files -/

section

variable {s : FileTask.Subject}

theorem Analyzes.isKey (hs : job.Analyzes files inputs s) : DiskStore.isKey s.key = true := by
  obtain ⟨input, -, hsubject, -⟩ := hs
  exact FileTask.isKey_subject hsubject

/-- The key of a file tells its dialect, but not its language. -/
theorem Analyzes.sameDialect_iff {s' : FileTask.Subject} (hs : job.Analyzes files inputs s)
    (hs' : job.Analyzes files inputs s') (hkey : s'.key = s.key) :
    s'.params.sameDialect s.params = true ↔ s'.language = s.language := by
  obtain ⟨input, -, hsubject, -⟩ := hs
  obtain ⟨input', -, hsubject', -⟩ := hs'
  obtain ⟨language, bytes, -, -, rfl⟩ := FileTask.eq_subject hsubject
  obtain ⟨language', bytes', -, -, rfl⟩ := FileTask.eq_subject hsubject'
  rw [RecordParams.sameDialect_iff]
  exact and_iff_left (cacheKey_injective hkey)

variable (hcourse : Course k job files inputs v₀ v outcomes) (hs : job.Analyzes files inputs s)

include hcourse hs

/-- A file that has tokens is analyzed, and there is a record under its key in the end. -/
theorem Course.exists_found :
    (∃ r, v.found s.key = some (.ok r)) ∧ ∃ o ∈ outcomes, o.key? = some s.key := by
  obtain ⟨input, hinput, hsubject, tokens, htokens⟩ := hs
  obtain ⟨o, ho, hends⟩ := hcourse.of_input input hinput
  rw [Ends, hsubject] at hends
  cases hends with
  | hit file suppressed hfound => exact ⟨⟨_, hfound⟩, _, ho, rfl⟩
  | computed file cache suppressed _ hfound => exact ⟨⟨_, hfound⟩, _, ho, rfl⟩
  | skipped warning hfailed =>
      rw [htokens] at hfailed
      cases hfailed

/-- A record of another grammar makes the file count as corrupt. -/
theorem Course.exists_corrupt {r : CacheRecord} (hr : v₀.found s.key = some (.ok r))
    (hgrammar : r.params.sameDialect s.params = false) :
    ∃ o ∈ outcomes, o.hasCache .corrupt = true := by
  obtain ⟨input, hinput, hsubject, tokens, htokens⟩ := hs
  obtain ⟨o, ho, hends⟩ := hcourse.of_input input hinput
  rw [Ends, hsubject] at hends
  cases hends with
  | @hit file suppressed r' hfound hsame =>
      have heq : r' = r := by
        rw [hcourse.grows.keeps _ _ hr] at hfound
        cases hfound
        rfl
      rw [heq, hgrammar] at hsame
      cases hsame
  | computed file cache suppressed _ _ _ htold =>
      obtain ⟨-, rfl⟩ := htold r hr
      exact ⟨_, ho, rfl⟩
  | skipped warning hfailed =>
      rw [htokens] at hfailed
      cases hfailed

end

/-- On a store with a record for every file that has tokens, nothing is missed, and a file counts as
corrupt only for a record of another grammar. -/
theorem Course.hasCache (hcourse : Course k job files inputs v₀ v outcomes)
    (hwarm : ∀ s, job.Analyzes files inputs s → ∃ r, v₀.found s.key = some (.ok r)) :
    ∀ o ∈ outcomes, o.hasCache .miss = false ∧
      (o.hasCache .corrupt = true → ∃ s r, job.Analyzes files inputs s ∧
        v₀.found s.key = some (.ok r) ∧ r.params.sameDialect s.params = false) := by
  intro o ho
  obtain ⟨input, hinput, hends⟩ := hcourse.of_outcome o ho
  unfold Ends at hends
  split at hends
  case h_1 =>
      obtain ⟨warning, rfl⟩ := hends
      exact ⟨rfl, nofun⟩
  case h_2 s hsubject =>
      cases hends with
      | hit file suppressed => exact ⟨rfl, nofun⟩
      | computed file cache suppressed htokens _ _ htold =>
          have hs : job.Analyzes files inputs s := ⟨input, hinput, hsubject, _, htokens⟩
          obtain ⟨r, hr⟩ := hwarm s hs
          obtain ⟨hgrammar, rfl⟩ := htold r hr
          exact ⟨rfl, fun _ => ⟨s, r, hs, hr, hgrammar⟩⟩
      | skipped warning => exact ⟨rfl, nofun⟩

/-- Nothing is missed on such a store, and nothing counts as corrupt if and only if every file can use
the record under its key. -/
theorem Course.countP_hasCache (hcourse : Course k job files inputs v₀ v outcomes)
    (hwarm : ∀ s, job.Analyzes files inputs s → ∃ r, v₀.found s.key = some (.ok r)) :
    outcomes.countP (FileOutcome.hasCache .miss) = 0 ∧
      (outcomes.countP (FileOutcome.hasCache .corrupt) = 0 ↔
        ∀ s, job.Analyzes files inputs s → ∀ r, v₀.found s.key = some (.ok r) →
          r.params.sameDialect s.params = true) := by
  have hcache := hcourse.hasCache hwarm
  simp only [List.countP_eq_zero]
  refine ⟨fun o ho => by simp [(hcache o ho).1], ?_, ?_⟩
  · intro hnone s hs r hr
    by_contra hgrammar
    obtain ⟨o, ho, hbad⟩ := hcourse.exists_corrupt hs hr (by simpa using hgrammar)
    exact hnone o ho hbad
  · intro hall o ho hbad
    obtain ⟨s, r, hs, hr, hgrammar⟩ := (hcache o ho).2 hbad
    rw [hall s hs r hr] at hgrammar
    cases hgrammar

/-- Every file can use the record that a scan leaves under its key if and only if it could use the
one from before, and no other file of the scan has its key in another language. -/
theorem Course.usable_iff (hcourse : Course k job files inputs v₀ v outcomes) :
    (∀ s, job.Analyzes files inputs s → ∀ r, v.found s.key = some (.ok r) →
        r.params.sameDialect s.params = true) ↔
      ∀ s, job.Analyzes files inputs s →
        (∀ r, v₀.found s.key = some (.ok r) → r.params.sameDialect s.params = true) ∧
        ∀ s', job.Analyzes files inputs s' → s'.key = s.key → s'.language = s.language := by
  constructor
  · intro hall s hs
    refine ⟨fun r hr => hall s hs r (hcourse.grows.keeps _ _ hr), fun s' hs' hkey => ?_⟩
    -- both files can use the one record under their key
    obtain ⟨⟨r, hr⟩, -⟩ := hcourse.exists_found hs
    have hone := (RecordParams.sameDialect_iff _ _).mp (hall s hs r hr)
    have htwo := (RecordParams.sameDialect_iff _ _).mp (hall s' hs' r (hkey ▸ hr))
    rw [← Analyzes.sameDialect_iff hs hs' hkey, RecordParams.sameDialect_iff]
    exact ⟨htwo.1.symm.trans hone.1, htwo.2.symm.trans hone.2⟩
  · intro hall s hs r hr
    obtain ⟨hbefore, hothers⟩ := hall s hs
    rcases hcourse.grows.adds _ _ hr with hold | hmade
    · exact hbefore r hold
    · obtain ⟨s', hs', hkey, hparams⟩ := hmade.file
      rw [hparams, Analyzes.sameDialect_iff hs hs' hkey.symm]
      exact hothers s' hs' hkey.symm

/-- **A scan warms the store for the next, but for files in two languages.**  After a scan on a
store in service there is a usable record under the key of every file with tokens, and the ones from
before are still there.  A second scan of the same files misses nothing.  It hits for every file that
it analyzes if and only if no record from before under the key of a file has another grammar, and no
two of the files have one key and two languages. -/
theorem second_scan_hits_iff {w : World k} (hw : w.InService)
    {first second : ScanResult} {between after : Surroundings k.State}
    (hfirst : job.Scans files inputs w.around first between)
    (hsecond : job.Scans files inputs between second after) :
    (∀ s, job.Analyzes files inputs s → (∃ r, k.Holds between s.key r) ∧
        ∀ r, k.Holds w.around s.key r → k.Holds between s.key r) ∧
      second.stats.cacheMisses = 0 ∧
      (second.stats.cacheHits = second.stats.filesScanned ∧ second.stats.cacheCorrupt = 0 ↔
        ∀ s, job.Analyzes files inputs s →
          (∀ r, k.Holds w.around s.key r → r.params.sameDialect s.params = true) ∧
          ∀ s', job.Analyzes files inputs s' → s'.key = s.key → s'.language = s.language) := by
  obtain ⟨v₀, hv₀⟩ := hw.exists_shows
  obtain ⟨v₁, v₂, outcomes, pruned, hcourse, hv₂, hspared, -⟩ := hfirst.exists_course hv₀
  obtain ⟨v₃, v₄, outcomes', pruned', hcourse', -, -, hreport⟩ := hsecond.exists_course hv₂
  -- what the first scan leaves under the key of a file is what its upkeep spares
  have hfound : ∀ s, job.Analyzes files inputs s → v₂.found s.key = v₁.found s.key := by
    intro s hs
    obtain ⟨-, o, ho, hkey⟩ := hcourse.exists_found hs
    exact hspared o ho s.key hkey
  have hwarm : ∀ s, job.Analyzes files inputs s → ∃ r, v₂.found s.key = some (.ok r) := by
    intro s hs
    rw [hfound s hs]
    exact (hcourse.exists_found hs).1
  obtain ⟨hmisses, hcorrupt⟩ := hcourse'.countP_hasCache hwarm
  have hcount := count_cache outcomes'
  refine ⟨fun s hs => ?_, by rw [hreport]; exact hmisses, ?_⟩
  · simp only [StoreKind.holds_iff hv₂ hs.isKey, StoreKind.holds_iff hv₀ hs.isKey]
    refine ⟨hwarm s hs, fun r hr => ?_⟩
    rw [hfound s hs]
    exact hcourse.grows.keeps _ _ hr
  · calc second.stats.cacheHits = second.stats.filesScanned ∧ second.stats.cacheCorrupt = 0
        ↔ outcomes'.countP (FileOutcome.hasCache .corrupt) = 0 := by
          subst hreport
          change outcomes'.countP (FileOutcome.hasCache .hit) =
            (outcomes'.filterMap FileOutcome.file?).length ∧
              outcomes'.countP (FileOutcome.hasCache .corrupt) = 0 ↔ _
          omega
      _ ↔ ∀ s, job.Analyzes files inputs s → ∀ r, v₁.found s.key = some (.ok r) →
            r.params.sameDialect s.params = true := by
          rw [hcorrupt]
          exact forall₂_congr fun s hs => by rw [hfound s hs]
      _ ↔ _ := by
          rw [hcourse.usable_iff]
          refine forall₂_congr fun s hs => ?_
          simp only [StoreKind.holds_iff hv₀ hs.isKey]

/-! ### Scans that run by themselves -/

theorem takesTurns_fileStep {P : FileTree → Number → Prop}
    (hP : ∀ t now, P t now → now.IsFinite) : TakesTurns P (@FileStep k) where
  begin := .begin
  say := fun around visits reading note next => .say around visits [] reading note next
  call := fun around visits reading _ next h => .call around visits [] reading next (hP _ _ h)

/-- A scan that runs by itself and is not cut short comes to its end. -/
theorem exists_scans_run {P : FileTree → Number → Prop} (hk : k.Keeps P)
    (hshows : k.Shows around v₀) (haround : P around.files around.now)
    (hP : ∀ t now, P t now → job.ReadsAs files inputs t now ∧ now.IsFinite)
    (hnumbers : k = .memory ∨ ∀ r : Reading, r.job = job → r.input ∈ job.included inputs →
      r.content = files.read (job.pathOf r.input) → (∃ t, P t r.now) → r.HasExactNumbers)
    (hwhole : job.abortAfter = none) :
    ∃ result, (job.run k.store inputs around).1 = .ok result ∧
      job.Scans files inputs around result (job.run k.store inputs around).2 ∧
      P (job.run k.store inputs around).2.files (job.run k.store inputs around).2.now := by
  have hturns : TakesTurns P (@FileStep k) := takesTurns_fileStep fun t now h => (hP t now h).2
  obtain ⟨visits, hsteps, hbefore, hvisited⟩ :=
    runFiles_reachable hturns hk job (job.included inputs) ⟨around, 0⟩ [] haround
  set ran := job.runFiles k.store ⟨around, 0⟩ (job.included inputs)
  have hreads : Visited (job.ReadsAs files inputs) job (job.included inputs) visits ran.1 := by
    refine ⟨fun u hu => ?_, hvisited.outcomes⟩
    obtain ⟨hjob, hinput, t, ht, hcontent⟩ := hvisited.readings u hu
    exact ⟨hjob, hinput, t, (hP t _ ht).1, hcontent⟩
  have hexact : k = .memory ∨ ∀ u ∈ visits, u.reading.HasExactNumbers := by
    refine hnumbers.imp_right fun h u hu => ?_
    obtain ⟨hjob, hinput, t, ht, hcontent⟩ := hvisited.readings u hu
    exact h u.reading hjob hinput (hcontent.trans ((hP t _ ht).1 _ hinput)) ⟨t, ht⟩
  have hpass : job.Pass files inputs around ran.2.around visits ran.1 :=
    ⟨hsteps, hreads, hexact, (hP _ _ hbefore).2⟩
  obtain ⟨pruned, hresult⟩ := conclude_of_settled k.store inputs ran.2.around
    (hpass.settled hshows hwhole)
  exact ⟨_, hresult, ⟨ran.2.around, visits, ran.1, hpass, Prod.ext hresult rfl⟩,
    (conclude_reachable hk job inputs ran.1 hbefore visits).2⟩

end

/-- A scan of the twin files on a server. -/
theorem exists_scans_twinFiles {around : Surroundings (StoreKind.shared []).State}
    {v : StoreView Json} (hshows : (StoreKind.shared []).Shows around v)
    (haround : around.files = twinFiles ∧ around.now = .finite 1) :
    ∃ result, ((twinJob 2).run (StoreKind.shared []).store twinInputs around).1 = .ok result ∧
      (twinJob 2).Scans twinFiles twinInputs around result
        ((twinJob 2).run (StoreKind.shared []).store twinInputs around).2 ∧
      ((twinJob 2).run (StoreKind.shared []).store twinInputs around).2.files = twinFiles ∧
      ((twinJob 2).run (StoreKind.shared []).store twinInputs around).2.now = .finite 1 := by
  have hkeeps := StoreKind.keeps_shared [] fun t now => t = twinFiles ∧ now = .finite 1
  have hfinite : (Number.finite 1).IsFinite := by
    simpa [clock] using clock_isFinite (n := 1) (by decide)
  refine exists_scans_run hkeeps hshows haround ?_ (.inr ?_) rfl
  · rintro t now ⟨rfl, rfl⟩
    exact ⟨fun input _ => rfl, hfinite⟩
  · rintro r hjob hinput hcontent ⟨t, -, hnow⟩
    have htwin : IsTwin 2 r := ⟨hjob, hinput, hcontent.trans (read_twinFiles 2 hinput), hnow⟩
    exact htwin.hasExactNumbers (by decide)

/-- Two scans of the twin files on a new server. -/
def repeatedScans : Except Failure ScanResult × Surroundings ServerData :=
  (twinJob 2).run (sharedStore []) twinInputs
    ((twinJob 2).run (sharedStore []) twinInputs (twinAround .empty)).2

theorem language_of_analyzes_twinFiles {s : FileTask.Subject}
    (hs : (twinJob 2).Analyzes twinFiles twinInputs s) : s.language = .python := by
  obtain ⟨input, hinput, hsubject, -⟩ := hs
  obtain ⟨language, bytes, hlanguage, -, rfl⟩ := FileTask.eq_subject hsubject
  rcases List.mem_pair.mp (List.mem_of_mem_filter hinput) with rfl | rfl <;>
    exact (Option.some.inj hlanguage).symm

theorem second_scan_hits_iff_twinFiles :
    ∃ second, repeatedScans.1 = .ok second ∧ second.stats.filesScanned = 2 ∧
      second.stats.cacheMisses = 0 ∧ second.stats.cacheHits = second.stats.filesScanned ∧
      second.stats.cacheCorrupt = 0 := by
  have hcount : (repeatedScans.1.toOption.any fun r => r.stats.filesScanned == 2) = true := by
    decide +kernel
  have hnew : (StoreKind.shared []).IsNew (twinAround ServerData.empty) := rfl
  have hw : (⟨twinAround ServerData.empty, []⟩ : World (.shared [])).InService :=
    ⟨⟨_, hnew, .refl⟩, .inr (by simp [World.readings])⟩
  have hshows := StoreKind.shows_of_isNew hnew
  obtain ⟨first, -, hfirst, hbetween⟩ := exists_scans_twinFiles hshows ⟨rfl, rfl⟩
  obtain ⟨_, v, _, _, -, hshows', -⟩ := hfirst.exists_course hshows
  obtain ⟨second, hresult, hsecond, -⟩ := exists_scans_twinFiles hshows' hbetween
  obtain ⟨-, hmisses, hhits⟩ := second_scan_hits_iff hw hfirst hsecond
  obtain ⟨hall, hcorrupt⟩ := hhits.mpr fun s hs => by
    refine ⟨?_, fun s' hs' _ => ?_⟩
    · rintro r ⟨t, ht, -⟩
      cases ht
    · rw [language_of_analyzes_twinFiles hs, language_of_analyzes_twinFiles hs']
  refine ⟨second, hresult, ?_, hmisses, hall, hcorrupt⟩
  rw [show repeatedScans.1 = .ok second from hresult] at hcount
  simpa [Except.toOption] using hcount

/-- A file that is a script in both script languages, of the same dialect in each. -/
def scriptAround : Surroundings MemoryState :=
  ⟨⟨[([Text.ofString "a.js"], .file [0x61] none)]⟩, .empty, .finite 1, []⟩

def scriptScan (language : String) (around : Surroundings MemoryState) :
    Except Failure ScanResult × Surroundings MemoryState :=
  (twinJob 2).run memoryStore [⟨Text.ofString "a.js", Text.ofString language⟩] around

/-- After a scan in one language, each scan in the other finds the record of the first. -/
theorem second_scan_corrupt_otherLanguage :
    let before := (scriptScan "typescript" scriptAround).2
    let between := (scriptScan "javascript" before).2
    ∃ first second, (scriptScan "javascript" before).1 = .ok first ∧
      (scriptScan "javascript" between).1 = .ok second ∧ first.stats.cacheCorrupt = 1 ∧
      second.stats.filesScanned = 1 ∧ second.stats.cacheHits = 0 ∧
      second.stats.cacheCorrupt = 1 := by
  intro before between
  have hfirst : ((scriptScan "javascript" before).1.toOption.any fun first =>
      first.stats.cacheCorrupt == 1) = true := by
    decide +kernel
  have hsecond : ((scriptScan "javascript" between).1.toOption.any fun second =>
      second.stats.filesScanned == 1 && second.stats.cacheHits == 0 &&
        second.stats.cacheCorrupt == 1) = true := by
    decide +kernel
  obtain ⟨first, hresult, hfirst⟩ := exists_of_any_toOption hfirst
  obtain ⟨second, hresult', hsecond⟩ := exists_of_any_toOption hsecond
  simp only [Bool.and_eq_true, beq_iff_eq] at hfirst hsecond
  exact ⟨first, second, hresult, hresult', hfirst, hsecond.1.1, hsecond.1.2, hsecond.2⟩

end ScanJob

end CloneScan
