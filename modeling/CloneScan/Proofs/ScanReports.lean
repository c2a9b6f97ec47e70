import CloneScan.Proofs.CacheTransparency
import CloneScan.Proofs.DetectedViolations

/-!
# What a scan reports

A completed scan says of every file that it read either what is duplicated in it or why it was left
out.  A file that fails, for its language, its content or its tokens, becomes one warning and has no
other effect: the violations are those of a scan of the other files, and the numbers add up.
-/

namespace CloneScan

open Relation

/-! ## Scans on a store in use -/

/-- A store in use: it began empty, and everything since was done by scans with one tokenizer that
met no two contents of one digest. -/
structure World.InUse {k : StoreKind} (tokenizer : Tokenizer) (w : World k) : Prop where
  began : ∃ around : Surroundings k.State, (∀ key r, ¬ k.Holds around key r) ∧
    ReflTransGen Step ⟨around, []⟩ w
  tokenizer : ∀ r ∈ w.readings, r.job.tokenizer = tokenizer
  digests : Set.InjOn contentHash w.contents
  numbers : k = .memory ∨ ∀ r ∈ w.readings, r.HasExactNumbers

theorem World.InUse.consistent {k : StoreKind} {tokenizer : Tokenizer} {w : World k}
    (htokenizer : FollowsDialect tokenizer) (hw : w.InUse tokenizer) :
    Consistent tokenizer w.contents w := by
  obtain ⟨around, hempty, hreach⟩ := hw.began
  refine consistent_of_reachable htokenizer hw.digests hreach (consistent_of_empty hempty) ?_
  intro r hr
  exact ⟨hw.tokenizer r hr, fun bytes hbytes => ⟨r, hr, hbytes⟩,
    hw.numbers.imp_right fun h => h r hr⟩

/-- Nothing is read by upkeep or elsewhere, so the store is still in use. -/
theorem World.InUse.after {k : StoreKind} {tokenizer : Tokenizer} {w w' : World k}
    (hw : w.InUse tokenizer) (hreach : ReflTransGen Step w w') (hvisits : w'.visits = w.visits) :
    w'.InUse tokenizer := by
  have hreadings : w'.readings = w.readings := congrArg (List.map Visit.reading) hvisits
  have hcontents : w'.contents = w.contents := by
    simp only [World.contents, hreadings]
  obtain ⟨around, hempty, hbegan⟩ := hw.began
  refine ⟨⟨around, hempty, hbegan.trans hreach⟩, ?_, hcontents ▸ hw.digests, ?_⟩
  · rw [hreadings]
    exact hw.tokenizer
  · rw [hreadings]
    exact hw.numbers

theorem World.inUse_new {k : StoreKind} (tokenizer : Tokenizer) {around : Surroundings k.State}
    (hempty : ∀ key r, ¬ k.Holds around key r) :
    World.InUse tokenizer (⟨around, []⟩ : World k) :=
  ⟨⟨around, hempty, .refl⟩, by simp [World.readings], by simp [World.contents, World.readings],
    .inr (by simp [World.readings])⟩

namespace ScanJob

/-- A scan of some files that came to its end on a store in use.  The upkeep at its end may succeed
or fail, so it is that of any store. -/
def Completes {k : StoreKind} (job : ScanJob) (files : FileTree) (w : World k)
    (inputs : List ScanInput) (result : ScanResult) : Prop :=
  ∃ (store : CacheStore k.State) (outcomes : List FileOutcome) (around : Surroundings k.State),
    List.Forall₂ (job.Settled files w) (job.included inputs) outcomes ∧
      (job.conclude store inputs outcomes around).1 = .ok result

/-! ## Files that fail -/

/-- Why a file is left out, if it is. -/
def failure? (job : ScanJob) (files : FileTree) (input : ScanInput) : Option Failure :=
  match Language.ofTag? input.language with
  | none => some (.unsupportedLanguage input.language (some input.path))
  | some language =>
    match files.read (job.pathOf input) with
    | .error fault => some (.fileRead input.path fault.code)
    | .ok bytes =>
      match job.tokenizer (Text.ofUtf8 bytes) language input.path with
      | .error failure => some failure
      | .ok _ => none

/-- The warning about a file, if it fails. -/
def warning? (job : ScanJob) (files : FileTree) (input : ScanInput) : Option ScanWarning :=
  (job.failure? files input).map fun failure => ⟨input.path, failure.code, failure.message⟩

/-- The files of a scan that do not fail. -/
def remaining (job : ScanJob) (files : FileTree) (inputs : List ScanInput) : List ScanInput :=
  (job.included inputs).filter fun input => (job.failure? files input).isNone

section

variable {job : ScanJob} {files : FileTree} {input : ScanInput}

theorem uncached_of_failure {failure : Failure} (h : job.failure? files input = some failure) :
    job.uncached files input = .skipped ⟨input.path, failure.code, failure.message⟩ := by
  unfold failure? at h
  unfold uncached FileTask.start
  cases hlanguage : Language.ofTag? input.language with
  | none =>
      rw [hlanguage] at h
      obtain rfl := Option.some.inj h
      rfl
  | some language =>
      cases hread : files.read (job.pathOf input) with
      | error fault =>
          rw [hlanguage, hread] at h
          obtain rfl := Option.some.inj h
          rfl
      | ok bytes =>
          rw [hlanguage, hread] at h
          simp only [FileTask.uncached, FileTask.resume, FileTask.compute, FileTask.subject]
          cases htokens : job.tokenizer (Text.ofUtf8 bytes) language input.path with
          | error failure' =>
              simp only [htokens, Option.some.injEq] at h
              rw [h]
              rfl
          | ok tokens => simp [htokens] at h

theorem uncached_of_sound (h : job.failure? files input = none) :
    ∃ file key suppressed, job.uncached files input = .analyzed file key .miss suppressed := by
  unfold failure? at h
  unfold uncached FileTask.start
  cases hlanguage : Language.ofTag? input.language with
  | none => simp [hlanguage] at h
  | some language =>
      cases hread : files.read (job.pathOf input) with
      | error fault => simp [hlanguage, hread] at h
      | ok bytes =>
          rw [hlanguage, hread] at h
          simp only [FileTask.uncached, FileTask.resume, FileTask.compute, FileTask.subject]
          cases htokens : job.tokenizer (Text.ofUtf8 bytes) language input.path with
          | error failure => simp [htokens] at h
          | ok tokens => exact ⟨_, _, _, rfl⟩

theorem warning?_uncached (job : ScanJob) (files : FileTree) (input : ScanInput) :
    (job.uncached files input).warning? = job.warning? files input := by
  unfold warning?
  cases h : job.failure? files input with
  | none =>
      obtain ⟨file, key, suppressed, huncached⟩ := uncached_of_sound h
      rw [huncached]
      rfl
  | some failure =>
      rw [uncached_of_failure h]
      rfl

end

/-! ## Completed scans -/

/-- What is duplicated in files when nothing is stored. -/
def findings (job : ScanJob) (files : FileTree) (inputs : List ScanInput) : List Violation :=
  (job.report inputs inputs (inputs.map (job.uncached files)) 0).violations

/-- A file that fails has no tokens and suppresses nothing. -/
theorem outcomes_filter (job : ScanJob) (files : FileTree) (inputs : List ScanInput) :
    let kept := inputs.filter fun input => (job.failure? files input).isNone
    (kept.map (job.uncached files)).filterMap FileOutcome.file? =
        (inputs.map (job.uncached files)).filterMap FileOutcome.file? ∧
      (kept.map (job.uncached files)).flatMap FileOutcome.suppressed =
        (inputs.map (job.uncached files)).flatMap FileOutcome.suppressed := by
  induction inputs with
  | nil => exact ⟨rfl, rfl⟩
  | cons input rest ih =>
      obtain ⟨hfiles, hsuppressed⟩ := ih
      cases h : job.failure? files input with
      | none =>
          simp only [h, Option.isNone_none, List.filter_cons_of_pos, List.map_cons,
            List.filterMap_cons, List.flatMap_cons, hfiles, hsuppressed, and_self]
      | some failure =>
          have hskipped := uncached_of_failure h
          simp only [h, Option.isNone_some, Bool.false_eq_true, not_false_eq_true,
            List.filter_cons_of_neg, List.map_cons, hskipped, FileOutcome.file?,
            FileOutcome.suppressed, List.filterMap_cons, List.flatMap_cons,
            List.nil_append, hfiles, hsuppressed, and_self]

theorem findings_filter (job : ScanJob) (files : FileTree) (inputs : List ScanInput) :
    job.findings files (inputs.filter fun input => (job.failure? files input).isNone) =
      job.findings files inputs := by
  obtain ⟨hfiles, hsuppressed⟩ := outcomes_filter job files inputs
  simp only [findings, report, hfiles, hsuppressed]

section

variable {k : StoreKind} {tokenizer : Tokenizer} {w : World k} {job : ScanJob}
  {files : FileTree} {inputs : List ScanInput} {result : ScanResult}

/-- A completed scan reports on outcomes that its files would have with nothing stored. -/
theorem Completes.report (htokenizer : FollowsDialect tokenizer) (hw : w.InUse tokenizer)
    (hscan : job.Completes files w inputs result) :
    ∃ outcomes pruned,
      result = job.report (uniqueInputs inputs) (job.included inputs) outcomes pruned ∧
      List.Forall₂ (fun input o => o.Agrees (job.uncached files input))
        (job.included inputs) outcomes := by
  obtain ⟨store, outcomes, around, hsettled, hresult⟩ := hscan
  have hwhole := settled_of_conclude hresult
  obtain ⟨pruned, hconclude⟩ := conclude_of_settled store inputs around hwhole
  exact ⟨outcomes, pruned, Except.ok.inj (hresult.symm.trans hconclude),
    agrees_of_settled (hw.consistent htokenizer) hsettled hwhole⟩

theorem forall₂_agrees_map (job : ScanJob) (files : FileTree) (inputs : List ScanInput) :
    List.Forall₂ (fun input o => o.Agrees (job.uncached files input)) inputs
      (inputs.map (job.uncached files)) := by
  induction inputs with
  | nil => exact .nil
  | cons input rest ih => exact .cons ⟨rfl, rfl, rfl, rfl⟩ ih

/-- A report on such outcomes has the findings and the warnings of the files. -/
theorem report_of_agrees (unique : List ScanInput) {included : List ScanInput}
    {outcomes : List FileOutcome} (pruned : Nat)
    (hagrees : List.Forall₂ (fun input o => o.Agrees (job.uncached files input)) included
      outcomes) :
    (job.report unique included outcomes pruned).violations = job.findings files included ∧
      (job.report unique included outcomes pruned).warnings =
        included.filterMap (job.warning? files) := by
  have hsame := agrees_of_agrees hagrees (forall₂_agrees_map job files included)
  obtain ⟨hviolations, hwarnings⟩ := report_eq_of_agrees job unique included pruned 0 hsame
  refine ⟨hviolations, hwarnings.trans ?_⟩
  calc
    (included.map (job.uncached files)).filterMap FileOutcome.warning?
        = included.filterMap fun input => (job.uncached files input).warning? :=
          List.filterMap_map
    _ = included.filterMap (job.warning? files) := by simp only [warning?_uncached]

theorem Completes.violations (htokenizer : FollowsDialect tokenizer) (hw : w.InUse tokenizer)
    (hscan : job.Completes files w inputs result) :
    result.violations = job.findings files (job.included inputs) := by
  obtain ⟨outcomes, pruned, rfl, hagrees⟩ := hscan.report htokenizer hw
  exact (report_of_agrees _ pruned hagrees).1

theorem Completes.warnings (htokenizer : FollowsDialect tokenizer) (hw : w.InUse tokenizer)
    (hscan : job.Completes files w inputs result) :
    result.warnings = (job.included inputs).filterMap (job.warning? files) := by
  obtain ⟨outcomes, pruned, rfl, hagrees⟩ := hscan.report htokenizer hw
  exact (report_of_agrees _ pruned hagrees).2

end

/-! ## Numbers -/

theorem count_outcomes {outcomes : List FileOutcome}
    (hwhole : ∀ o ∈ outcomes, o.isAborted = false) :
    outcomes.length = (outcomes.filterMap FileOutcome.file?).length +
      (outcomes.filterMap FileOutcome.warning?).length := by
  induction outcomes with
  | nil => rfl
  | cons o rest ih =>
      have hrest := ih fun o' ho' => hwhole o' (List.mem_cons_of_mem o ho')
      cases o with
      | analyzed file key cache suppressed =>
          simp only [List.length_cons, List.filterMap_cons, FileOutcome.file?,
            FileOutcome.warning?, hrest]
          omega
      | skipped warning =>
          simp only [List.length_cons, List.filterMap_cons, FileOutcome.file?,
            FileOutcome.warning?, hrest]
          omega
      | aborted => cases hwhole .aborted List.mem_cons_self

theorem count_cache (outcomes : List FileOutcome) :
    (outcomes.filterMap FileOutcome.file?).length =
      outcomes.countP (FileOutcome.hasCache .hit) + outcomes.countP (FileOutcome.hasCache .miss) +
        outcomes.countP (FileOutcome.hasCache .corrupt) := by
  induction outcomes with
  | nil => rfl
  | cons o rest ih =>
      cases o with
      | analyzed file key cache suppressed =>
          cases cache <;>
            simp +decide only [List.filterMap_cons, FileOutcome.file?, List.length_cons, ih,
              List.countP_cons, FileOutcome.hasCache, if_true, if_false] <;>
            omega
      | skipped warning =>
          simpa [List.filterMap_cons, FileOutcome.file?, FileOutcome.hasCache] using ih
      | aborted => simpa [List.filterMap_cons, FileOutcome.file?, FileOutcome.hasCache] using ih

end ScanJob

/-! ## Inputs by path -/

/-- What becomes of the inputs that are kept when one more is given. -/
def keepInput (kept : List ScanInput) (input : ScanInput) : List ScanInput :=
  if kept.any fun k => k.path == input.path then
    kept.map fun k => if k.path == input.path then input else k
  else kept ++ [input]

theorem uniqueInputs_eq (inputs : List ScanInput) :
    uniqueInputs inputs = inputs.foldl keepInput [] := rfl

theorem keepInput_of_notMem {kept : List ScanInput} {input : ScanInput}
    (h : input.path ∉ kept.map ScanInput.path) : keepInput kept input = kept ++ [input] := by
  unfold keepInput
  rw [if_neg]
  simpa using h

theorem map_path_keepInput (kept : List ScanInput) (input : ScanInput) :
    (keepInput kept input).map ScanInput.path =
      if input.path ∈ kept.map ScanInput.path then kept.map ScanInput.path
      else kept.map ScanInput.path ++ [input.path] := by
  by_cases h : input.path ∈ kept.map ScanInput.path
  · have hany : (kept.any fun k => k.path == input.path) = true := by simpa using h
    rw [if_pos h, keepInput, if_pos hany, List.map_map]
    apply List.map_congr_left
    intro k _
    by_cases hk : k.path = input.path <;> simp [hk]
  · rw [if_neg h, keepInput_of_notMem h]
    simp

/-- Each path is kept once. -/
theorem nodup_path_uniqueInputs (inputs : List ScanInput) :
    ((uniqueInputs inputs).map ScanInput.path).Nodup := by
  rw [uniqueInputs_eq]
  refine List.foldlRecOn (motive := fun kept : List ScanInput => (kept.map ScanInput.path).Nodup)
    inputs keepInput (by simp) ?_
  intro kept hkept input _
  rw [map_path_keepInput]
  split
  · exact hkept
  · rename_i hnew
    exact hkept.append (List.nodup_singleton _) (by simpa using hnew)

/-- Inputs of different paths are all kept, in their order. -/
theorem uniqueInputs_of_nodup {inputs : List ScanInput}
    (h : (inputs.map ScanInput.path).Nodup) : uniqueInputs inputs = inputs := by
  have hfrom : ∀ (rest kept : List ScanInput), ((kept ++ rest).map ScanInput.path).Nodup →
      rest.foldl keepInput kept = kept ++ rest := by
    intro rest
    induction rest with
    | nil => simp
    | cons input rest ih =>
        intro kept hnodup
        have hnew : input.path ∉ kept.map ScanInput.path := by
          rw [List.map_append, List.nodup_append] at hnodup
          exact fun hmem => hnodup.2.2 _ hmem input.path (by simp) rfl
        rw [List.foldl_cons, keepInput_of_notMem hnew, ih (kept ++ [input]) (by simpa using hnodup)]
        simp
  exact hfrom inputs [] h

theorem mem_of_mem_uniqueInputs {inputs : List ScanInput} {input : ScanInput}
    (h : input ∈ uniqueInputs inputs) : input ∈ inputs := by
  rw [uniqueInputs_eq] at h
  revert h
  refine List.foldlRecOn (motive := fun kept : List ScanInput => input ∈ kept → input ∈ inputs)
    inputs keepInput (by simp) ?_
  intro kept hkept new hnew
  unfold keepInput
  split
  · intro h
    obtain ⟨k, hk, hinput⟩ := List.mem_map.mp h
    split at hinput
    · exact hinput ▸ hnew
    · exact hkept (hinput ▸ hk)
  · intro h
    rcases List.mem_append.mp h with h | h
    · exact hkept h
    · rwa [List.mem_singleton.mp h]

namespace ScanJob

theorem nodup_path_included (job : ScanJob) (inputs : List ScanInput) :
    ((job.included inputs).map ScanInput.path).Nodup :=
  (nodup_path_uniqueInputs inputs).sublist (List.filter_sublist.map _)

/-- A scan of the files that do not fail includes them all. -/
theorem included_remaining (job : ScanJob) (files : FileTree) (inputs : List ScanInput) :
    job.included (job.remaining files inputs) = job.remaining files inputs := by
  have hnodup : ((job.remaining files inputs).map ScanInput.path).Nodup :=
    (job.nodup_path_included inputs).sublist (List.filter_sublist.map _)
  rw [included, uniqueInputs_of_nodup hnodup, List.filter_eq_self]
  intro input hinput
  exact (List.mem_filter.mp (List.mem_filter.mp hinput).1).2

theorem warnings_remaining (job : ScanJob) (files : FileTree) (inputs : List ScanInput) :
    (job.remaining files inputs).filterMap (job.warning? files) = [] := by
  rw [List.filterMap_eq_nil_iff]
  intro input hinput
  have hsound : job.failure? files input = none := by simpa using (List.mem_filter.mp hinput).2
  simp [warning?, hsound]

/-! ## The report of a completed scan -/

section

variable {k : StoreKind} {tokenizer : Tokenizer} {w : World k} {job : ScanJob}
  {files : FileTree} {inputs : List ScanInput} {result : ScanResult}

theorem report_failed (job : ScanJob) (unique included : List ScanInput)
    (outcomes : List FileOutcome) (pruned : Nat) :
    (job.report unique included outcomes pruned).failed = true ↔
      (job.report unique included outcomes pruned).violations ≠ [] ∨
        job.config.scan.strict = true ∧
          (job.report unique included outcomes pruned).warnings ≠ [] := by
  simp [report]

/-- The inputs are those ignored, those scanned and those left out. -/
theorem Completes.filesTotal (htokenizer : FollowsDialect tokenizer) (hw : w.InUse tokenizer)
    (hscan : job.Completes files w inputs result) :
    result.stats.filesTotal =
      result.stats.filesIgnored + result.stats.filesScanned + result.stats.filesSkipped := by
  obtain ⟨outcomes, pruned, rfl, hagrees⟩ := hscan.report htokenizer hw
  have hcount := count_outcomes (isAborted_of_agrees hagrees)
  have hlength : (job.included inputs).length = outcomes.length := hagrees.length_eq
  have hle : (job.included inputs).length ≤ (uniqueInputs inputs).length :=
    List.length_filter_le _ _
  simp only [ScanJob.report]
  omega

/-- Alone on an empty store, the files that do not fail are scanned without a warning and with the
findings of all files. -/
theorem run_remaining (htokenizer : FollowsDialect tokenizer) (hw : w.InUse tokenizer)
    (hscan : job.Completes files w inputs result) (now : Number) (notes : List Note) :
    ∃ alone, (({ job with abortAfter := none } : ScanJob).run memoryStore
        (job.remaining files inputs) ⟨files, .empty, now, notes⟩).1 = .ok alone ∧
      alone.warnings = [] ∧ alone.violations = job.findings files (job.included inputs) := by
  obtain ⟨store, outcomes, around, hsettled, hresult⟩ := hscan
  have hknown := known_of_settled hw.tokenizer hsettled (settled_of_conclude hresult)
  set whole : ScanJob := { job with abortAfter := none }
  have hincluded : whole.included (job.remaining files inputs) = job.remaining files inputs :=
    job.included_remaining files inputs
  have hinputs : ∀ input ∈ whole.included (job.remaining files inputs),
      whole.tokenizer = tokenizer ∧
        ∀ bytes, files.read (whole.pathOf input) = .ok bytes → bytes ∈ w.contents := by
    intro input hinput
    rw [hincluded] at hinput
    exact hknown input (List.mem_filter.mp hinput).1
  obtain ⟨outcomes', pruned, hrun, hagrees⟩ :=
    run_memory_of_empty htokenizer hw.digests whole rfl hinputs now notes
  obtain ⟨hviolations, hwarnings⟩ :=
    report_of_agrees (uniqueInputs (job.remaining files inputs)) pruned hagrees
  rw [hincluded] at hrun hviolations hwarnings
  exact ⟨_, hrun, hwarnings.trans (job.warnings_remaining files inputs),
    hviolations.trans (job.findings_filter files _)⟩

/-- **A file that fails affects only itself.**  The warnings of a completed scan are those of the
files that fail, in order.  Its violations are those of every scan of the other files, on a store in
use or alone on an empty one.  It fails for a violation, or for a warning when it is strict, and its
numbers add up. -/
theorem completes_isolates_failures (htokenizer : FollowsDialect tokenizer)
    (hw : w.InUse tokenizer) (hscan : job.Completes files w inputs result) :
    result.warnings = (job.included inputs).filterMap (job.warning? files) ∧
      (∀ now notes, ∃ alone, (({ job with abortAfter := none } : ScanJob).run memoryStore
          (job.remaining files inputs) ⟨files, .empty, now, notes⟩).1 = .ok alone ∧
        alone.warnings = [] ∧ alone.violations = result.violations) ∧
      (∀ (k' : StoreKind) (w' : World k') (rest : ScanResult), w'.InUse tokenizer →
        job.Completes files w' (job.remaining files inputs) rest →
        rest.warnings = [] ∧ rest.violations = result.violations) ∧
      (result.failed = true ↔
        result.violations ≠ [] ∨ job.config.scan.strict = true ∧ result.warnings ≠ []) ∧
      result.stats.filesTotal =
        result.stats.filesIgnored + result.stats.filesScanned + result.stats.filesSkipped ∧
      result.stats.filesScanned =
        result.stats.cacheHits + result.stats.cacheMisses + result.stats.cacheCorrupt := by
  have hviolations := hscan.violations htokenizer hw
  refine ⟨hscan.warnings htokenizer hw, ?_, ?_, ?_, hscan.filesTotal htokenizer hw, ?_⟩
  · intro now notes
    rw [hviolations]
    exact run_remaining htokenizer hw hscan now notes
  · intro k' w' rest hw' hrest
    constructor
    · rw [hrest.warnings htokenizer hw', included_remaining, warnings_remaining]
    · rw [hrest.violations htokenizer hw', included_remaining, hviolations]
      exact job.findings_filter files _
  · obtain ⟨outcomes, pruned, rfl, -⟩ := hscan.report htokenizer hw
    exact job.report_failed _ _ outcomes pruned
  · obtain ⟨outcomes, pruned, rfl, -⟩ := hscan.report htokenizer hw
    exact count_cache outcomes

end

/-! ## Scans that run by themselves -/

/-- The contents that a scan of some files reads. -/
def contents (job : ScanJob) (files : FileTree) (inputs : List ScanInput) : Set (List UInt8) :=
  {bytes | ∃ input ∈ job.included inputs, files.read (job.pathOf input) = .ok bytes}

section

variable {k : StoreKind} {P : FileTree → Number → Prop} {tokenizer : Tokenizer} {w : World k}
  {files : FileTree}

/-- A store stays in use while more files are read, as long as no two contents share a digest. -/
theorem inUse_append (hw : w.InUse tokenizer) {around : Surroundings k.State} {more : List Visit}
    {read : Set (List UInt8)} (hreach : ReflTransGen Step w ⟨around, w.visits ++ more⟩)
    (hdigests : Set.InjOn contentHash (w.contents ∪ read))
    (hmore : ∀ v ∈ more, v.reading.job.tokenizer = tokenizer ∧
      (∀ bytes, v.reading.content = .ok bytes → bytes ∈ read) ∧
      (k = .memory ∨ v.reading.HasExactNumbers)) :
    (⟨around, w.visits ++ more⟩ : World k).contents ⊆ w.contents ∪ read ∧
      (⟨around, w.visits ++ more⟩ : World k).InUse tokenizer := by
  have hreadings : ∀ r ∈ (⟨around, w.visits ++ more⟩ : World k).readings,
      r ∈ w.readings ∨ ∃ v ∈ more, v.reading = r := by
    intro r hr
    obtain ⟨v, hv, rfl⟩ := List.mem_map.mp hr
    rcases List.mem_append.mp hv with hv | hv
    · exact .inl (List.mem_map_of_mem hv)
    · exact .inr ⟨v, hv, rfl⟩
  have hcontents : (⟨around, w.visits ++ more⟩ : World k).contents ⊆ w.contents ∪ read := by
    rintro bytes ⟨r, hr, hbytes⟩
    rcases hreadings r hr with hr | ⟨v, hv, rfl⟩
    · exact .inl ⟨r, hr, hbytes⟩
    · exact .inr ((hmore v hv).2.1 bytes hbytes)
  obtain ⟨start, hempty, hbegan⟩ := hw.began
  refine ⟨hcontents, ⟨start, hempty, hbegan.trans hreach⟩, ?_, hdigests.mono hcontents,
    or_iff_not_imp_left.mpr ?_⟩
  · intro r hr
    rcases hreadings r hr with hr | ⟨v, hv, rfl⟩
    · exact hw.tokenizer r hr
    · exact (hmore v hv).1
  · intro hkind r hr
    rcases hreadings r hr with hr | ⟨v, hv, rfl⟩
    · exact hw.numbers.resolve_left hkind r hr
    · exact (hmore v hv).2.2.resolve_left hkind

/-- A store stays in use by a scan that runs by itself.  What the scan returns is the result of a
completed scan, and it returns one unless it is cut short. -/
theorem exists_inUse_run (hk : k.Keeps P) (hw : w.InUse tokenizer) (job : ScanJob)
    (hjob : job.tokenizer = tokenizer) (inputs : List ScanInput)
    (haround : P w.around.files w.around.now)
    (hread : ∀ t now, P t now → ∀ input ∈ job.included inputs,
      t.read (job.pathOf input) = files.read (job.pathOf input))
    (hdigests : Set.InjOn contentHash (w.contents ∪ job.contents files inputs))
    (hnumbers : k = .memory ∨ ∀ r : Reading, r.job = job → r.input ∈ job.included inputs →
      r.content = files.read (job.pathOf r.input) → (∃ t, P t r.now) → r.HasExactNumbers) :
    ∃ w' : World k, w'.around = (job.run k.store inputs w.around).2 ∧
      P w'.around.files w'.around.now ∧ w'.InUse tokenizer ∧
      w'.contents ⊆ w.contents ∪ job.contents files inputs ∧
      (∀ result, (job.run k.store inputs w.around).1 = .ok result →
        job.Completes files w' inputs result) ∧
      (FollowsDialect tokenizer → job.abortAfter = none →
        ∃ result, (job.run k.store inputs w.around).1 = .ok result) := by
  obtain ⟨more, outcomes, before, hreach, hafter, hvisited, hrun⟩ :=
    run_reachable hk job inputs w.around haround w.visits
  have hmore : ∀ v ∈ more, v.reading.job = job ∧ v.reading.input ∈ job.included inputs ∧
      v.reading.content = files.read (job.pathOf v.reading.input) ∧ ∃ t, P t v.reading.now := by
    intro v hv
    obtain ⟨hsame, hinput, t, ht, hcontent⟩ := hvisited.readings v hv
    exact ⟨hsame, hinput, hcontent.trans (hread t _ ht _ hinput), t, ht⟩
  set w' : World k := ⟨(job.run k.store inputs w.around).2, w.visits ++ more⟩
  obtain ⟨hcontents, huse⟩ := inUse_append hw hreach hdigests fun v hv => by
    obtain ⟨hsame, hinput, hcontent, hnow⟩ := hmore v hv
    refine ⟨hsame ▸ hjob, fun bytes hbytes => ⟨_, hinput, hcontent.symm.trans hbytes⟩, ?_⟩
    exact hnumbers.imp_right fun h => h v.reading hsame hinput hcontent hnow
  have hsettled : List.Forall₂ (job.Settled files w') (job.included inputs) outcomes := by
    refine hvisited.outcomes.imp ?_
    rintro input outcome (⟨-, rfl⟩ | ⟨⟨reading, task⟩, hv, rfl, rfl⟩)
    · exact .aborted input
    · obtain ⟨hsame, -, hcontent, -⟩ := hmore _ hv
      exact .visited (List.mem_append_right _ hv) hsame hcontent
  refine ⟨w', rfl, hafter, huse, hcontents, ?_, ?_⟩
  · intro result hresult
    exact ⟨k.store, outcomes, before, hsettled, hrun ▸ hresult⟩
  · intro htokenizer hwhole
    -- a file that was begun ends as with nothing stored, so none is aborted
    have hagrees : List.Forall₂ (fun input o => o.Agrees (job.uncached files input))
        (job.included inputs) outcomes := by
      refine hvisited.outcomes.imp ?_
      rintro input outcome (⟨hcut, -⟩ | ⟨⟨reading, task⟩, hv, rfl, rfl⟩)
      · exact absurd hwhole hcut
      · obtain ⟨hsame, -, hcontent, -⟩ := hmore _ hv
        exact agrees_of_visited (huse.consistent htokenizer) (List.mem_append_right _ hv) hsame
          hcontent
    obtain ⟨pruned, hconclude⟩ :=
      conclude_of_settled k.store inputs before (isAborted_of_agrees hagrees)
    exact ⟨_, (congrArg Prod.fst hrun).trans hconclude⟩

end

theorem exists_of_any_toOption {ε α : Type} {x : Except ε α} {p : α → Bool}
    (h : x.toOption.any p = true) : ∃ a, x = .ok a ∧ p a = true := by
  cases x with
  | error fault => cases h
  | ok a => exact ⟨a, rfl, h⟩

/-! ### Twin files among files that fail -/

/-- A scan with a window of two tokens that filters nothing. -/
def unfilteredJob : ScanJob :=
  { twinJob 2 with filters := some .empty }

def spelled (paths : List String) : List ScanInput :=
  paths.map fun path => ⟨Text.ofString path, Text.ofString "python"⟩

/-- One of the twin files once it is analyzed. -/
def twinFile (path : String) : AnalyzedFile where
  path := Text.ofString path
  language := .python
  source := [0x61, 0x3D, 0x62]
  tokens :=
    [⟨[0x61], [0x24, 0x69, 0x64], .identifier, 1, 1, 1, 2⟩,
      ⟨[0x3D], [0x3D], .symbol, 1, 2, 1, 3⟩,
      ⟨[0x62], [0x24, 0x69, 0x64], .identifier, 1, 3, 1, 4⟩]
  hashes := [3582306748, 2962566525]

/-- Whether a path names one of the twin files. -/
def namesTwin (job : ScanJob) (files : FileTree) (path : String) : Bool :=
  let outcome := job.uncached files ⟨Text.ofString path, Text.ofString "python"⟩
  outcome.suppressed.isEmpty && outcome.file?.any fun f =>
    f.path == (twinFile path).path && f.language == (twinFile path).language &&
      f.source == (twinFile path).source && f.tokens == (twinFile path).tokens &&
      f.hashes == (twinFile path).hashes

theorem uncached_of_namesTwin {job : ScanJob} {files : FileTree} {path : String}
    (h : job.namesTwin files path = true) :
    (job.uncached files ⟨Text.ofString path, Text.ofString "python"⟩).file? =
        some (twinFile path) ∧
      (job.uncached files ⟨Text.ofString path, Text.ofString "python"⟩).suppressed = [] := by
  simp only [namesTwin, Bool.and_eq_true, List.isEmpty_iff, Option.any_eq_true_iff_get,
    beq_iff_eq] at h
  obtain ⟨hsuppressed, hsome, ⟨⟨⟨hpath, hlanguage⟩, hsource⟩, htokens⟩, hhashes⟩ := h
  refine ⟨?_, hsuppressed⟩
  rw [← Option.some_get hsome, Option.some.injEq]
  generalize Option.get _ hsome = f at *
  obtain ⟨path', language, source, tokens, hashes⟩ := f
  simp_all

theorem findings_spelled {job : ScanJob} {files : FileTree} {filters : FilterRegistry}
    {paths : List String} (hfilters : job.filters = some filters)
    (h : paths.all (job.namesTwin files) = true) :
    job.findings files (spelled paths) =
      (detectWith (paths.map twinFile) job.config job.suppressed filters).1 := by
  have hparts : ((spelled paths).map (job.uncached files)).filterMap FileOutcome.file? =
        paths.map twinFile ∧
      ((spelled paths).map (job.uncached files)).flatMap FileOutcome.suppressed = [] := by
    induction paths with
    | nil => exact ⟨rfl, rfl⟩
    | cons path paths ih =>
        obtain ⟨hpath, hrest⟩ := Bool.and_eq_true_iff.mp h
        obtain ⟨hfile, hsuppressed⟩ := uncached_of_namesTwin hpath
        obtain ⟨hfiles, hranges⟩ := ih hrest
        constructor
        · exact (List.filterMap_cons_some hfile).trans (congrArg _ hfiles)
        · exact (congrArg₂ _ hsuppressed hranges)
  obtain ⟨hfiles, hranges⟩ := hparts
  simp only [findings, report, hfiles, hranges, hfilters, List.append_nil, Option.getD_some]

/-- The twin files, one with a bracket that is not closed, one that is not there, and one in a
language without a tokenizer. -/
def mixedInputs : List ScanInput :=
  twinInputs ++ [("c.py", "python"), ("d.py", "python"), ("e.rs", "rust")].map fun e =>
    ⟨Text.ofString e.1, Text.ofString e.2⟩

def mixedFiles : FileTree :=
  ⟨twinFiles.entries ++ [([Text.ofString "c.py"], .file [0x28] none)]⟩

def mixedAround : Surroundings MemoryState :=
  ⟨mixedFiles, .empty, .finite 1, []⟩

/-- A second scan of the files, with the records of the first. -/
def mixedScans : Except Failure ScanResult × Surroundings MemoryState :=
  unfilteredJob.run memoryStore mixedInputs
    (unfilteredJob.run memoryStore mixedInputs mixedAround).2

theorem contents_mixedFiles :
    unfilteredJob.contents mixedFiles mixedInputs ⊆ {twinBytes, [0x28]} := by
  have hall : (unfilteredJob.included mixedInputs).all (fun input =>
      (mixedFiles.read (unfilteredJob.pathOf input)).toOption.all fun bytes =>
        bytes == twinBytes || bytes == [0x28]) = true := by
    decide +kernel
  rintro bytes ⟨input, hinput, hread⟩
  have hbytes := List.all_eq_true.mp hall input hinput
  rw [hread] at hbytes
  simpa [Except.toOption] using hbytes

theorem injOn_mixedFiles : Set.InjOn contentHash {twinBytes, [0x28]} := by
  have hne : contentHash twinBytes ≠ contentHash [0x28] := by decide +kernel
  rintro bytes (rfl | rfl) bytes' (rfl | rfl) h
  · rfl
  · exact absurd h hne
  · exact absurd h.symm hne
  · rfl

theorem included_mixedInputs : unfilteredJob.included mixedInputs = mixedInputs := by
  decide +kernel

/-- What is duplicated is duplicated in the twin files. -/
theorem locations_findings_mixedInputs :
    (unfilteredJob.findings mixedFiles mixedInputs).map (·.locations) =
      [[⟨Text.ofString "a.py", 1, 1⟩, ⟨Text.ofString "b.py", 1, 1⟩]] := by
  have hkept : (mixedInputs.filter fun input =>
      (unfilteredJob.failure? mixedFiles input).isNone) = spelled ["a.py", "b.py"] := by
    decide +kernel
  rw [← findings_filter, hkept, findings_spelled rfl (by decide +kernel)]
  cbv

/-- The second scan comes to its end on a store that the first one left in use. -/
theorem exists_completes_mixedScans :
    ∃ (w : World .memory) (result : ScanResult), w.InUse tokenizeAs ∧ mixedScans.1 = .ok result ∧
      unfilteredJob.Completes mixedFiles w mixedInputs result ∧ result.stats.cacheHits = 2 ∧
      result.warnings.length = 3 := by
  have hcounts : (mixedScans.1.toOption.any fun result =>
      result.stats.cacheHits == 2 && result.warnings.length == 3) = true := by
    decide +kernel
  have hkeeps := StoreKind.keeps_memory fun t _ => t = mixedFiles
  have hread : ∀ (t : FileTree) (_ : Number), t = mixedFiles →
      ∀ input ∈ unfilteredJob.included mixedInputs,
        t.read (unfilteredJob.pathOf input) = mixedFiles.read (unfilteredJob.pathOf input) := by
    rintro t - rfl input -
    rfl
  have hnew : World.InUse tokenizeAs (⟨mixedAround, []⟩ : World .memory) := by
    apply World.inUse_new
    rintro key r ⟨v, hv, -⟩
    cases hv
  -- both scans read the same two contents
  have hdigests : ∀ known : Set (List UInt8), known ⊆ {twinBytes, [0x28]} →
      Set.InjOn contentHash (known ∪ unfilteredJob.contents mixedFiles mixedInputs) :=
    fun known hknown => injOn_mixedFiles.mono (Set.union_subset hknown contents_mixedFiles)
  obtain ⟨w, haround, hfiles, hw, hcontents, -⟩ := exists_inUse_run hkeeps hnew
    unfilteredJob rfl mixedInputs rfl hread
    (hdigests _ (by simp [World.contents, World.readings])) (.inl rfl)
  have hknown : w.contents ⊆ {twinBytes, [0x28]} := by
    refine hcontents.trans (Set.union_subset ?_ contents_mixedFiles)
    simp [World.contents, World.readings]
  obtain ⟨w', -, -, hw', -, hcompletes, -⟩ := exists_inUse_run hkeeps hw
    unfilteredJob rfl mixedInputs hfiles hread (hdigests _ hknown) (.inl rfl)
  rw [haround] at hcompletes
  obtain ⟨result, hresult, hcounts⟩ := exists_of_any_toOption hcounts
  simp only [Bool.and_eq_true, beq_iff_eq] at hcounts
  exact ⟨w', result, hw', hresult, hcompletes result hresult, hcounts⟩

theorem completes_isolates_failures_mixedFiles :
    ∃ result, mixedScans.1 = .ok result ∧ result.stats.cacheHits = 2 ∧ result.warnings.length = 3 ∧
      result.violations.map (·.locations) =
        [[⟨Text.ofString "a.py", 1, 1⟩, ⟨Text.ofString "b.py", 1, 1⟩]] ∧
      result.failed = true ∧
      result.warnings = mixedInputs.filterMap (unfilteredJob.warning? mixedFiles) ∧
      (∃ alone, (unfilteredJob.run memoryStore twinInputs mixedAround).1 = .ok alone ∧
        alone.warnings = [] ∧ alone.violations = result.violations) ∧
      (result.failed = true ↔ result.violations ≠ [] ∨
        unfilteredJob.config.scan.strict = true ∧ result.warnings ≠ []) ∧
      result.stats.filesTotal =
        result.stats.filesIgnored + result.stats.filesScanned + result.stats.filesSkipped ∧
      result.stats.filesScanned =
        result.stats.cacheHits + result.stats.cacheMisses + result.stats.cacheCorrupt := by
  obtain ⟨w, result, hw, hresult, hscan, hhits, hlength⟩ := exists_completes_mixedScans
  have hremaining : unfilteredJob.remaining mixedFiles mixedInputs = twinInputs := by decide +kernel
  obtain ⟨hwarnings, halone, -, hfailed, htotal, hscanned⟩ :=
    completes_isolates_failures followsDialect_tokenizeAs hw hscan
  rw [included_mixedInputs] at hwarnings
  rw [hremaining] at halone
  have htwins : result.violations.map (·.locations) =
      [[⟨Text.ofString "a.py", 1, 1⟩, ⟨Text.ofString "b.py", 1, 1⟩]] := by
    rw [hscan.violations followsDialect_tokenizeAs hw, included_mixedInputs,
      locations_findings_mixedInputs]
  have hfound : result.violations ≠ [] := by
    intro hnone
    simp [hnone] at htwins
  exact ⟨result, hresult, hhits, hlength, htwins, hfailed.mpr (.inl hfound), hwarnings,
    halone (.finite 1) [], hfailed, htotal, hscanned⟩

end ScanJob

end CloneScan
