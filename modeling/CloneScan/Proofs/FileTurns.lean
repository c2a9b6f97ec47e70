import CloneScan.Proofs.StoreService

/-!
# Files that take turns

Files make their calls of a store in any order.  Between two calls of one file the others only add
records that can be read and drop records that cannot.  What a file can rely on is stated once, as
an order on stores; every file keeps to it, so each comes to its end as if the others were not
there.
-/

namespace CloneScan

open Relation

/-! ## What files do to a store -/

namespace FileCall

def toStoreCall : FileCall → StoreCall
  | .get key => .get key
  | .put key r => .put key r.toJson
  | .recordSeen path key => .recordSeen path key

/-- What the abstract store answers. -/
def reply (v : StoreView Json) : (c : FileCall) → c.Reply
  | .get key => ((v.found key).map Lookup.ofReading).getD .miss
  | .put .. => ()
  | .recordSeen .. => ()

end FileCall

/-- A call of a file is answered as by the abstract store. -/
theorem StoreKind.exec_perform {k : StoreKind} {s : Surroundings k.State} {v : StoreView Json}
    (hs : k.Shows s v) {now : Number} (hnow : now.IsFinite) {c : FileCall}
    (hc : k.Accepts c.toStoreCall) :
    ((c.perform k.store).exec { s with now }).1 = .ok (c.reply v) ∧
      k.Shows ((c.perform k.store).exec { s with now }).2
        (v.step .plain now c.toStoreCall).2 := by
  obtain ⟨hanswer, hshows⟩ := k.refines s v now c.toStoreCall hs ⟨hnow, hc⟩
  have hok {α : Type} {f : α → StoreAnswer} {reply : Except StoreFault α} {answer : StoreAnswer}
      (h : reply.map f = .ok answer) : ∃ a, reply = .ok a ∧ f a = answer := by
    cases reply with
    | error fault => cases h
    | ok a => exact ⟨a, rfl, Except.ok.inj h⟩
  cases c with
  | get key =>
      simp only [CacheStore.call, FileCall.toStoreCall, StoreCall.perform, StoreM.exec_map,
        StoreView.answer_get_found] at hanswer hshows
      obtain ⟨found, hfound, heq⟩ := hok hanswer
      cases heq
      exact ⟨hfound, hshows⟩
  | put key r =>
      simp only [CacheStore.call, FileCall.toStoreCall, StoreCall.perform, StoreM.exec_map]
        at hanswer hshows
      obtain ⟨_, hdone, -⟩ := hok hanswer
      exact ⟨hdone, hshows⟩
  | recordSeen path key =>
      simp only [CacheStore.call, FileCall.toStoreCall, StoreCall.perform, StoreM.exec_map]
        at hanswer hshows
      obtain ⟨_, hdone, -⟩ := hok hanswer
      exact ⟨hdone, hshows⟩

namespace StoreView

variable {made : Text → CacheRecord → Prop} {v v' v'' : StoreView Json}

/-- What a file can rely on while others have their turns: a record that can be read stays, and
what is new was made by a file and can be read. -/
structure Grows (made : Text → CacheRecord → Prop) (v v' : StoreView Json) : Prop where
  keeps : ∀ key r, v.found key = some (.ok r) → v'.found key = some (.ok r)
  adds : ∀ key r, v'.found key = some (.ok r) → v.found key = some (.ok r) ∨ made key r
  errors : ∀ key fault, v'.found key = some (.error fault) → v.found key = some (.error fault)

theorem Grows.of_found_eq (h : v'.found = v.found) : v.Grows made v' := by
  refine ⟨fun key r hr => ?_, fun key r hr => .inl ?_, fun key fault hfault => ?_⟩
  · rw [h, hr]
  · rw [← h, hr]
  · rw [← h, hfault]

theorem Grows.refl (v : StoreView Json) : v.Grows made v :=
  .of_found_eq rfl

theorem Grows.trans (h : v.Grows made v') (h' : v'.Grows made v'') : v.Grows made v'' := by
  refine ⟨fun key r hr => h'.keeps key r (h.keeps key r hr), fun key r hr => ?_,
    fun key fault hfault => h.errors key fault (h'.errors key fault hfault)⟩
  rcases h'.adds key r hr with hr | hmade
  · exact h.adds key r hr
  · exact .inr hmade

/-- A call that changes what is under one key, where no record was that can be read. -/
theorem Grows.of_update {key : Text} {new : Option (Except RecordFault CacheRecord)}
    (h : v'.found = Function.update v.found key new) (hold : ∀ r, v.found key ≠ some (.ok r))
    (hmade : ∀ r, new = some (.ok r) → made key r) (hnew : ∀ fault, new ≠ some (.error fault)) :
    v.Grows made v' := by
  refine ⟨fun q r hr => ?_, fun q r hr => ?_, fun q fault hr => ?_⟩
  · have hq : q ≠ key := by
      rintro rfl
      exact hold r hr
    rw [h, Function.update_of_ne hq, hr]
  · rw [h, Function.update_apply] at hr
    split at hr
    case isTrue hq => exact .inr (hq ▸ hmade r hr)
    case isFalse => exact .inl hr
  · rw [h, Function.update_apply] at hr
    split at hr
    · exact absurd hr (hnew fault)
    · exact hr

/-- Every file keeps to what the others rely on. -/
theorem grows_step (v : StoreView Json) (now : Number) {c : FileCall}
    (hput : ∀ key r, c = .put key r → made key r ∧ CacheRecord.ofJson r.toJson = .ok r) :
    v.Grows made (v.step .plain now c.toStoreCall).2 := by
  cases c with
  | get key =>
      by_cases herror : ∃ fault, v.found key = some (.error fault)
      · obtain ⟨fault, hfault⟩ := herror
        exact .of_update (found_get_of_error now hfault) (by simp [hfault]) (by simp) (by simp)
      · exact .of_found_eq (found_get now (not_exists.mp herror))
  | put key r =>
      obtain ⟨hmade, hread⟩ := hput key r rfl
      cases hold : v.found key with
      | some reading => exact .of_found_eq (found_put_of_some now r.toJson hold)
      | none =>
          have hfound := found_put now r.toJson hold
          rw [hread] at hfound
          refine .of_update hfound (by simp [hold]) ?_ (by simp)
          rintro _ ⟨⟩
          exact hmade
  | recordSeen path key => exact .of_found_eq rfl

end StoreView

namespace FileTask

variable {made : Text → CacheRecord → Prop} {good : StoreView Json → FileOutcome → Prop}

/-- Whatever it is told, a file asks for keys that can name files and puts only what is `made`. -/
def Makes (made : Text → CacheRecord → Prop) : FileTask → Prop
  | .done _ => True
  | .say _ next => next.Makes made
  | .call c next =>
    c.toStoreCall.HasKey ∧ (∀ key r, c = .put key r → made key r) ∧
      ∀ reply, (next reply).Makes made

/-- A file comes to a `good` end from a store, however the others grow it meanwhile. -/
def Leads (made : Text → CacheRecord → Prop) (good : StoreView Json → FileOutcome → Prop) :
    FileTask → StoreView Json → Prop
  | .done outcome, v => good v outcome
  | .say _ next, v => next.Leads made good v
  | .call c next, v =>
    ∀ v', v.Grows made v' → ∀ now,
      (next (.ok (c.reply v'))).Leads made good (v'.step .plain now c.toStoreCall).2

theorem Leads.mono {good' : StoreView Json → FileOutcome → Prop}
    (hgood : ∀ v v' o, v.Grows made v' → good v o → good' v' o) {task : FileTask}
    {v v' : StoreView Json} (h : task.Leads made good v) (hv : v.Grows made v') :
    task.Leads made good' v' := by
  induction task generalizing v v' with
  | done outcome => exact hgood v v' outcome hv h
  | say note next ih => exact ih h hv
  | call c next ih => exact fun u hu now => ih _ (h u (hv.trans hu) now) (.refl _)

theorem leads_true (task : FileTask) (v : StoreView Json) :
    task.Leads made (fun _ _ => True) v := by
  induction task generalizing v with
  | done outcome => exact trivial
  | say note next ih => exact ih v
  | call c next ih => exact fun v' _ now => ih _ _

/-! ### One file -/

/-- What the way of a file depends on, unless it is left out for its language or its bytes. -/
def subject? (config : Config) (now : Nat) (input : ScanInput)
    (content : Except FileFault (List UInt8)) : Option Subject :=
  match Language.ofTag? input.language, content with
  | some language, .ok bytes => some (subject config now input.path language bytes)
  | _, _ => none

section

variable {config : Config} {tokenizer : Tokenizer} {now : Nat} {input : ScanInput}
  {content : Except FileFault (List UInt8)} {s : Subject}

theorem eq_subject (h : subject? config now input content = some s) :
    ∃ language bytes, Language.ofTag? input.language = some language ∧ content = .ok bytes ∧
      s = subject config now input.path language bytes := by
  unfold subject? at h
  split at h
  case h_1 language bytes hlanguage =>
      exact ⟨language, bytes, hlanguage, rfl, (Option.some.inj h).symm⟩
  case h_2 => cases h

theorem start_eq (tokenizer : Tokenizer) (h : subject? config now input content = some s) :
    start config tokenizer now input content =
      .call (.get s.key) fun found => resume tokenizer s found := by
  obtain ⟨language, bytes, hlanguage, rfl, rfl⟩ := eq_subject h
  rw [start, hlanguage]

theorem exists_start_eq_skip (tokenizer : Tokenizer)
    (h : subject? config now input content = none) :
    ∃ failure, start config tokenizer now input content = skip input.path failure := by
  unfold start
  cases hlanguage : Language.ofTag? input.language with
  | none => exact ⟨_, rfl⟩
  | some language =>
      cases content with
      | error fault => exact ⟨_, rfl⟩
      | ok bytes => simp [subject?, hlanguage] at h

theorem isKey_subject (h : subject? config now input content = some s) :
    DiskStore.isKey s.key = true := by
  obtain ⟨language, bytes, -, -, rfl⟩ := eq_subject h
  exact isKey_cacheKey bytes _

/-- The record that a file makes of its tokens. -/
def Subject.record (s : Subject) (tokens : List Token) : CacheRecord :=
  ⟨s.params, tokens, hashesOf s.params tokens, s.createdAt⟩

theorem makes_finish (hkey : DiskStore.isKey s.key = true) (tokens : List Token)
    (hashes : List Nat) (cache : CacheOutcome) : (finish s tokens hashes cache).Makes made := by
  refine ⟨hkey, nofun, ?_⟩
  intro reply
  cases reply <;> exact trivial

theorem makes_compute (hkey : DiskStore.isKey s.key = true)
    (hmade : ∀ tokens, tokenizer s.source s.language s.path = .ok tokens →
      made s.key (s.record tokens)) (cache : CacheOutcome) :
    (compute tokenizer s cache).Makes made := by
  unfold compute
  cases htokens : tokenizer s.source s.language s.path with
  | error failure => exact trivial
  | ok tokens =>
      refine ⟨hkey, ?_, ?_⟩
      · rintro key r ⟨⟩
        exact hmade tokens htokens
      · intro reply
        cases reply <;> exact makes_finish hkey tokens _ cache

theorem makes_start (hmade : ∀ s tokens, subject? config now input content = some s →
      tokenizer s.source s.language s.path = .ok tokens → made s.key (s.record tokens)) :
    (start config tokenizer now input content).Makes made := by
  cases hs : subject? config now input content with
  | none =>
      obtain ⟨failure, hskip⟩ := exists_start_eq_skip tokenizer hs
      rw [hskip]
      exact trivial
  | some s =>
      rw [start_eq tokenizer hs]
      have hkey := isKey_subject hs
      have hcompute := makes_compute hkey fun tokens => hmade s tokens hs
      refine ⟨hkey, nofun, ?_⟩
      intro reply
      match reply with
      | .error fault => exact hcompute .miss
      | .ok .miss => exact hcompute .miss
      | .ok (.corrupt reason) => exact hcompute .corrupt
      | .ok (.hit found) =>
          simp only [resume]
          split
          · exact makes_finish hkey _ _ .hit
          · exact hcompute .corrupt

end

end FileTask

namespace Reading

def subject? (r : Reading) : Option FileTask.Subject :=
  FileTask.subject? r.job.config (ScanJob.millis r.now) r.input r.content

/-- The record of a file whose numbers are exact is kept by every store, and can be read. -/
theorem keeps_record {k : StoreKind} {r : Reading} (hnumbers : k = .memory ∨ r.HasExactNumbers)
    {s : FileTask.Subject} (hs : r.subject? = some s) {tokens : List Token}
    (htokens : r.job.tokenizer s.source s.language s.path = .ok tokens) :
    k.shelf.Keeps (s.record tokens).toJson ∧
      CacheRecord.ofJson (s.record tokens).toJson = .ok (s.record tokens) := by
  obtain ⟨language, bytes, hlanguage, hcontent, rfl⟩ := FileTask.eq_subject hs
  have hadmits : Admits r.job.tokenizer Set.univ k r := ⟨rfl, fun _ _ => trivial, hnumbers⟩
  exact ⟨StoreKind.keeps_of_preserves (hadmits.preserves hlanguage hcontent htokens),
    CacheRecord.ofJson_toJson_hashesOf (Dialect.isDialectName_name _) tokens _⟩

end Reading

/-! ## Steps that do not fail -/

/-- One step of files on a store that does not fail.  What happens elsewhere leaves the records of
the store alone. -/
inductive FileStep {k : StoreKind} : World k → World k → Prop where
  | begin (around : Surroundings k.State) (visits : List Visit) (job : ScanJob)
      (input : ScanInput) :
      FileStep ⟨around, visits⟩ ⟨around, visits ++ [Visit.begin job input around]⟩
  | say (around : Surroundings k.State) (before after : List Visit) (reading : Reading)
      (note : Note) (next : FileTask) :
      FileStep ⟨around, before ++ ⟨reading, .say note next⟩ :: after⟩
        ⟨{ around with notes := around.notes ++ [note] }, before ++ ⟨reading, next⟩ :: after⟩
  | call (around : Surroundings k.State) (before after : List Visit) (reading : Reading)
      {c : FileCall} (next : Except StoreFault c.Reply → FileTask) {now : Number}
      (hnow : now.IsFinite) :
      FileStep ⟨around, before ++ ⟨reading, .call c next⟩ :: after⟩
        ⟨((c.perform k.store).exec { around with now }).2,
          before ++ ⟨reading, next ((c.perform k.store).exec { around with now }).1⟩ :: after⟩
  | elsewhere {around around' : Surroundings k.State} (visits : List Visit)
      (hrecords : ∀ v, k.Shows around v → ∃ index, k.Shows around' { v with index }) :
      FileStep ⟨around, visits⟩ ⟨around', visits⟩

/-- A store on disk may be opened again whenever its index is written. -/
theorem FileStep.reopen {directory : List Text} {s : Surroundings DiskState}
    (hclean : s.state.dirty = false) (visits : List Visit) :
    FileStep (⟨s, visits⟩ : World (.disk directory)) ⟨DiskStore.reopen s, visits⟩ :=
  .elsewhere visits fun _ hshows => hshows.reopen hclean

/-- One step of a store in service: of its files, or upkeep. -/
inductive ServiceStep {k : StoreKind} : World k → World k → Prop where
  | file {w w' : World k} (h : FileStep w w') : ServiceStep w w'
  | upkeep (around : Surroundings k.State) (visits : List Visit) (u : Upkeep) {now : Number}
      (hnow : now.IsFinite) :
      ServiceStep ⟨around, visits⟩ ⟨((u.perform k.store).exec { around with now }).2, visits⟩

/-- A store in service: it began as a new one, and no call of it ever failed. -/
structure World.InService {k : StoreKind} (w : World k) : Prop where
  began : ∃ around : Surroundings k.State, k.IsNew around ∧
    ReflTransGen ServiceStep ⟨around, []⟩ w
  numbers : k = .memory ∨ ∀ r ∈ w.readings, r.HasExactNumbers

section

variable {k : StoreKind} {w w' : World k}

theorem FileStep.readings_grow (h : FileStep w w') : w.readings <+: w'.readings := by
  cases h with
  | begin around visits job input =>
      exact ⟨[(Visit.begin job input around).reading], by simp [World.readings]⟩
  | say => exact ⟨[], by simp [World.readings]⟩
  | call => exact ⟨[], by simp [World.readings]⟩
  | elsewhere => exact ⟨[], by simp [World.readings]⟩

theorem ServiceStep.readings_grow (h : ServiceStep w w') : w.readings <+: w'.readings := by
  cases h with
  | file h => exact h.readings_grow
  | upkeep => exact List.prefix_refl _

variable {made : Text → CacheRecord → Prop} {good : Reading → StoreView Json → FileOutcome → Prop}
  {v : StoreView Json}

/-- The store shows a view, and from there every file comes to a good end. -/
structure World.Attends (made : Text → CacheRecord → Prop)
    (good : Reading → StoreView Json → FileOutcome → Prop) (w : World k) (v : StoreView Json) :
    Prop where
  shows : k.Shows w.around v
  visits : ∀ u ∈ w.visits, u.task.Makes made ∧ u.task.Leads made (good u.reading) v

/-- One file has its turn, and the others can rely on what it does. -/
theorem World.Attends.replace {around around' : Surroundings k.State} {before after : List Visit}
    {u u' : Visit} {v v' : StoreView Json}
    (hgood : ∀ r v v' o, v.Grows made v' → good r v o → good r v' o)
    (hw : World.Attends made good (⟨around, before ++ u :: after⟩ : World k) v)
    (hgrows : v.Grows made v') (hshows : k.Shows around' v')
    (hu' : u'.task.Makes made ∧ u'.task.Leads made (good u'.reading) v') :
    World.Attends made good (⟨around', before ++ u' :: after⟩ : World k) v' := by
  have hothers : ∀ t ∈ before ++ u :: after,
      t.task.Makes made ∧ t.task.Leads made (good t.reading) v' := by
    intro t ht
    obtain ⟨hmakes, hleads⟩ := hw.visits t ht
    exact ⟨hmakes, hleads.mono (hgood t.reading) hgrows⟩
  refine ⟨hshows, ?_⟩
  intro t ht
  rcases List.mem_append.mp ht with ht | ht
  · exact hothers t (List.mem_append_left _ ht)
  · rcases List.mem_cons.mp ht with rfl | ht
    · exact hu'
    · exact hothers t (by simp [ht])

theorem FileStep.attends (hgood : ∀ r v v' o, v.Grows made v' → good r v o → good r v' o)
    (hmade : ∀ key r, made key r →
      k.shelf.Keeps r.toJson ∧ CacheRecord.ofJson r.toJson = .ok r)
    (hstep : FileStep w w') (hw : w.Attends made good v)
    (hbegin : ∀ r ∈ w'.readings, r.task.Makes made ∧ r.task.Leads made (good r) v) :
    ∃ v', v.Grows made v' ∧ w'.Attends made good v' := by
  cases hstep with
  | begin around visits job input =>
      refine ⟨v, .refl v, hw.shows, ?_⟩
      intro u hu
      rcases List.mem_append.mp hu with hold | hnew
      · exact hw.visits u hold
      · obtain rfl := List.mem_singleton.mp hnew
        exact hbegin _ (List.mem_map_of_mem hu)
  | say around before after reading note next =>
      exact ⟨v, .refl v, hw.replace hgood (.refl v) (hw.shows.of_eq rfl rfl)
        (hw.visits ⟨reading, .say note next⟩ (by simp))⟩
  | @call around before after reading c next now hnow =>
      obtain ⟨⟨hkey, hput, hmakes⟩, hleads⟩ := hw.visits ⟨reading, .call c next⟩ (by simp)
      have haccepts : k.Accepts c.toStoreCall := by
        refine ⟨hkey, ?_⟩
        rintro key value hcall
        cases c with
        | get => cases hcall
        | put key' r =>
            cases hcall
            exact (hmade key r (hput key r rfl)).1
        | recordSeen => cases hcall
      obtain ⟨hreply, hshows⟩ := StoreKind.exec_perform hw.shows hnow haccepts
      have hgrows : v.Grows made (v.step .plain now c.toStoreCall).2 :=
        v.grows_step now fun key r hc => ⟨hput key r hc, (hmade key r (hput key r hc)).2⟩
      refine ⟨_, hgrows, hw.replace hgood hgrows hshows ⟨hmakes _, ?_⟩⟩
      dsimp only
      rw [hreply]
      exact hleads v (.refl v) now
  | elsewhere visits hrecords =>
      obtain ⟨index, hshows⟩ := hrecords v hw.shows
      have hgrows : v.Grows made { v with index } := .of_found_eq rfl
      refine ⟨_, hgrows, hshows, ?_⟩
      intro u hu
      obtain ⟨hmakes, hleads⟩ := hw.visits u hu
      exact ⟨hmakes, hleads.mono (hgood u.reading) hgrows⟩

/-- Files that begin on a store and rely on one another come to good ends. -/
theorem attends_of_reachable (hgood : ∀ r v v' o, v.Grows made v' → good r v o → good r v' o)
    (hmade : ∀ key r, made key r →
      k.shelf.Keeps r.toJson ∧ CacheRecord.ofJson r.toJson = .ok r)
    {around : Surroundings k.State} (hshows : k.Shows around v)
    (hreach : ReflTransGen FileStep ⟨around, []⟩ w)
    (hbegin : ∀ r ∈ w.readings, r.task.Makes made ∧
      ∀ v', v.Grows made v' → r.task.Leads made (good r) v') :
    ∃ v', v.Grows made v' ∧ w.Attends made good v' := by
  -- a file may begin late, so its way is known from every store that has grown since
  induction hreach with
  | refl => exact ⟨v, .refl v, hshows, by simp⟩
  | tail _ hstep ih =>
      obtain ⟨v', hgrows, hattends⟩ := ih fun r hr => hbegin r (hstep.readings_grow.subset hr)
      obtain ⟨v'', hgrows', hattends'⟩ := hstep.attends hgood hmade hattends fun r hr =>
        ⟨(hbegin r hr).1, (hbegin r hr).2 v' hgrows⟩
      exact ⟨v'', hgrows.trans hgrows', hattends'⟩

end

/-! ## Stores in service -/

namespace Upkeep

def toStoreCall : Upkeep → StoreCall
  | .invalidate path => .invalidate path
  | .prune options => .prune options
  | .flush => .flush
  | .clear => .clear

theorem exec_perform {σ : Type} (store : CacheStore σ) (u : Upkeep) (s : Surroundings σ)
    (now : Number) :
    ((u.perform store).exec { s with now }).2 = (store.call s now u.toStoreCall).2 := by
  cases u with
  | prune options =>
      rw [← exec_prune, toStoreCall, CacheStore.call, StoreCall.perform, StoreM.exec_map]
  | _ => rw [toStoreCall, CacheStore.call, StoreCall.perform, StoreM.exec_map]; rfl

theorem accepts {k : StoreKind} (u : Upkeep) : k.Accepts u.toStoreCall := by
  cases u <;> exact ⟨trivial, nofun⟩

end Upkeep

/-- A store in service shows a view. -/
theorem World.InService.exists_shows {k : StoreKind} {w : World k} (hw : w.InService) :
    ∃ v, k.Shows w.around v := by
  obtain ⟨⟨around, hnew, hreach⟩, hnumbers⟩ := hw
  -- upkeep may drop anything, so all that is left to say is that files put what can be read
  let made : Text → CacheRecord → Prop :=
    fun _ r => k.shelf.Keeps r.toJson ∧ CacheRecord.ofJson r.toJson = .ok r
  suffices ∃ v, w.Attends made (fun _ _ _ => True) v by
    obtain ⟨v, hv⟩ := this
    exact ⟨v, hv.shows⟩
  induction hreach with
  | refl => exact ⟨.empty, StoreKind.shows_of_isNew hnew, by simp⟩
  | @tail w w' _ hstep ih =>
      obtain ⟨v, hv⟩ := ih (hnumbers.imp_right fun h r hr => h r (hstep.readings_grow.subset hr))
      cases hstep with
      | file hstep =>
          have hbegin : ∀ r ∈ w'.readings,
              r.task.Makes made ∧ r.task.Leads made (fun _ _ => True) v := by
            intro r hr
            have hexact : k = .memory ∨ r.HasExactNumbers := hnumbers.imp_right fun h => h r hr
            exact ⟨FileTask.makes_start fun s tokens hs => Reading.keeps_record hexact hs,
              FileTask.leads_true _ v⟩
          obtain ⟨v', -, hv'⟩ :=
            hstep.attends (fun _ _ _ _ _ _ => trivial) (fun _ _ h => h) hv hbegin
          exact ⟨v', hv'⟩
      | upkeep around visits u hnow =>
          obtain ⟨-, hshows⟩ := k.refines around v _ u.toStoreCall hv.shows ⟨hnow, u.accepts⟩
          refine ⟨_, by rw [Upkeep.exec_perform]; exact hshows, ?_⟩
          intro t ht
          exact ⟨(hv.visits t ht).1, FileTask.leads_true _ _⟩

end CloneScan
