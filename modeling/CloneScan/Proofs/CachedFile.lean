import CloneScan.Proofs.RecordText
import CloneScan.Scan
import CloneScan.Tokenize
import Mathlib.Data.Set.Function

/-!
# One file and the cache

Whatever a file is told by the store, it ends as it would with nothing stored, as long as every
record that it is given is genuine: made of the same bytes in the same grammar.  A record of another
window has the right tokens, and its hashes are not used.
-/

namespace CloneScan

/-- A tokenizer that looks at a path for the dialect alone. -/
def FollowsDialect (tokenizer : Tokenizer) : Prop :=
  ∀ source language path path',
    language.dialect (some path) = language.dialect (some path') →
    tokenizer source language path = tokenizer source language path'

theorem Parsers.followsDialect_tokenizeAs (parsers : Parsers) :
    FollowsDialect parsers.tokenizeAs := by
  intro source language path path' hdialect
  unfold Parsers.tokenizeAs
  cases language with
  | typescript => rw [hdialect]
  | javascript => rw [hdialect]
  | python => rfl
  | go => rfl
  | ruby => rfl

theorem followsDialect_tokenizeAs : FollowsDialect tokenizeAs :=
  Parsers.standard.followsDialect_tokenizeAs

theorem Dialect.name_injective : Function.Injective Dialect.name := by
  intro a b h
  cases a <;> cases b <;> first | rfl | exact absurd h (by decide)

theorem RecordParams.sameDialect_iff (a b : RecordParams) :
    a.sameDialect b = true ↔ a.language = b.language ∧ a.dialect = b.dialect := by
  simp [RecordParams.sameDialect]

theorem RecordParams.same_iff (a b : RecordParams) : a.same b = true ↔ a = b := by
  obtain ⟨language, dialect, window, normalize⟩ := a
  obtain ⟨language', dialect', window', normalize'⟩ := b
  simp [RecordParams.same, RecordParams.sameDialect, and_assoc]

/-! ## Genuine records -/

/-- A record under a key as a scan makes it from the bytes of a file. -/
structure MadeFrom (tokenizer : Tokenizer) (bytes : List UInt8) (path key : Text)
    (r : CacheRecord) : Prop where
  dialect : r.params.dialect = (r.params.language.dialect (some path)).name
  key : key = cacheKey (contentHash bytes) r.params.dialect
  tokens : tokenizer (Text.ofUtf8 bytes) r.params.language path = .ok r.tokens
  hashes : r.hashes = FileTask.hashesOf r.params r.tokens

/-- A record under a key that was made from one of the known contents. -/
def Genuine (tokenizer : Tokenizer) (known : Set (List UInt8)) (key : Text) (r : CacheRecord) :
    Prop :=
  ∃ bytes ∈ known, ∃ path, MadeFrom tokenizer bytes path key r

theorem cacheKey_left_injective {hash hash' dialect : Text}
    (h : cacheKey hash dialect = cacheKey hash' dialect) : hash = hash' := by
  unfold cacheKey at h
  exact List.append_cancel_right (List.append_cancel_right h)

/-- Under the key of a content there are the tokens of that content. -/
theorem Genuine.tokens_eq {tokenizer : Tokenizer} (htokenizer : FollowsDialect tokenizer)
    {known : Set (List UInt8)} (hhash : Set.InjOn contentHash known) {bytes : List UInt8}
    (hbytes : bytes ∈ known) {language : Language} {path : Text} {r : CacheRecord}
    (hgenuine : Genuine tokenizer known
      (cacheKey (contentHash bytes) (language.dialect (some path)).name) r)
    (hlanguage : r.params.language = language)
    (hdialect : r.params.dialect = (language.dialect (some path)).name) :
    tokenizer (Text.ofUtf8 bytes) language path = .ok r.tokens := by
  obtain ⟨bytes', hbytes', path', hmade⟩ := hgenuine
  have hkey := hmade.key
  rw [hdialect] at hkey
  have hsame : bytes = bytes' := hhash hbytes hbytes' (cacheKey_left_injective hkey)
  have hpath : language.dialect (some path) = language.dialect (some path') := by
    apply Dialect.name_injective
    rw [← hdialect, hmade.dialect, hlanguage]
  calc
    tokenizer (Text.ofUtf8 bytes) language path
        = tokenizer (Text.ofUtf8 bytes') r.params.language path' := by
          rw [hsame, hlanguage, htokenizer _ _ _ _ hpath]
    _ = .ok r.tokens := hmade.tokens

/-! ## Outcomes -/

namespace FileOutcome

/-- Two outcomes that a report cannot tell apart, but for where the tokens came from. -/
structure Agrees (o o' : FileOutcome) : Prop where
  file : o.file? = o'.file?
  suppressed : o.suppressed = o'.suppressed
  warning : o.warning? = o'.warning?
  aborted : o.isAborted = o'.isAborted

theorem Agrees.symm {o o' : FileOutcome} (h : o.Agrees o') : o'.Agrees o :=
  ⟨h.file.symm, h.suppressed.symm, h.warning.symm, h.aborted.symm⟩

theorem Agrees.trans {o o' o'' : FileOutcome} (h : o.Agrees o') (h' : o'.Agrees o'') :
    o.Agrees o'' :=
  ⟨h.file.trans h'.file, h.suppressed.trans h'.suppressed, h.warning.trans h'.warning,
    h.aborted.trans h'.aborted⟩

end FileOutcome

namespace FileTask

/-- The outcome of a file when nothing is found and every write succeeds. -/
def uncached : FileTask → FileOutcome
  | .done outcome => outcome
  | .say _ next => next.uncached
  | .call (.get _) next => (next (.ok Lookup.miss)).uncached
  | .call (.put ..) next => (next (.ok ())).uncached
  | .call (.recordSeen ..) next => (next (.ok ())).uncached

/-- Told only records that are `found`, a file puts only records that are `made` and ends in a
`good` outcome. -/
def Sound (found made : Text → CacheRecord → Prop) (good : FileOutcome → Prop) : FileTask → Prop
  | .done outcome => good outcome
  | .say _ next => Sound found made good next
  | .call (.get key) next =>
    ∀ reply : Except StoreFault Lookup, (∀ r, reply = .ok (.hit r) → found key r) →
      Sound found made good (next reply)
  | .call (.put key r) next => made key r ∧ ∀ reply, Sound found made good (next reply)
  | .call (.recordSeen _ _) next => ∀ reply, Sound found made good (next reply)

section

variable {found made : Text → CacheRecord → Prop} {tokenizer : Tokenizer} {s : Subject}

theorem sound_skip (path : Text) (failure : Failure) :
    Sound found made (fun o => o.Agrees (skip path failure).uncached) (skip path failure) :=
  ⟨rfl, rfl, rfl, rfl⟩

theorem sound_finish (tokens : List Token) (hashes : List Nat) (cache cache' : CacheOutcome) :
    Sound found made (fun o => o.Agrees (finish s tokens hashes cache').uncached)
      (finish s tokens hashes cache) := by
  intro reply
  cases reply with
  | ok _ => exact ⟨rfl, rfl, rfl, rfl⟩
  | error fault => exact ⟨rfl, rfl, rfl, rfl⟩

theorem uncached_compute {tokens : List Token}
    (htokens : tokenizer s.source s.language s.path = .ok tokens) (cache : CacheOutcome) :
    (compute tokenizer s cache).uncached =
      (finish s tokens (hashesOf s.params tokens) cache).uncached := by
  unfold compute
  rw [htokens]
  rfl

theorem sound_compute
    (hmade : ∀ tokens, tokenizer s.source s.language s.path = .ok tokens →
      made s.key ⟨s.params, tokens, hashesOf s.params tokens, s.createdAt⟩)
    (cache : CacheOutcome) :
    Sound found made (fun o => o.Agrees (compute tokenizer s .miss).uncached)
      (compute tokenizer s cache) := by
  cases htokens : tokenizer s.source s.language s.path with
  | error failure =>
      unfold compute
      rw [htokens]
      exact sound_skip s.path failure
  | ok tokens =>
      rw [uncached_compute htokens]
      unfold compute
      rw [htokens]
      refine ⟨hmade tokens htokens, ?_⟩
      intro reply
      cases reply with
      | ok _ => exact sound_finish tokens _ cache .miss
      | error fault => exact sound_finish tokens _ cache .miss

/-- What a file was told decides where its tokens come from, not what they are. -/
theorem sound_resume
    (hmade : ∀ tokens, tokenizer s.source s.language s.path = .ok tokens →
      made s.key ⟨s.params, tokens, hashesOf s.params tokens, s.createdAt⟩)
    (hfound : ∀ r, found s.key r → r.params.sameDialect s.params = true →
      tokenizer s.source s.language s.path = .ok r.tokens ∧
        r.hashes = hashesOf r.params r.tokens)
    {reply : Except StoreFault Lookup} (hreply : ∀ r, reply = .ok (.hit r) → found s.key r) :
    Sound found made (fun o => o.Agrees (compute tokenizer s .miss).uncached)
      (resume tokenizer s reply) := by
  match reply with
  | .error fault => exact sound_compute hmade .miss
  | .ok .miss => exact sound_compute hmade .miss
  | .ok (.corrupt reason) => exact sound_compute hmade .corrupt
  | .ok (.hit r) =>
      rw [resume]
      split
      case isFalse => exact sound_compute hmade .corrupt
      case isTrue hdialect =>
          obtain ⟨htokens, hhashes⟩ := hfound r (hreply r rfl) hdialect
          -- hashes of another window are computed anew, and those of this one are the same
          have hused : (if r.params.same s.params then r.hashes else hashesOf s.params r.tokens) =
              hashesOf s.params r.tokens := by
            split
            case isTrue hsame => rw [hhashes, (RecordParams.same_iff _ _).mp hsame]
            case isFalse => rfl
          rw [hused, uncached_compute htokens]
          exact sound_finish r.tokens _ .hit .miss

end

/-! ## Whole files -/

/-- Nothing but the time of a record depends on the clock. -/
theorem uncached_start_now (config : Config) (tokenizer : Tokenizer) (now now' : Nat)
    (input : ScanInput) (content : Except FileFault (List UInt8)) :
    (start config tokenizer now input content).uncached =
      (start config tokenizer now' input content).uncached := by
  unfold start
  cases Language.ofTag? input.language with
  | none => rfl
  | some language =>
      cases content with
      | error fault => rfl
      | ok bytes =>
          simp only [uncached, resume, compute, subject]
          cases tokenizer (Text.ofUtf8 bytes) language input.path <;> rfl

theorem isAborted_uncached_start (config : Config) (tokenizer : Tokenizer) (now : Nat)
    (input : ScanInput) (content : Except FileFault (List UInt8)) :
    (start config tokenizer now input content).uncached.isAborted = false := by
  unfold start
  cases Language.ofTag? input.language with
  | none => rfl
  | some language =>
      cases content with
      | error fault => rfl
      | ok bytes =>
          simp only [uncached, resume, compute, subject]
          cases tokenizer (Text.ofUtf8 bytes) language input.path <;> rfl

/-- A file that is told genuine records puts genuine records and ends as with nothing stored. -/
theorem sound_start {tokenizer : Tokenizer} (htokenizer : FollowsDialect tokenizer)
    {known : Set (List UInt8)} (hhash : Set.InjOn contentHash known) {config : Config} {now : Nat}
    {input : ScanInput} {content : Except FileFault (List UInt8)}
    (hcontent : ∀ bytes, content = .ok bytes → bytes ∈ known)
    {fits : CacheRecord → Prop}
    (hfits : ∀ language bytes tokens, Language.ofTag? input.language = some language →
      content = .ok bytes → tokenizer (Text.ofUtf8 bytes) language input.path = .ok tokens →
      fits ⟨(subject config now input.path language bytes).params, tokens,
        hashesOf (subject config now input.path language bytes).params tokens, now⟩) :
    Sound (Genuine tokenizer known) (fun key r => Genuine tokenizer known key r ∧ fits r)
      (fun o => o.Agrees (start config tokenizer now input content).uncached)
      (start config tokenizer now input content) := by
  unfold start
  cases hlanguage : Language.ofTag? input.language with
  | none => exact sound_skip input.path _
  | some language =>
      cases content with
      | error fault => exact sound_skip input.path _
      | ok bytes =>
          intro reply hreply
          have hbytes := hcontent bytes rfl
          refine sound_resume ?_ ?_ hreply
          · intro tokens htokens
            refine ⟨⟨bytes, hbytes, input.path, ?_⟩,
              hfits language bytes tokens hlanguage rfl htokens⟩
            exact ⟨rfl, rfl, htokens, rfl⟩
          · intro r hr hsame
            obtain ⟨hl, hd⟩ := (RecordParams.sameDialect_iff _ _).mp hsame
            have hhashes : r.hashes = hashesOf r.params r.tokens := by
              obtain ⟨_, _, _, hmade⟩ := hr
              exact hmade.hashes
            exact ⟨hr.tokens_eq htokenizer hhash hbytes hl hd, hhashes⟩

end FileTask

end CloneScan
