import CloneScan.Cache.Record
import CloneScan.Proofs.RollingHash
import CloneScan.Proofs.Utf8Text

/-!
# What a stored record reads back as

A record that is found usable after it was stored is the record that was stored: in memory, in its
text and in the bytes of its text.  Its numbers have to be exact for the latter two, since the text
of a number is the text of a binary64 value.
-/

namespace CloneScan

open Json

namespace TokenKind

theorem ofName?_name (k : TokenKind) : ofName? k.name = some k := by
  cases k <;> decide

end TokenKind

namespace Language

theorem ofTag?_tag (l : Language) : ofTag? l.tag = some l := by
  cases l <;> decide

end Language

namespace CacheRecord

theorem count?_count (n : Nat) : (Json.count n).count? = some n := by
  simp [Json.count, Json.count?, Number.toNat?, Number.toInt?]

theorem tokenOf?_tokenJson (t : Token) : tokenOf? (tokenJson t) = some t := by
  simp [tokenOf?, tokenJson, TokenKind.ofName?_name, count?_count]

theorem readAll_map_tokenJson (i : Nat) (tokens : List Token) :
    readAll tokenOf? i (tokens.map tokenJson) = .ok tokens := by
  induction tokens generalizing i with
  | nil => rfl
  | cons t tokens ih => simp [readAll, tokenOf?_tokenJson, ih]

theorem eq_of_hashOf?_count {n m : Nat} (h : hashOf? (Json.count n) = some m) : m = n := by
  simp only [hashOf?, count?_count] at h
  split at h
  · exact (Option.some.inj h).symm
  · cases h

theorem eq_of_readAll_hashOf? {i : Nat} {hashes found : List Nat}
    (h : readAll hashOf? i (hashes.map Json.count) = .ok found) : found = hashes := by
  induction hashes generalizing i found with
  | nil => exact (Except.ok.inj h).symm
  | cons n hashes ih =>
      rw [List.map_cons, readAll] at h
      cases hn : hashOf? (Json.count n) with
      | none => simp [hn] at h
      | some m =>
          cases hmore : readAll hashOf? (i + 1) (hashes.map Json.count) with
          | error j => simp [hn, hmore] at h
          | ok more =>
              simp only [hn, hmore] at h
              rw [← Except.ok.inj h, eq_of_hashOf?_count hn, ih hmore]

theorem eq_of_readLists {r found : CacheRecord}
    (h : readLists r.params r.createdAt (r.tokens.map tokenJson) (r.hashes.map Json.count) =
      .ok found) : found = r := by
  rw [readLists, readAll_map_tokenJson] at h
  cases hhashes : readAll hashOf? 0 (r.hashes.map Json.count) with
  | error i => simp [hhashes] at h
  | ok hashes =>
      simp only [hhashes] at h
      split at h
      · cases h
      · rw [← Except.ok.inj h, eq_of_readAll_hashOf? hhashes]

theorem shapeOf?_paramsJson (p : RecordParams) :
    shapeOf? (paramsJson p) = some (p.window, p.normalize) := by
  have hwindow : (paramsJson p).get? "windowSize" = some (Json.count p.window) := rfl
  have hnormalize : (paramsJson p).get? "normalize" = some (.bool p.normalize) := rfl
  simp [shapeOf?, hwindow, hnormalize, count?_count, Json.bool?]

theorem grammarOf?_paramsJson (p : RecordParams) :
    grammarOf? (paramsJson p) =
      if isDialectName p.dialect then some (p.language, p.dialect) else none := by
  have hlanguage : (paramsJson p).get? "language" = some (.string p.language.tag) := rfl
  have hdialect : (paramsJson p).get? "dialect" = some (.string p.dialect) := rfl
  simp [grammarOf?, hlanguage, hdialect, Json.string?, Language.ofTag?_tag]

/-- All checks but those on the lists are checks on the parameters. -/
theorem ofJson_toJson (r : CacheRecord) :
    ofJson r.toJson =
      if isDialectName r.params.dialect then
        readLists r.params r.createdAt (r.tokens.map tokenJson) (r.hashes.map Json.count)
      else .error .grammar := by
  obtain ⟨fields, hjson, hversion, hparams, hcreatedAt, htokens, hhashes⟩ :
      ∃ fields, r.toJson = .object fields ∧
        getField fields (Text.ofString "schemaVersion") = some (Json.count schemaVersion) ∧
        getField fields (Text.ofString "params") = some (paramsJson r.params) ∧
        getField fields (Text.ofString "createdAt") = some (Json.count r.createdAt) ∧
        getField fields (Text.ofString "tokens") = some (.array (r.tokens.map tokenJson)) ∧
        getField fields (Text.ofString "hashes") = some (.array (r.hashes.map Json.count)) :=
    ⟨_, rfl, rfl, rfl, rfl, rfl, rfl⟩
  have hnumber : (Json.count schemaVersion).number? = some (.finite (schemaVersion : Rat)) := rfl
  rw [hjson, ofJson]
  simp only [hversion, hparams, hcreatedAt, htokens, hhashes, Option.bind_some, hnumber,
    shapeOf?_paramsJson, grammarOf?_paramsJson, count?_count, Json.array?]
  cases isDialectName r.params.dialect <;> simp

/-- A record that is found is the record that was stored. -/
theorem eq_of_ofJson_toJson {r found : CacheRecord} (h : ofJson r.toJson = .ok found) :
    found = r := by
  rw [ofJson_toJson] at h
  split at h
  · exact eq_of_readLists h
  · cases h

/-! ## Records that pass the checks -/

/-- What the checks ask of a record. -/
structure IsSound (r : CacheRecord) : Prop where
  dialect : isDialectName r.params.dialect = true
  hashes : ∀ n ∈ r.hashes, n ≤ 0xFFFFFFFF
  count : 0 < r.params.window → r.hashes.length = windowCount r.tokens.length r.params.window

theorem readAll_map_count {hashes : List Nat} (h : ∀ n ∈ hashes, n ≤ 0xFFFFFFFF) (i : Nat) :
    readAll hashOf? i (hashes.map Json.count) = .ok hashes := by
  induction hashes generalizing i with
  | nil => rfl
  | cons n hashes ih =>
      obtain ⟨hn, hrest⟩ := List.forall_mem_cons.mp h
      simp [readAll, hashOf?, count?_count, hn, ih hrest]

theorem IsSound.ofJson_toJson {r : CacheRecord} (h : r.IsSound) : ofJson r.toJson = .ok r := by
  rw [CacheRecord.ofJson_toJson, if_pos h.dialect, readLists, readAll_map_tokenJson]
  simp only [readAll_map_count h.hashes]
  rw [if_neg]
  simp only [Bool.and_eq_true, decide_eq_true_eq, bne_iff_ne, not_and, not_not]
  exact h.count

/-- The rolling hash gives as many hashes as the checks expect, each of 32 bits. -/
theorem isSound_make {params : RecordParams} (hdialect : isDialectName params.dialect = true)
    (tokens : List Token) (now : Nat) : (make params tokens now).IsSound := by
  refine ⟨hdialect, ?_, ?_⟩
  · intro n hn
    obtain ⟨u, -, rfl⟩ := List.mem_map.mp hn
    exact Nat.le_of_lt_succ u.toNat_lt
  · intro hwindow
    have hlength := windowHashes_length (tokenKeys tokens params.normalize) hwindow
    simpa [make, tokenKeys, windowCount] using hlength

/-! ## In a text -/

/-- The lines and columns of a token are binary64 values. -/
structure HasExactPlace (t : Token) : Prop where
  startLine : Number.IsExact t.startLine
  startColumn : Number.IsExact t.startColumn
  endLine : Number.IsExact t.endLine
  endColumn : Number.IsExact t.endColumn

/-- The numbers of a record are binary64 values. -/
structure IsExact (r : CacheRecord) : Prop where
  window : Number.IsExact r.params.window
  createdAt : Number.IsExact r.createdAt
  tokens : ∀ t ∈ r.tokens, HasExactPlace t
  hashes : ∀ n ∈ r.hashes, Number.IsExact n

theorem faithful_count {n : Nat} (h : Number.IsExact n) : Faithful (Json.count n) :=
  Faithful.number h

theorem faithful_toJson {r : CacheRecord} (hr : r.IsExact) : Faithful r.toJson := by
  have hparams : Faithful (paramsJson r.params) := by
    apply Faithful.object rfl
    simp [Faithful.string, Faithful.bool, faithful_count hr.window]
  have htokens : Faithful (.array (r.tokens.map tokenJson)) := by
    apply Faithful.array
    intro v hv
    obtain ⟨t, ht, rfl⟩ := List.mem_map.mp hv
    obtain ⟨h1, h2, h3, h4⟩ := hr.tokens t ht
    apply Faithful.array
    simp [Faithful.string, faithful_count h1, faithful_count h2, faithful_count h3,
      faithful_count h4]
  have hhashes : Faithful (.array (r.hashes.map Json.count)) := by
    apply Faithful.array
    intro v hv
    obtain ⟨n, hn, rfl⟩ := List.mem_map.mp hv
    exact faithful_count (hr.hashes n hn)
  apply Faithful.object rfl
  simp [hparams, htokens, hhashes, faithful_count hr.createdAt,
    faithful_count (Number.isExact_of_lt (n := schemaVersion) (by decide))]

theorem decode_render {r : CacheRecord} (hr : r.IsExact) :
    decode r.toJson.render = ofJson r.toJson := by
  rw [decode, parse?_render (faithful_toJson hr)]

theorem decode_ofUtf8_toUtf8_render {r : CacheRecord} (hr : r.IsExact) :
    decode (Text.ofUtf8 (Text.toUtf8 r.toJson.render)) = ofJson r.toJson := by
  rw [decode, parse?_ofUtf8_toUtf8_render (faithful_toJson hr)]

end CacheRecord

end CloneScan
