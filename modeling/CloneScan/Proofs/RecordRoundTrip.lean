import CloneScan.Proofs.JsonReading
import CloneScan.Proofs.PlainNumber
import CloneScan.Proofs.RecordText
import CloneScan.Proofs.RoundedNumber

/-!
# Records survive their text

A record made of a token stream is written to a text that reads back as the same record.  The same
holds of every record that was ever read: its numbers went through rounding, so they are values
that their own texts read back to, and what the checks let pass once they let pass again.
-/

namespace CloneScan

namespace Number

/-- A number that rounding does not change any more, if it is finite. -/
def IsRounded (x : Number) : Prop :=
  ∀ q, x = .finite q → round q = .finite q

theorem isRounded_round (q : ℚ) : (round q).IsRounded :=
  fun _ h => round_of_round_eq_finite h

theorem isRounded_zero : (finite 0).IsRounded := by
  rintro q ⟨rfl⟩
  rfl

theorem IsRounded.neg {x : Number} (h : x.IsRounded) : x.neg.IsRounded := by
  intro q hq
  cases x with
  | nan => cases hq
  | infinite s => cases hq
  | finite p =>
      obtain rfl := Number.finite.inj hq
      rw [round_neg, h p rfl]
      rfl

theorem isRounded_ofDecimal (digits length : Nat) (exponent : Int) :
    (ofDecimal digits length exponent).IsRounded := by
  unfold ofDecimal
  split_ifs
  · exact isRounded_zero
  · rintro q ⟨⟩
  · exact isRounded_zero
  · split
    · exact isRounded_round _
    · exact isRounded_round _

/-- The count that a rounded number stands for is exact. -/
theorem isExact_of_toNat? {x : Number} (hx : x.IsRounded) {n : Nat} (h : x.toNat? = some n) :
    IsExact n :=
  hx n (toNat?_eq_some_iff.mp h)

end Number

namespace Json

/-! ## The numbers of a value that was read -/

/-- Every number of a value is a rounded one. -/
inductive Rounded : Json → Prop where
  | null : Rounded .null
  | bool (b : Bool) : Rounded (.bool b)
  | number {x : Number} (hx : x.IsRounded) : Rounded (.number x)
  | string (t : Text) : Rounded (.string t)
  | array {items : List Json} (hitems : ∀ v ∈ items, Rounded v) : Rounded (.array items)
  | object {fields : Fields} (hfields : ∀ f ∈ fields, Rounded f.2) : Rounded (.object fields)

theorem isRounded_of_readMagnitude? {t : Text} {x : Number × Text}
    (h : readMagnitude? t = some x) : x.1.IsRounded := by
  rw [Number.readMagnitude?_eq] at h
  split at h
  · cases h
  · obtain ⟨fraction, -, h⟩ := Option.bind_eq_some_iff.mp h
    obtain ⟨exponent, -, h⟩ := Option.bind_eq_some_iff.mp h
    obtain rfl := Option.some.inj h
    exact Number.isRounded_ofDecimal _ _ _

theorem isRounded_of_readNumber? {t : Text} {x : Number × Text} (h : readNumber? t = some x) :
    x.1.IsRounded := by
  unfold readNumber? at h
  split at h
  · obtain ⟨y, hy, rfl⟩ := Option.map_eq_some_iff.mp h
    exact (isRounded_of_readMagnitude? hy).neg
  · exact isRounded_of_readMagnitude? h

theorem isHereditary_rounded : IsHereditary Rounded where
  null := .null
  bool := .bool
  number _ _ hx := .number (isRounded_of_readNumber? hx)
  string := .string
  array _ := .array
  object _ hfields _ := .object hfields

/-- Reading rounds every number. -/
theorem rounded_of_parse? {t : Text} {v : Json} (h : parse? t = some v) : Rounded v :=
  isHereditary_rounded.of_parse? h

theorem Rounded.getField {fields : Fields} (h : Rounded (.object fields)) {key : Text} {v : Json}
    (hv : getField fields key = some v) : Rounded v := by
  obtain ⟨f, hf, rfl⟩ := Option.map_eq_some_iff.mp hv
  cases h with
  | object hfields => exact hfields f (List.mem_of_find?_eq_some hf)

theorem Rounded.isExact_of_count? {v : Json} (h : Rounded v) {n : Nat} (hn : v.count? = some n) :
    Number.IsExact n := by
  cases h with
  | number hx => exact Number.isExact_of_toNat? hx hn
  | _ => cases hn

end Json

namespace CacheRecord

open Json

/-! ## What the checks let pass -/

theorem forall_of_readAll {α : Type} {read : Json → Option α} {P : Json → Prop} {Q : α → Prop}
    (hread : ∀ v x, P v → read v = some x → Q x) {i : Nat} {items : List Json}
    (hitems : ∀ v ∈ items, P v) {xs : List α} (h : readAll read i items = .ok xs) :
    ∀ x ∈ xs, Q x := by
  induction items generalizing i xs with
  | nil =>
      obtain rfl := Except.ok.inj h
      simp
  | cons v items ih =>
      obtain ⟨hv, hrest⟩ := List.forall_mem_cons.mp hitems
      rw [readAll] at h
      split at h
      · cases h
      · rename_i x hx
        split at h
        · cases h
        · rename_i more hmore
          obtain rfl := Except.ok.inj h
          exact List.forall_mem_cons.mpr ⟨hread v x hv hx, ih hrest hmore⟩

theorem hasExactPlace_of_tokenOf? {v : Json} (hv : Rounded v) {t : Token}
    (h : tokenOf? v = some t) : HasExactPlace t := by
  unfold tokenOf? at h
  split at h
  · rename_i text normalized kind a b c d
    obtain ⟨kind, -, h⟩ := Option.bind_eq_some_iff.mp h
    obtain ⟨startLine, ha, h⟩ := Option.bind_eq_some_iff.mp h
    obtain ⟨startColumn, hb, h⟩ := Option.bind_eq_some_iff.mp h
    obtain ⟨endLine, hc, h⟩ := Option.bind_eq_some_iff.mp h
    obtain ⟨endColumn, hd, h⟩ := Option.bind_eq_some_iff.mp h
    obtain rfl := Option.some.inj h
    cases hv with
    | array hitems =>
        exact ⟨(hitems a (by simp)).isExact_of_count? ha, (hitems b (by simp)).isExact_of_count? hb,
          (hitems c (by simp)).isExact_of_count? hc, (hitems d (by simp)).isExact_of_count? hd⟩
  · cases h

theorem le_of_hashOf? {v : Json} {n : Nat} (h : hashOf? v = some n) : n ≤ 0xFFFFFFFF := by
  unfold hashOf? at h
  split at h
  · split at h
    · obtain rfl := Option.some.inj h
      assumption
    · cases h
  · cases h

theorem isExact_of_shapeOf? {v : Json} (hv : Rounded v) {window : Nat} {normalize : Bool}
    (h : shapeOf? v = some (window, normalize)) : Number.IsExact window := by
  obtain ⟨w, hw, h⟩ := Option.bind_eq_some_iff.mp h
  obtain ⟨count, hcount, h⟩ := Option.bind_eq_some_iff.mp h
  obtain ⟨b, -, h⟩ := Option.bind_eq_some_iff.mp h
  obtain ⟨flag, -, h⟩ := Option.bind_eq_some_iff.mp h
  obtain ⟨rfl, -⟩ := Prod.mk.inj (Option.some.inj h)
  cases v with
  | object fields => exact (hv.getField hw).isExact_of_count? hcount
  | _ => cases hw

theorem isDialectName_of_grammarOf? {v : Json} {language : Language} {dialect : Text}
    (h : grammarOf? v = some (language, dialect)) : isDialectName dialect = true := by
  obtain ⟨tag, -, h⟩ := Option.bind_eq_some_iff.mp h
  obtain ⟨text, -, h⟩ := Option.bind_eq_some_iff.mp h
  obtain ⟨found, -, h⟩ := Option.bind_eq_some_iff.mp h
  obtain ⟨name, -, h⟩ := Option.bind_eq_some_iff.mp h
  obtain ⟨word, -, h⟩ := Option.bind_eq_some_iff.mp h
  split at h
  · obtain ⟨-, rfl⟩ := Prod.mk.inj (Option.some.inj h)
    assumption
  · cases h

theorem readLists_eq_ok {params : RecordParams} {createdAt : Nat} {tokens hashes : List Json}
    {r : CacheRecord} (h : readLists params createdAt tokens hashes = .ok r) :
    r.params = params ∧ r.createdAt = createdAt ∧ readAll tokenOf? 0 tokens = .ok r.tokens ∧
      readAll hashOf? 0 hashes = .ok r.hashes ∧
      (0 < params.window → r.hashes.length = windowCount r.tokens.length params.window) := by
  unfold readLists at h
  split at h
  · cases h
  · rename_i ts hts
    split at h
    · cases h
    · rename_i hs hhs
      dsimp only at h
      split at h
      · cases h
      · rename_i hcount
        obtain rfl := Except.ok.inj h
        refine ⟨rfl, rfl, hts, hhs, ?_⟩
        simpa using hcount

theorem readLists_of_ofJson {fields : Fields} {r : CacheRecord}
    (h : ofJson (.object fields) = .ok r) :
    ∃ window normalize language dialect createdAt tokens hashes,
      (getField fields (Text.ofString "params")).bind shapeOf? = some (window, normalize) ∧
      (getField fields (Text.ofString "params")).bind grammarOf? = some (language, dialect) ∧
      (getField fields (Text.ofString "createdAt")).bind count? = some createdAt ∧
      (getField fields (Text.ofString "tokens")).bind array? = some tokens ∧
      (getField fields (Text.ofString "hashes")).bind array? = some hashes ∧
      readLists ⟨language, dialect, window, normalize⟩ createdAt tokens hashes = .ok r := by
  unfold ofJson at h
  dsimp only at h
  split at h
  · split at h
    · cases h
    · split at h
      · cases h
      · cases h
      · rename_i hshape hgrammar
        split at h
        · cases h
        · rename_i hcreated
          split at h
          · rename_i htokens hhashes
            exact ⟨_, _, _, _, _, _, _, hshape, hgrammar, hcreated, htokens, hhashes, h⟩
          · cases h
  · cases h

theorem eq_array_of_bind {v : Option Json} {items : List Json} (h : v.bind array? = some items) :
    v = some (.array items) := by
  obtain ⟨w, rfl, hw⟩ := Option.bind_eq_some_iff.mp h
  cases w <;> cases hw
  rfl

/-- A record that was read comes from fields that passed their checks. -/
theorem exists_fields_of_ofJson {v : Json} {r : CacheRecord} (h : ofJson v = .ok r) :
    ∃ fields params createdAt tokens hashes, v = .object fields ∧
      getField fields (Text.ofString "params") = some params ∧
      shapeOf? params = some (r.params.window, r.params.normalize) ∧
      grammarOf? params = some (r.params.language, r.params.dialect) ∧
      getField fields (Text.ofString "createdAt") = some createdAt ∧
      createdAt.count? = some r.createdAt ∧
      getField fields (Text.ofString "tokens") = some (.array tokens) ∧
      getField fields (Text.ofString "hashes") = some (.array hashes) ∧
      readLists r.params r.createdAt tokens hashes = .ok r := by
  cases v with
  | object fields =>
    obtain ⟨window, normalize, language, dialect, createdAt, tokens, hashes, hshape, hgrammar,
      hcreated, htokens, hhashes, hlists⟩ := readLists_of_ofJson h
    obtain ⟨params, hparams, hshape⟩ := Option.bind_eq_some_iff.mp hshape
    rw [hparams, Option.bind_some] at hgrammar
    obtain ⟨created, hfield, hcount⟩ := Option.bind_eq_some_iff.mp hcreated
    obtain ⟨hrparams, rfl, -⟩ := readLists_eq_ok hlists
    rw [hrparams]
    exact ⟨fields, params, created, tokens, hashes, rfl, hparams, hshape, hgrammar, hfield, hcount,
      eq_array_of_bind htokens, eq_array_of_bind hhashes, hlists⟩
  | _ => cases h

theorem isSound_of_ofJson {v : Json} {r : CacheRecord} (h : ofJson v = .ok r) : r.IsSound := by
  obtain ⟨fields, params, createdAt, tokens, hashes, -, -, -, hgrammar, -, -, -, -, hlists⟩ :=
    exists_fields_of_ofJson h
  obtain ⟨-, -, -, hhashes, hcount⟩ := readLists_eq_ok hlists
  refine ⟨isDialectName_of_grammarOf? hgrammar, ?_, hcount⟩
  exact forall_of_readAll (P := fun _ => True) (fun _ _ _ hn => le_of_hashOf? hn) (by simp) hhashes

theorem isExact_of_ofJson {v : Json} (hv : Rounded v) {r : CacheRecord} (h : ofJson v = .ok r) :
    r.IsExact := by
  have hsound := isSound_of_ofJson h
  obtain ⟨fields, params, createdAt, tokens, hashes, rfl, hparams, hshape, -, hcreated, hcount,
    htokens, -, hlists⟩ := exists_fields_of_ofJson h
  obtain ⟨-, -, hread, -, -⟩ := readLists_eq_ok hlists
  refine ⟨isExact_of_shapeOf? (hv.getField hparams) hshape,
    (hv.getField hcreated).isExact_of_count? hcount, ?_, ?_⟩
  · have hitems : ∀ w ∈ tokens, Rounded w := by
      cases hv.getField htokens with
      | array hitems => exact hitems
    exact forall_of_readAll (fun _ _ hw ht => hasExactPlace_of_tokenOf? hw ht) hitems hread
  · intro n hn
    have hle := hsound.hashes n hn
    exact Number.isExact_of_lt (by omega)

/-! ## Round trips -/

theorem IsSound.decode_encode {r : CacheRecord} (hsound : r.IsSound) (hexact : r.IsExact) :
    decode r.encode = .ok r := by
  rw [encode, decode_render hexact, hsound.ofJson_toJson]

theorem isExact_make {params : RecordParams} {tokens : List Token} {now : Nat}
    (hwindow : Number.IsExact params.window) (hnow : Number.IsExact now)
    (htokens : ∀ t ∈ tokens, HasExactPlace t)
    (hsound : (make params tokens now).IsSound) : (make params tokens now).IsExact := by
  refine ⟨hwindow, hnow, htokens, ?_⟩
  intro n hn
  have hle := hsound.hashes n hn
  exact Number.isExact_of_lt (by omega)

/-- A record of a token stream whose places, window and time are numbers reads back from its text,
and so do its tokens from theirs, whatever the texts of the tokens are and whether or not the
stream fills a window.  And whatever text is accepted, the record it gives is written to a text
that gives the same record. -/
theorem decode_encode_roundTrip :
    (∀ (params : RecordParams) (tokens : List Token) (now : Nat),
      1 ≤ params.window → isDialectName params.dialect = true →
      Number.IsExact params.window → Number.IsExact now → (∀ t ∈ tokens, HasExactPlace t) →
        decode (make params tokens now).encode = .ok (make params tokens now) ∧
          readAll tokenOf? 0 ((make params tokens now).tokens.map tokenJson) = .ok tokens) ∧
    ∀ (t : Text) (r : CacheRecord), decode t = .ok r → decode r.encode = .ok r := by
  refine ⟨?_, ?_⟩
  · intro params tokens now _ hdialect hwindow hnow htokens
    have hsound := isSound_make hdialect tokens now
    have hexact := isExact_make hwindow hnow htokens hsound
    exact ⟨hsound.decode_encode hexact, readAll_map_tokenJson 0 tokens⟩
  · intro t r h
    unfold decode at h
    split at h
    · cases h
    · rename_i v hv
      exact (isSound_of_ofJson h).decode_encode (isExact_of_ofJson (rounded_of_parse? hv) h)

/-- A quote, a line feed, half of a surrogate pair and a backslash. -/
def oddToken : Token :=
  Token.make [0x22, 0x0A, 0xD800, 0x5C] .string ⟨0, 4⟩ ⟨1, 1⟩

/-- A record in another order than the written one, with a time that has an exponent and a window of
negative zero. -/
def looseText : Text :=
  Text.ofString ("\x7b\"createdAt\":0.5e4, \"schemaVersion\":2.0,\n" ++
    "\"params\":\x7b\"dialect\":\"go\",\"language\":\"go\",\"windowSize\":-0," ++
    "\"normalize\":true\x7d,\"tokens\":[],\"hashes\":[4294967295]\x7d")

def looseRecord : CacheRecord :=
  ⟨⟨.go, Text.ofString "go", 0, true⟩, [], [4294967295], 5000⟩

theorem decode_encode_roundTrip_looseText :
    decode (make ⟨.typescript, Text.ofString "ts", 3, false⟩ [oddToken] 7).encode =
        .ok (make ⟨.typescript, Text.ofString "ts", 3, false⟩ [oddToken] 7) ∧
      decode looseText = .ok looseRecord ∧ decode looseRecord.encode = .ok looseRecord := by
  have hread : (decode looseText).toOption = some looseRecord := by decide +kernel
  have hloose : decode looseText = .ok looseRecord := by
    cases hd : decode looseText with
    | error fault =>
        rw [hd] at hread
        cases hread
    | ok r =>
        rw [hd] at hread
        rw [Option.some.inj hread]
  have hplace : ∀ t ∈ [oddToken], HasExactPlace t := by
    intro t ht
    rw [List.mem_singleton.mp ht]
    constructor <;> exact Number.isExact_of_lt (by decide)
  have hmade := decode_encode_roundTrip.1 ⟨.typescript, Text.ofString "ts", 3, false⟩ [oddToken] 7
    (by decide) (by decide) (Number.isExact_of_lt (by decide)) (Number.isExact_of_lt (by decide))
    hplace
  exact ⟨hmade.1, hloose, decode_encode_roundTrip.2 looseText looseRecord hloose⟩

end CacheRecord

end CloneScan
