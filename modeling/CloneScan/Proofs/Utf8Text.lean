import CloneScan.Proofs.JsonText
import CloneScan.Text.Utf8

/-!
# UTF-8 reads back

A text whose surrogates all stand in pairs survives the way through its bytes.  The text of a JSON
value is such a text, whatever its strings hold, for a surrogate without a partner is escaped.
-/

namespace CloneScan

namespace Text

/-- A scalar value: a code point that is no surrogate. -/
def IsScalar (n : Nat) : Prop :=
  n < 0xD800 ∨ (0xE000 ≤ n ∧ n < 0x110000)

/-- A text that is spelled by scalar values. -/
def IsPaired (t : Text) : Prop :=
  ∃ ns : List Nat, (∀ n ∈ ns, IsScalar n) ∧ t = ns.flatMap ofScalar

/-! ## Bytes of one scalar value -/

theorem toNat_toUInt8 {n : Nat} (h : n < 256) : n.toUInt8.toNat = n := by
  simp [Nat.mod_eq_of_lt h]

theorem decodeFrom_cons_ascii {n : Nat} (h : n < 0x80) (rest : List UInt8) :
    decodeFrom .start (n.toUInt8 :: rest) = n.toUInt16 :: decodeFrom .start rest := by
  have hlead : leadByte? n.toUInt8 = some (0, 0x80, 0xBF, n) := by
    simp only [leadByte?, toNat_toUInt8 (show n < 256 by omega), if_pos h]
  rw [decodeFrom]
  simp [Utf8State.start, hlead]

theorem decodeFrom_cons_lead {b : UInt8} {needed low high bits : Nat}
    (h : leadByte? b = some (needed + 1, low, high, bits)) (rest : List UInt8) :
    decodeFrom .start (b :: rest) = decodeFrom ⟨needed + 1, low, high, bits⟩ rest := by
  rw [decodeFrom]
  simp [Utf8State.start, h]

theorem decodeFrom_cons_next {needed low high bits n : Nat} (hn : n < 0x40)
    (hlow : low ≤ 0x80 + n) (hhigh : 0x80 + n ≤ high) (rest : List UInt8) :
    decodeFrom ⟨needed + 2, low, high, bits⟩ ((0x80 + n).toUInt8 :: rest) =
      decodeFrom ⟨needed + 1, 0x80, 0xBF, bits * 64 + n⟩ rest := by
  have hbyte : (0x80 + n).toUInt8.toNat = 0x80 + n := toNat_toUInt8 (by omega)
  rw [decodeFrom]
  simp only [hbyte, hlow, hhigh]
  simp

theorem decodeFrom_cons_last {low high bits n : Nat} (hn : n < 0x40)
    (hlow : low ≤ 0x80 + n) (hhigh : 0x80 + n ≤ high) (rest : List UInt8) :
    decodeFrom ⟨1, low, high, bits⟩ ((0x80 + n).toUInt8 :: rest) =
      ofScalar (bits * 64 + n) ++ decodeFrom .start rest := by
  have hbyte : (0x80 + n).toUInt8.toNat = 0x80 + n := toNat_toUInt8 (by omega)
  rw [decodeFrom]
  simp only [hbyte, hlow, hhigh]
  simp

theorem leadByte?_two {n : Nat} (hlow : 0x80 ≤ n) (hhigh : n < 0x800) :
    leadByte? (0xC0 + n / 64).toUInt8 = some (1, 0x80, 0xBF, n / 64) := by
  have hbyte : (0xC0 + n / 64).toUInt8.toNat = 0xC0 + n / 64 := toNat_toUInt8 (by omega)
  simp only [leadByte?, hbyte]
  rw [if_neg (by omega), if_neg (by omega), if_pos (by omega), Nat.add_sub_cancel_left]

/-- The range of the second byte rules out the overlong forms and the surrogates. -/
theorem leadByte?_three {n : Nat} (hlow : 0x800 ≤ n) (hhigh : n < 0x10000) (hn : IsScalar n) :
    ∃ low high, leadByte? (0xE0 + n / 4096).toUInt8 = some (2, low, high, n / 4096) ∧
      low ≤ 0x80 + n / 64 % 64 ∧ 0x80 + n / 64 % 64 ≤ high := by
  have hbyte : (0xE0 + n / 4096).toUInt8.toNat = 0xE0 + n / 4096 := toNat_toUInt8 (by omega)
  unfold IsScalar at hn
  simp only [leadByte?, hbyte, beq_iff_eq]
  rw [if_neg (by omega), if_neg (by omega), if_neg (by omega)]
  split_ifs with hfirst hlast hmiddle
  · exact ⟨_, _, by rw [show n / 4096 = 0 by omega], by omega, by omega⟩
  · exact ⟨_, _, by rw [show n / 4096 = 0xD by omega], by omega, by omega⟩
  · exact ⟨_, _, by rw [Nat.add_sub_cancel_left], by omega, by omega⟩
  · omega
  · omega
  · omega
  · omega

theorem leadByte?_four {n : Nat} (hlow : 0x10000 ≤ n) (hhigh : n < 0x110000) :
    ∃ low high, leadByte? (0xF0 + n / 262144).toUInt8 = some (3, low, high, n / 262144) ∧
      low ≤ 0x80 + n / 4096 % 64 ∧ 0x80 + n / 4096 % 64 ≤ high := by
  have hbyte : (0xF0 + n / 262144).toUInt8.toNat = 0xF0 + n / 262144 := toNat_toUInt8 (by omega)
  simp only [leadByte?, hbyte, beq_iff_eq]
  rw [if_neg (by omega), if_neg (by omega), if_neg (by omega), if_neg (by omega),
    if_neg (by omega), if_neg (by omega)]
  split_ifs with hfirst hmiddle hlast
  · exact ⟨_, _, by rw [show n / 262144 = 0 by omega], by omega, by omega⟩
  · exact ⟨_, _, by rw [Nat.add_sub_cancel_left], by omega, by omega⟩
  · exact ⟨_, _, by rw [show n / 262144 = 4 by omega], by omega, by omega⟩
  · omega

theorem decodeFrom_scalarBytes {n : Nat} (hn : IsScalar n) (rest : List UInt8) :
    decodeFrom .start (scalarBytes n ++ rest) = ofScalar n ++ decodeFrom .start rest := by
  have hsmall : ∀ m, m % 64 < 0x40 := fun m => Nat.mod_lt m (by norm_num)
  unfold scalarBytes
  split_ifs with hone htwo hthree
  · rw [List.singleton_append, decodeFrom_cons_ascii hone, ofScalar, if_pos (by omega)]
    rfl
  · have hbits : n / 64 * 64 + n % 64 = n := by omega
    rw [List.cons_append, List.singleton_append,
      decodeFrom_cons_lead (leadByte?_two (by omega) htwo),
      decodeFrom_cons_last (hsmall n) (by omega) (by have := hsmall n; omega), hbits]
  · obtain ⟨low, high, hlead, hlow, hhigh⟩ := leadByte?_three (by omega) hthree hn
    have hbits : (n / 4096 * 64 + n / 64 % 64) * 64 + n % 64 = n := by omega
    rw [List.cons_append, List.cons_append, List.singleton_append, decodeFrom_cons_lead hlead,
      decodeFrom_cons_next (hsmall (n / 64)) hlow hhigh,
      decodeFrom_cons_last (hsmall n) (by omega) (by have := hsmall n; omega), hbits]
  · have htop : n < 0x110000 := by
      unfold IsScalar at hn
      omega
    obtain ⟨low, high, hlead, hlow, hhigh⟩ := leadByte?_four (by omega) htop
    have hbits : ((n / 262144 * 64 + n / 4096 % 64) * 64 + n / 64 % 64) * 64 + n % 64 = n := by
      omega
    rw [List.cons_append, List.cons_append, List.cons_append, List.singleton_append,
      decodeFrom_cons_lead hlead, decodeFrom_cons_next (hsmall (n / 4096)) hlow hhigh,
      decodeFrom_cons_next (hsmall (n / 64)) (by omega) (by have := hsmall (n / 64); omega),
      decodeFrom_cons_last (hsmall n) (by omega) (by have := hsmall n; omega), hbits]

/-! ## Scalar values of a text -/

theorem isHighSurrogate_iff (u : UInt16) :
    isHighSurrogate u = true ↔ 0xD800 ≤ u.toNat ∧ u.toNat ≤ 0xDBFF := by
  simp [isHighSurrogate, UInt16.le_iff_toNat_le]

theorem isLowSurrogate_iff (u : UInt16) :
    isLowSurrogate u = true ↔ 0xDC00 ≤ u.toNat ∧ u.toNat ≤ 0xDFFF := by
  simp [isLowSurrogate, UInt16.le_iff_toNat_le]

theorem toNat_toUInt16 {n : Nat} (h : n < 65536) : n.toUInt16.toNat = n := by
  simp [Nat.mod_eq_of_lt h]

theorem scalars_cons {u : UInt16} (hhigh : ¬ isHighSurrogate u = true)
    (hlow : ¬ isLowSurrogate u = true) (t : Text) : scalars (u :: t) = u.toNat :: scalars t := by
  cases t with
  | nil => simp [scalars, hhigh, hlow]
  | cons v rest => simp [scalars, hhigh, hlow]

theorem scalars_cons_cons {u v : UInt16} (hhigh : isHighSurrogate u = true)
    (hlow : isLowSurrogate v = true) (t : Text) :
    scalars (u :: v :: t) = pairValue u v :: scalars t := by
  simp [scalars, hhigh, hlow]

theorem scalars_surrogates {a b : Nat} (ha : a < 0x400) (hb : b < 0x400) (t : Text) :
    scalars ((0xD800 + a).toUInt16 :: (0xDC00 + b).toUInt16 :: t) =
      (0x10000 + a * 0x400 + b) :: scalars t := by
  have hfirst : (0xD800 + a).toUInt16.toNat = 0xD800 + a := toNat_toUInt16 (by omega)
  have hsecond : (0xDC00 + b).toUInt16.toNat = 0xDC00 + b := toNat_toUInt16 (by omega)
  -- The units are opaque from here on, so that no search compares the large constants in them.
  generalize (0xD800 + a).toUInt16 = u at *
  generalize (0xDC00 + b).toUInt16 = v at *
  have hhigh : isHighSurrogate u = true := by
    rw [isHighSurrogate_iff]
    omega
  have hlow : isLowSurrogate v = true := by
    rw [isLowSurrogate_iff]
    omega
  have hvalue : pairValue u v = 0x10000 + a * 0x400 + b := by
    unfold pairValue
    omega
  rw [scalars_cons_cons hhigh hlow, hvalue]

theorem scalars_ofScalar_append {n : Nat} (hn : IsScalar n) (t : Text) :
    scalars (ofScalar n ++ t) = n :: scalars t := by
  unfold ofScalar
  unfold IsScalar at hn
  split_ifs with hsmall
  · have hunit := toNat_toUInt16 hsmall
    rw [List.singleton_append, scalars_cons, hunit]
    · rw [isHighSurrogate_iff, hunit]
      omega
    · rw [isLowSurrogate_iff, hunit]
      omega
  · have hvalue : 0x10000 + (n - 0x10000) / 0x400 * 0x400 + (n - 0x10000) % 0x400 = n := by
      omega
    rw [List.cons_append, List.singleton_append, scalars_surrogates (by omega) (by omega), hvalue]

theorem scalars_flatMap {ns : List Nat} (hns : ∀ n ∈ ns, IsScalar n) :
    scalars (ns.flatMap ofScalar) = ns := by
  induction ns with
  | nil => rfl
  | cons n ns ih =>
      rw [List.flatMap_cons, scalars_ofScalar_append (hns n (by simp)),
        ih fun m hm => hns m (List.mem_cons_of_mem n hm)]

theorem decodeFrom_flatMap {ns : List Nat} (hns : ∀ n ∈ ns, IsScalar n) :
    decodeFrom .start (ns.flatMap scalarBytes) = ns.flatMap ofScalar := by
  induction ns with
  | nil => rfl
  | cons n ns ih =>
      rw [List.flatMap_cons, List.flatMap_cons, decodeFrom_scalarBytes (hns n (by simp)),
        ih fun m hm => hns m (List.mem_cons_of_mem n hm)]

/-- A text whose surrogates stand in pairs survives the way through its bytes. -/
theorem ofUtf8_toUtf8 {t : Text} (ht : IsPaired t) : ofUtf8 (toUtf8 t) = t := by
  obtain ⟨ns, hns, rfl⟩ := ht
  rw [toUtf8, scalars_flatMap hns]
  exact decodeFrom_flatMap hns

/-! ## Paired texts -/

theorem isPaired_nil : IsPaired [] :=
  ⟨[], by simp, rfl⟩

theorem IsPaired.append {s t : Text} (hs : IsPaired s) (ht : IsPaired t) : IsPaired (s ++ t) := by
  obtain ⟨ns, hns, rfl⟩ := hs
  obtain ⟨ms, hms, rfl⟩ := ht
  refine ⟨ns ++ ms, ?_, (List.flatMap_append ..).symm⟩
  intro n hn
  rcases List.mem_append.mp hn with hn | hn
  · exact hns n hn
  · exact hms n hn

theorem isPaired_singleton {u : UInt16} (hhigh : ¬ isHighSurrogate u = true)
    (hlow : ¬ isLowSurrogate u = true) : IsPaired [u] := by
  rw [isHighSurrogate_iff] at hhigh
  rw [isLowSurrogate_iff] at hlow
  have hlt : u.toNat < 65536 := u.toNat_lt
  refine ⟨[u.toNat], ?_, ?_⟩
  · intro n hn
    rw [List.mem_singleton.mp hn]
    unfold IsScalar
    omega
  · rw [List.flatMap_singleton, ofScalar, if_pos (by omega)]
    simp

theorem isPaired_pair {u v : UInt16} (hhigh : isHighSurrogate u = true)
    (hlow : isLowSurrogate v = true) : IsPaired [u, v] := by
  rw [isHighSurrogate_iff] at hhigh
  rw [isLowSurrogate_iff] at hlow
  refine ⟨[pairValue u v], ?_, ?_⟩
  · intro n hn
    rw [List.mem_singleton.mp hn]
    unfold IsScalar pairValue
    omega
  · have hvalue : pairValue u v - 0x10000 =
        (u.toNat - 0xD800) * 0x400 + (v.toNat - 0xDC00) := by
      unfold pairValue
      omega
    have hfirst : 0xD800 + (pairValue u v - 0x10000) / 0x400 = u.toNat := by omega
    have hsecond : 0xDC00 + (pairValue u v - 0x10000) % 0x400 = v.toNat := by omega
    rw [List.flatMap_singleton, ofScalar, if_neg (by unfold pairValue; omega), hfirst, hsecond]
    simp

/-- The units below the surrogates stand for themselves. -/
theorem isPaired_of_lt {t : Text} (ht : ∀ u ∈ t, u.toNat < 0xD800) : IsPaired t := by
  induction t with
  | nil => exact isPaired_nil
  | cons u t ih =>
      have hu := ht u (by simp)
      rw [← List.singleton_append]
      apply IsPaired.append
      · apply isPaired_singleton
        · rw [isHighSurrogate_iff]
          omega
        · rw [isLowSurrogate_iff]
          omega
      · exact ih fun v hv => ht v (List.mem_cons_of_mem u hv)

-- The test as a truth value is decided on the units of the text alone.
theorem isPaired_of_all {t : Text} (ht : (t.all fun u => u.toNat < 0xD800) = true) :
    IsPaired t :=
  isPaired_of_lt fun u hu => of_decide_eq_true (List.all_eq_true.mp ht u hu)

theorem IsPaired.cons {u : UInt16} {t : Text} (hu : u.toNat < 0xD800) (ht : IsPaired t) :
    IsPaired (u :: t) := by
  have hone : IsPaired [u] := isPaired_of_lt fun v hv => by rwa [List.mem_singleton.mp hv]
  exact hone.append ht

theorem toNat_lt_of_isDigit {u : UInt16} (hu : isDigit u = true) : u.toNat < 0xD800 := by
  simp only [isDigit, Bool.and_eq_true, decide_eq_true_eq, UInt16.le_iff_toNat_le] at hu
  exact Nat.lt_of_le_of_lt hu.2 (by decide)

theorem isPaired_digits {t : Text} (ht : ∀ u ∈ t, isDigit u = true) : IsPaired t :=
  isPaired_of_lt fun u hu => toNat_lt_of_isDigit (ht u hu)

theorem isPaired_ofInt (i : Int) : IsPaired (ofInt i) := by
  cases i with
  | ofNat n => exact isPaired_digits fun _ => isDigit_of_mem_ofNat
  | negSucc n =>
      exact IsPaired.cons (by decide) (isPaired_digits fun _ => isDigit_of_mem_ofNat)

end Text

open Text

/-! ## Printed values -/

namespace Json

theorem isPaired_scientific {digits : Text} (hdigits : ∀ u ∈ digits, isDigit u = true) (i : Int) :
    IsPaired (scientific digits i) := by
  have hmark : IsPaired (if i < 0 then [0x65] else [0x65, 0x2B]) := by
    split <;> exact isPaired_of_all (by decide)
  have htail := hmark.append (isPaired_ofInt i)
  match digits with
  | [] => exact htail
  | [u] => exact IsPaired.cons (toNat_lt_of_isDigit (hdigits u (by simp))) htail
  | u :: v :: more =>
      have hmore : IsPaired (v :: more) :=
        isPaired_digits fun w hw => hdigits w (List.mem_cons_of_mem u hw)
      exact IsPaired.cons (toNat_lt_of_isDigit (hdigits u (by simp)))
        (IsPaired.cons (by decide) (hmore.append htail))

theorem isPaired_layout (d : Number.Decimal) : IsPaired d.layout := by
  have hdigits : ∀ u ∈ ofNat d.digits, isDigit u = true := fun _ => isDigit_of_mem_ofNat
  have hzeros : ∀ k, IsPaired (List.replicate k 0x30) := by
    intro k
    apply isPaired_digits
    intro u hu
    rw [(List.mem_replicate.mp hu).2]
    rfl
  unfold Number.Decimal.layout
  simp only
  split_ifs
  · exact (isPaired_digits hdigits).append (hzeros _)
  · have htake : IsPaired ((ofNat d.digits).take ((ofNat d.digits).length + d.exponent).toNat) :=
      isPaired_digits fun u hu => hdigits u (List.mem_of_mem_take hu)
    have hdrop : IsPaired ((ofNat d.digits).drop ((ofNat d.digits).length + d.exponent).toNat) :=
      isPaired_digits fun u hu => hdigits u (List.mem_of_mem_drop hu)
    exact (htake.append (isPaired_of_all (by decide))).append hdrop
  · exact ((isPaired_of_all (by decide)).append (hzeros _)).append (isPaired_digits hdigits)
  · exact isPaired_scientific hdigits _

theorem isPaired_numberText (q : ℚ) : IsPaired (numberText (.finite q)) := by
  simp only [numberText, Number.text]
  split_ifs
  · exact isPaired_of_all (by decide)
  · exact IsPaired.cons (by decide) (isPaired_layout _)
  · exact isPaired_layout _

theorem toNat_hexDigit_lt {n : Nat} (h : n < 16) : (hexDigit n).toNat < 0xD800 := by
  interval_cases n <;> decide

theorem isPaired_escapeUnit (u : UInt16) : IsPaired (escapeUnit u) := by
  have hlt : u.toNat < 65536 := u.toNat_lt
  apply isPaired_of_lt
  intro v hv
  simp only [escapeUnit, hexUnit, List.cons_append, List.nil_append, List.mem_cons,
    List.not_mem_nil, or_false] at hv
  rcases hv with rfl | rfl | rfl | rfl | rfl | rfl
  · decide
  · decide
  · exact toNat_hexDigit_lt (by omega)
  · exact toNat_hexDigit_lt (by omega)
  · exact toNat_hexDigit_lt (by omega)
  · exact toNat_hexDigit_lt (by omega)

theorem isPaired_quotedUnit (u : UInt16) : IsPaired (quotedUnit u) := by
  unfold quotedUnit
  split_ifs with h1 h2 h3 h4 h5 h6 h7 h8
  all_goals try exact isPaired_of_all (by decide)
  · exact isPaired_escapeUnit u
  · apply isPaired_singleton <;> simp_all

theorem isPaired_quotedBody (t : Text) : IsPaired (quotedBody t) := by
  induction t using quotedBody.induct with
  | case1 => exact isPaired_nil
  | case2 u => exact isPaired_quotedUnit u
  | case3 u v more hpair ih =>
      obtain ⟨hhigh, hlow⟩ := Bool.and_eq_true_iff.mp hpair
      rw [quotedBody, if_pos hpair]
      exact (isPaired_pair hhigh hlow).append ih
  | case4 u v more hpair ih =>
      rw [quotedBody, if_neg hpair]
      exact (isPaired_quotedUnit u).append ih

theorem isPaired_quoted (t : Text) : IsPaired (quoted t) :=
  (IsPaired.cons (by decide) (isPaired_quotedBody t)).append (isPaired_of_all (by decide))

theorem isPaired_renderItems {items : List Json} (hitems : ∀ v ∈ items, IsPaired (render v)) :
    IsPaired (renderItems items) := by
  induction items with
  | nil => exact isPaired_nil
  | cons v items ih =>
      have hv := hitems v (by simp)
      have hmore := ih fun w hw => hitems w (List.mem_cons_of_mem v hw)
      cases items with
      | nil => exact hv
      | cons w items => exact hv.append (IsPaired.cons (by decide) hmore)

theorem isPaired_renderFields {fields : Fields} (hfields : ∀ f ∈ fields, IsPaired (render f.2)) :
    IsPaired (renderFields fields) := by
  induction fields with
  | nil => exact isPaired_nil
  | cons f fields ih =>
      have hmore := ih fun g hg => hfields g (List.mem_cons_of_mem f hg)
      have hf : IsPaired (quoted f.1 ++ 0x3A :: render f.2) :=
        (isPaired_quoted f.1).append (IsPaired.cons (by decide) (hfields f (by simp)))
      cases fields with
      | nil => exact hf
      | cons g fields => exact hf.append (IsPaired.cons (by decide) hmore)

theorem isPaired_render : ∀ v : Json, IsPaired (render v)
  | .null => isPaired_of_all (by decide)
  | .bool true => isPaired_of_all (by decide)
  | .bool false => isPaired_of_all (by decide)
  | .number (.finite q) => isPaired_numberText q
  | .number .nan => isPaired_of_all (by decide)
  | .number (.infinite true) => isPaired_of_all (by decide)
  | .number (.infinite false) => isPaired_of_all (by decide)
  | .string t => isPaired_quoted t
  | .array items => by
      have hitems : ∀ v ∈ items, IsPaired (render v) := fun v _ => isPaired_render v
      rw [render]
      exact (IsPaired.cons (by decide) (isPaired_renderItems hitems)).append
        (isPaired_of_all (by decide))
  | .object fields => by
      have hfields : ∀ f ∈ fields, IsPaired (render f.2) := by
        rintro ⟨key, v⟩ hf
        have hsize := List.sizeOf_lt_of_mem hf
        rw [Prod.mk.sizeOf_spec] at hsize
        have hlt : sizeOf v < 1 + sizeOf fields := by omega
        exact isPaired_render v
      rw [render]
      exact (IsPaired.cons (by decide) (isPaired_renderFields hfields)).append
        (isPaired_of_all (by decide))

/-- The bytes of a printed value read back as the value. -/
theorem parse?_ofUtf8_toUtf8_render {v : Json} (hv : Faithful v) :
    parse? (ofUtf8 (toUtf8 (render v))) = some v := by
  rw [ofUtf8_toUtf8 (isPaired_render v), parse?_render hv]

end Json

end CloneScan
