import Mathlib.Data.List.TakeWhile
import CloneScan.Number.Reader
import CloneScan.Proofs.NumberText

/-!
# Numbers outside JSON

A text that is a JSON number reads as the same number where texts are read as numbers, so the text
of a number reads back there too.
-/

namespace CloneScan

namespace Number

open Json

/-! ## Digits -/

theorem toNat_of_isDigit {u : UInt16} (hu : Text.isDigit u = true) :
    0x30 ≤ u.toNat ∧ u.toNat ≤ 0x39 := by
  simpa [Text.isDigit, UInt16.le_iff_toNat_le] using hu

theorem isBlank_of_isDigit {u : UInt16} (hu : Text.isDigit u = true) : Text.isBlank u = false := by
  have hrange := toNat_of_isDigit hu
  simp only [Text.isBlank, UInt16.le_iff_toNat_le, Bool.or_eq_false_iff, Bool.and_eq_false_iff,
    beq_eq_false_iff_ne, ne_eq, ← UInt16.toNat_inj, decide_eq_false_iff_not, UInt16.reduceToNat]
  omega

theorem foldlM_digits {t : Text} (ht : ∀ u ∈ t, Text.isDigit u = true) (acc : Nat) :
    t.foldlM
        (fun acc u => do
          let d ← digitValue? u
          if d < 10 then some (acc * 10 + d) else none)
        acc =
      some (t.foldl (fun acc u => acc * 10 + (u.toNat - 0x30)) acc) := by
  induction t generalizing acc with
  | nil => rfl
  | cons u t ih =>
      rw [List.forall_mem_cons] at ht
      have hvalue : digitValue? u = some (u.toNat - 0x30) := by simp [digitValue?, ht.1]
      have hlt : u.toNat - 0x30 < 10 := by
        have hrange := toNat_of_isDigit ht.1
        omega
      rw [List.foldlM_cons, hvalue]
      simp only [Option.bind_eq_bind, Option.bind_some, if_pos hlt]
      exact ih ht.2 _

theorem digitsIn?_digits {t : Text} (hne : t ≠ []) (ht : ∀ u ∈ t, Text.isDigit u = true) :
    digitsIn? 10 t = some (digitsValue t) := by
  simp only [digitsIn?, List.isEmpty_iff, hne, if_false, foldlM_digits ht, digitsValue]

/-- What is left of digits that end a text. -/
theorem takeDigits_of_nil {t digits : Text} (h : takeDigits t = (digits, [])) :
    t = digits ∧ ∀ u ∈ digits, Text.isDigit u = true := by
  obtain ⟨htake, hdrop⟩ := Prod.mk.inj h
  have hsplit := List.takeWhile_append_dropWhile (p := Text.isDigit) (l := t)
  rw [htake, hdrop, List.append_nil] at hsplit
  refine ⟨hsplit.symm, fun u hu => ?_⟩
  rw [← htake] at hu
  exact List.mem_takeWhile_imp hu

/-! ## The parts of a number -/

/-- Both readers split the sign of an exponent off in the same way. -/
theorem readExponent?_cons (u : UInt16) (rest : Text) :
    readExponent? (u :: rest) =
      if u == 0x65 || u == 0x45 then
        if (takeDigits (splitSign rest).2).1.isEmpty then none
        else
          some (if (splitSign rest).1 then -(digitsValue (takeDigits (splitSign rest).2).1 : Int)
            else digitsValue (takeDigits (splitSign rest).2).1, (takeDigits (splitSign rest).2).2)
      else some (0, u :: rest) := rfl

theorem isBlank_of_mem_splitSign {t : Text}
    (ht : ∀ u ∈ (splitSign t).2, Text.isBlank u = false) : ∀ u ∈ t, Text.isBlank u = false := by
  unfold splitSign at ht
  split at ht
  · exact List.forall_mem_cons.mpr ⟨by decide, ht⟩
  · exact List.forall_mem_cons.mpr ⟨by decide, ht⟩
  · exact ht

theorem exponent?_of_readExponent? {t : Text} {e : Int} (h : readExponent? t = some (e, [])) :
    exponent? t = some e ∧ ∀ u ∈ t, Text.isBlank u = false := by
  cases t with
  | nil =>
      cases h
      exact ⟨rfl, by simp⟩
  | cons u rest =>
      rw [readExponent?_cons] at h
      split at h
      case isFalse => cases h
      case isTrue hmark =>
          rcases hsign : splitSign rest with ⟨negative, body⟩
          rcases htake : takeDigits body with ⟨digits, after⟩
          simp only [hsign, htake] at h
          split at h
          case isTrue => cases h
          case isFalse hne =>
              cases h
              obtain ⟨rfl, hall⟩ := takeDigits_of_nil htake
              have hvalue := digitsIn?_digits (by simpa using hne) hall
              refine ⟨by simp [exponent?, hmark, hsign, hvalue], List.forall_mem_cons.mpr ⟨?_, ?_⟩⟩
              · rcases (Bool.or_eq_true _ _).mp hmark with hu | hu <;>
                  rw [eq_of_beq hu] <;> decide
              · apply isBlank_of_mem_splitSign
                rw [hsign]
                exact fun v hv => isBlank_of_isDigit (hall v hv)

/-- The digits after a point, none when there is no point. -/
def splitFraction (t : Text) : Text × Text :=
  match t with
  | 0x2E :: r => (r.takeWhile Text.isDigit, r.dropWhile Text.isDigit)
  | r => ([], r)

theorem decimal?_eq (t : Text) :
    decimal? t =
      (digitsIn? 10 (t.takeWhile Text.isDigit ++ (splitFraction (t.dropWhile Text.isDigit)).1)).bind
        fun value => (exponent? (splitFraction (t.dropWhile Text.isDigit)).2).bind fun exponent =>
          some (ofDecimal value
            (t.takeWhile Text.isDigit ++ (splitFraction (t.dropWhile Text.isDigit)).1).length
            (exponent - (splitFraction (t.dropWhile Text.isDigit)).1.length)) := rfl

theorem readMagnitude?_eq (t : Text) :
    readMagnitude? t =
      if (t.takeWhile Text.isDigit).isEmpty || ((t.takeWhile Text.isDigit).head? == some 0x30 &&
        decide ((t.takeWhile Text.isDigit).length > 1)) then none
      else
        (readFraction? (t.dropWhile Text.isDigit)).bind fun f =>
          (readExponent? f.2).bind fun e =>
            some (ofDecimal (digitsValue (t.takeWhile Text.isDigit ++ f.1))
              (t.takeWhile Text.isDigit ++ f.1).length (e.1 - f.1.length), e.2) := rfl

theorem splitFraction_of_readFraction? {t fraction after : Text}
    (h : readFraction? t = some (fraction, after)) :
    splitFraction t = (fraction, after) ∧ (∀ u ∈ fraction, Text.isDigit u = true) ∧
      (t = 0x2E :: fraction ++ after ∨ t = after) := by
  unfold readFraction? at h
  split at h
  case h_1 rest =>
      simp only at h
      split at h
      case isTrue => cases h
      case isFalse =>
          cases h
          refine ⟨rfl, fun u hu => List.mem_takeWhile_imp hu, .inl ?_⟩
          simp [takeDigits]
  case h_2 hpoint =>
      cases h
      refine ⟨?_, by simp, .inr rfl⟩
      unfold splitFraction
      split
      · exact absurd rfl (hpoint _)
      · rfl

theorem decimal?_of_readMagnitude? {t : Text} {x : Number} (h : readMagnitude? t = some (x, [])) :
    decimal? t = some x ∧ ∀ u ∈ t, Text.isBlank u = false := by
  have hwhole : ∀ u ∈ t.takeWhile Text.isDigit, Text.isDigit u = true :=
    fun u hu => List.mem_takeWhile_imp hu
  have hsplit := List.takeWhile_append_dropWhile (p := Text.isDigit) (l := t)
  rw [readMagnitude?_eq] at h
  split at h
  case isTrue => cases h
  case isFalse hgood =>
      obtain ⟨⟨fraction, rest⟩, hfraction, h⟩ := Option.bind_eq_some_iff.mp h
      obtain ⟨⟨exponent, after⟩, hexponent, h⟩ := Option.bind_eq_some_iff.mp h
      obtain ⟨rfl, rfl⟩ := Prod.mk.inj (Option.some.inj h)
      obtain ⟨hother, hdigits, hparts⟩ := splitFraction_of_readFraction? hfraction
      obtain ⟨hvalue, hblank⟩ := exponent?_of_readExponent? hexponent
      have hne : t.takeWhile Text.isDigit ++ fraction ≠ [] := by
        intro hnil
        simp [(List.append_eq_nil_iff.mp hnil).1] at hgood
      have hall : ∀ u ∈ t.takeWhile Text.isDigit ++ fraction, Text.isDigit u = true :=
        List.forall_mem_append.mpr ⟨hwhole, hdigits⟩
      refine ⟨?_, ?_⟩
      · simp only [decimal?_eq, hother, digitsIn?_digits hne hall, hvalue, Option.bind_some]
      · rw [← hsplit]
        refine List.forall_mem_append.mpr ⟨fun u hu => isBlank_of_isDigit (hwhole u hu), ?_⟩
        rcases hparts with hparts | hparts <;> rw [hparts]
        · refine List.forall_mem_append.mpr ⟨List.forall_mem_cons.mpr ⟨by decide, ?_⟩, hblank⟩
          exact fun u hu => isBlank_of_isDigit (hdigits u hu)
        · exact hblank

/-! ## Whole texts -/

theorem trim_of_isBlank {t : Text} (ht : ∀ u ∈ t, Text.isBlank u = false) : t.trim = t := by
  have hleft : ∀ {t : Text}, (∀ u ∈ t, Text.isBlank u = false) → t.dropWhile Text.isBlank = t := by
    intro t ht
    cases t with
    | nil => rfl
    | cons u t => simp [ht u (by simp)]
  rw [Text.trim, Text.trimLeft, hleft ht, Text.trimRight, hleft (by simpa using ht),
    List.reverse_reverse]

theorem readMagnitude?_cons {u : UInt16} (hu : Text.isDigit u = false) (rest : Text) :
    readMagnitude? (u :: rest) = none := by
  simp [readMagnitude?_eq, hu]

theorem signed?_of_readNumber? {t : Text} {x : Number} (h : readNumber? t = some (x, [])) :
    signed? t = some x ∧ ∀ u ∈ t, Text.isBlank u = false := by
  have hword {body : Text} {y : Number} (hbody : readMagnitude? body = some (y, [])) :
      (body == Text.ofString "Infinity") = false := by
    rw [beq_eq_false_iff_ne]
    rintro rfl
    have hnone : readMagnitude? (Text.ofString "Infinity") = none :=
      readMagnitude?_cons (u := 0x49) (by decide) _
    rw [hnone] at hbody
    cases hbody
  unfold readNumber? at h
  split at h
  case h_1 rest =>
      obtain ⟨⟨y, after⟩, hbody, heq⟩ := Option.map_eq_some_iff.mp h
      obtain ⟨rfl, rfl⟩ := Prod.mk.inj heq
      obtain ⟨hvalue, hblank⟩ := decimal?_of_readMagnitude? hbody
      refine ⟨?_, List.forall_mem_cons.mpr ⟨by decide, hblank⟩⟩
      simp [signed?, splitSign, hword hbody, hvalue]
  case h_2 hminus =>
      obtain ⟨hvalue, hblank⟩ := decimal?_of_readMagnitude? h
      have hsign : splitSign t = (false, t) := by
        unfold splitSign
        split
        case h_1 rest => exact absurd rfl (hminus rest)
        case h_2 rest =>
            rw [readMagnitude?_cons (by decide)] at h
            cases h
        case h_3 => rfl
      refine ⟨?_, hblank⟩
      simp [signed?, hsign, hword h, hvalue]

/-- After a zero a number goes on with a point or an exponent. -/
theorem readNumber?_zero_cons {u : UInt16} (hu : Text.isDigit u = false ∧ u ≠ 0x2E ∧
    u ≠ 0x65 ∧ u ≠ 0x45) (rest : Text) (x : Number) :
    readNumber? (0x30 :: u :: rest) ≠ some (x, []) := by
  obtain ⟨hdigit, hpoint, hmark, hmark'⟩ := hu
  have hfraction : readFraction? (u :: rest) = some ([], u :: rest) :=
    readFraction?_of_head (by simpa using hpoint)
  have hexponent : readExponent? (u :: rest) = some (0, u :: rest) :=
    readExponent?_of_head (by simpa using ⟨hmark, hmark'⟩)
  change readMagnitude? (0x30 :: u :: rest) ≠ some (x, [])
  simp [readMagnitude?_eq, Text.isDigit, show (0x30 ≤ u && u ≤ 0x39) = false from hdigit,
    hfraction, hexponent]

/-- A JSON number reads as the same number. -/
theorem ofText_of_readNumber? {t : Text} {x : Number} (h : readNumber? t = some (x, [])) :
    ofText t = x := by
  obtain ⟨hsigned, hblank⟩ := signed?_of_readNumber? h
  unfold ofText
  rw [trim_of_isBlank hblank]
  split
  case h_1 => cases h
  case h_8 => rw [hsigned, Option.getD_some]
  all_goals exact absurd h (readNumber?_zero_cons (by decide) _ _)

/-- A finite binary64 value. -/
def IsFinite (x : Number) : Prop :=
  ∃ q, x = .finite q ∧ round q = .finite q

/-- The text of a finite value reads back. -/
theorem IsFinite.ofText_text {x : Number} (hx : x.IsFinite) : ofText x.text = x := by
  obtain ⟨q, rfl, hround⟩ := hx
  have hread := readNumber?_numberText hround endsNumber_nil
  rw [List.append_nil] at hread
  exact ofText_of_readNumber? hread

end Number

end CloneScan
