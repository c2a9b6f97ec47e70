import CloneScan.Json.Printer
import CloneScan.Json.Reader
import CloneScan.Proofs.Rounding
import Mathlib.Algebra.Order.Ring.Star
import Mathlib.Tactic.IntervalCases

/-!
# The text of a number reads back

A number is written with some digits that read back to it.  Wherever the point and the exponent of
its text stand, the reader puts the same digits and the same power of ten together again, and the
bounds beyond which the reader does not calculate are out of reach of a number's text.
-/

namespace CloneScan

open Json

/-! ## Digits -/

namespace Text

theorem ofNat_of_lt {n : Nat} (h : n < 10) : ofNat n = [(0x30 + n).toUInt16] := by
  interval_cases n <;> rfl

theorem ofChar_digitChar {d : Nat} (h : d < 10) :
    ofChar (Nat.digitChar d) = [(0x30 + d).toUInt16] := by
  interval_cases d <;> rfl

theorem ofNat_of_le {n : Nat} (h : 10 ≤ n) :
    ofNat n = ofNat (n / 10) ++ [(0x30 + n % 10).toUInt16] := by
  unfold ofNat
  rw [Nat.toDigits_of_base_le (by norm_num) h, List.flatMap_append, List.flatMap_singleton,
    ofChar_digitChar (Nat.mod_lt n (by norm_num))]

theorem isDigit_digit {d : Nat} (h : d < 10) : isDigit (0x30 + d).toUInt16 = true := by
  interval_cases d <;> rfl

theorem toNat_digit {d : Nat} (h : d < 10) : ((0x30 + d).toUInt16).toNat - 0x30 = d := by
  interval_cases d <;> rfl

theorem isDigit_of_mem_ofNat {n : Nat} {u : UInt16} (hu : u ∈ ofNat n) : isDigit u = true := by
  induction n using Nat.strong_induction_on with
  | _ n ih =>
      rcases Nat.lt_or_ge n 10 with hlt | hle
      · rw [ofNat_of_lt hlt, List.mem_singleton] at hu
        rw [hu]
        exact isDigit_digit hlt
      · rw [ofNat_of_le hle, List.mem_append, List.mem_singleton] at hu
        rcases hu with hu | rfl
        · exact ih (n / 10) (by omega) hu
        · exact isDigit_digit (Nat.mod_lt n (by norm_num))

theorem ofNat_ne_nil (n : Nat) : ofNat n ≠ [] := by
  rcases Nat.lt_or_ge n 10 with hlt | hle
  · simp [ofNat_of_lt hlt]
  · simp [ofNat_of_le hle]

/-- A positive number has no leading zero. -/
theorem head?_ofNat_ne_zero {n : Nat} (hn : 0 < n) : (ofNat n).head? ≠ some 0x30 := by
  induction n using Nat.strong_induction_on with
  | _ n ih =>
      rcases Nat.lt_or_ge n 10 with hlt | hle
      · interval_cases n <;> simp [ofNat_of_lt]
      · rw [ofNat_of_le hle, List.head?_append_of_ne_nil _ (ofNat_ne_nil _)]
        exact ih (n / 10) (by omega) (by omega)

end Text

namespace Json

theorem foldl_digits (acc : Nat) (t : Text) :
    t.foldl (fun acc u => acc * 10 + (u.toNat - 0x30)) acc =
      acc * 10 ^ t.length + digitsValue t := by
  induction t using List.reverseRecOn with
  | nil => simp [digitsValue]
  | append_singleton t u ih =>
      unfold digitsValue at ih ⊢
      rw [List.foldl_append, List.foldl_append, ih, List.length_append, List.length_singleton,
        pow_succ]
      simp only [List.foldl_cons, List.foldl_nil]
      ring

theorem digitsValue_append (s t : Text) :
    digitsValue (s ++ t) = digitsValue s * 10 ^ t.length + digitsValue t := by
  rw [← foldl_digits, digitsValue, List.foldl_append]
  rfl

@[simp] theorem digitsValue_replicate_zero (k : Nat) :
    digitsValue (List.replicate k 0x30) = 0 := by
  induction k with
  | zero => rfl
  | succ k ih =>
      rw [List.replicate_succ', digitsValue_append, ih]
      rfl

theorem digitsValue_ofNat (n : Nat) : digitsValue (Text.ofNat n) = n := by
  induction n using Nat.strong_induction_on with
  | _ n ih =>
      rcases Nat.lt_or_ge n 10 with hlt | hle
      · rw [Text.ofNat_of_lt hlt]
        simpa [digitsValue] using Text.toNat_digit hlt
      · have hdigit := Text.toNat_digit (Nat.mod_lt n (show 0 < 10 by norm_num))
        rw [Text.ofNat_of_le hle, digitsValue_append, ih (n / 10) (by omega)]
        simp only [digitsValue, List.foldl_cons, List.foldl_nil, List.length_singleton, hdigit]
        omega

theorem lt_ten_pow_length_ofNat (n : Nat) : n < 10 ^ (Text.ofNat n).length := by
  induction n using Nat.strong_induction_on with
  | _ n ih =>
      rcases Nat.lt_or_ge n 10 with hlt | hle
      · simpa [Text.ofNat_of_lt hlt] using hlt
      · have h := ih (n / 10) (by omega)
        rw [Text.ofNat_of_le hle, List.length_append, List.length_singleton, pow_succ]
        omega

/-! ## The parts of a number -/

/-- Nothing of a number goes on at the front of a text. -/
def EndsNumber (rest : Text) : Prop :=
  ∀ u ∈ rest.head?, Text.isDigit u = false ∧ u ≠ 0x2E ∧ u ≠ 0x65 ∧ u ≠ 0x45

theorem endsNumber_nil : EndsNumber [] := by
  intro u hu
  cases hu

theorem takeDigits_append {digits rest : Text} (hdigits : ∀ u ∈ digits, Text.isDigit u = true)
    (hrest : ∀ u ∈ rest.head?, Text.isDigit u = false) :
    takeDigits (digits ++ rest) = (digits, rest) := by
  unfold takeDigits
  rw [List.takeWhile_append_of_pos hdigits, List.dropWhile_append_of_pos hdigits]
  cases rest with
  | nil => simp
  | cons u rest =>
      have hu : Text.isDigit u = false := hrest u rfl
      simp [hu]

theorem readFraction?_of_head {rest : Text} (hrest : ∀ u ∈ rest.head?, u ≠ 0x2E) :
    readFraction? rest = some ([], rest) := by
  unfold readFraction?
  split
  · exact absurd rfl (hrest 0x2E rfl)
  · rfl

theorem readFraction?_digits {digits rest : Text} (hne : digits ≠ [])
    (hdigits : ∀ u ∈ digits, Text.isDigit u = true)
    (hrest : ∀ u ∈ rest.head?, Text.isDigit u = false) :
    readFraction? (0x2E :: digits ++ rest) = some (digits, rest) := by
  simp [readFraction?, takeDigits_append hdigits hrest, hne]

theorem readExponent?_of_head {rest : Text} (hrest : ∀ u ∈ rest.head?, u ≠ 0x65 ∧ u ≠ 0x45) :
    readExponent? rest = some (0, rest) := by
  cases rest with
  | nil => rfl
  | cons u rest =>
      obtain ⟨h1, h2⟩ := hrest u rfl
      simp [readExponent?, h1, h2]

/-- The exponent part that the text of a number ends with. -/
theorem readExponent?_mark (i : Int) {rest : Text}
    (hrest : ∀ u ∈ rest.head?, Text.isDigit u = false) :
    readExponent? ((if i < 0 then [0x65] else [0x65, 0x2B]) ++ Text.ofInt i ++ rest) =
      some (i, rest) := by
  have hread : ∀ n : Nat, takeDigits (Text.ofNat n ++ rest) = (Text.ofNat n, rest) := fun n =>
    takeDigits_append (fun _ => Text.isDigit_of_mem_ofNat) hrest
  cases i with
  | ofNat n =>
      rw [if_neg (show ¬ Int.ofNat n < 0 from not_lt.mpr (Int.natCast_nonneg n))]
      simp [Text.ofInt, readExponent?, hread, Text.ofNat_ne_nil, digitsValue_ofNat]
  | negSucc n =>
      rw [if_pos (Int.negSucc_lt_zero n)]
      simp [Text.ofInt, readExponent?, hread, Text.ofNat_ne_nil, digitsValue_ofNat, Int.negSucc_eq]

theorem readMagnitude?_append {rest fraction rest' rest'' : Text} {exponent : Int} (whole : Text)
    (hwhole : ∀ u ∈ whole, Text.isDigit u = true) (hne : whole ≠ [])
    (hlead : whole.head? = some 0x30 → whole.length ≤ 1)
    (hrest : ∀ u ∈ rest.head?, Text.isDigit u = false)
    (hfraction : readFraction? rest = some (fraction, rest'))
    (hexponent : readExponent? rest' = some (exponent, rest'')) :
    readMagnitude? (whole ++ rest) =
      some (Number.ofDecimal (digitsValue (whole ++ fraction)) (whole ++ fraction).length
        (exponent - fraction.length), rest'') := by
  have hgood :
      (whole.isEmpty || (whole.head? == some 0x30 && decide (whole.length > 1))) = false := by
    cases hzero : whole.head? == some 0x30 with
    | false => simp [hne]
    | true =>
        have := hlead (by simpa using hzero)
        simp [hne]
        omega
  simp [readMagnitude?, takeDigits_append hwhole hrest, hgood, hfraction, hexponent]

/-! ## Reading the layouts -/

/-- The first digit, the others after a point, and an exponent. -/
def scientific (digits : Text) (exponent : Int) : Text :=
  let mark : Text := if exponent < 0 then [0x65] else [0x65, 0x2B]
  let tail := mark ++ Text.ofInt exponent
  match digits with
  | [] => tail
  | [u] => u :: tail
  | u :: rest => u :: 0x2E :: rest ++ tail

section

variable {digits rest : Text} (hdigits : ∀ u ∈ digits, Text.isDigit u = true)
  (hne : digits ≠ []) (hlead : digits.head? ≠ some 0x30) (hrest : EndsNumber rest)

include hdigits hne hlead hrest

/-- Digits and zeros. -/
theorem readMagnitude?_whole (zeros : Nat) :
    readMagnitude? (digits ++ List.replicate zeros 0x30 ++ rest) =
      some
        (Number.ofDecimal (digitsValue digits * 10 ^ zeros) (digits.length + zeros) 0, rest) := by
  have hall : ∀ u ∈ digits ++ List.replicate zeros 0x30, Text.isDigit u = true := by
    intro u hu
    rcases List.mem_append.mp hu with hu | hu
    · exact hdigits u hu
    · rw [(List.mem_replicate.mp hu).2]
      rfl
  rw [readMagnitude?_append _ hall (by simp [hne])
    (by rw [List.head?_append_of_ne_nil _ hne]; exact fun h => absurd h hlead)
    (fun u hu => (hrest u hu).1) (readFraction?_of_head fun u hu => (hrest u hu).2.1)
    (readExponent?_of_head fun u hu => (hrest u hu).2.2)]
  simp [digitsValue_append]

/-- A point between two digits. -/
theorem readMagnitude?_inside {point : Nat} (hpos : 0 < point) (hlt : point < digits.length) :
    readMagnitude? (digits.take point ++ [0x2E] ++ digits.drop point ++ rest) =
      some (Number.ofDecimal (digitsValue digits) digits.length
        ((point : Int) - digits.length), rest) := by
  have htake : digits.take point ≠ [] := by
    simpa [hpos.ne'] using hne
  have hhead : (digits.take point).head? = digits.head? := by
    rw [List.head?_take, if_neg hpos.ne']
  have hfraction : readFraction? (0x2E :: (digits.drop point ++ rest)) =
      some (digits.drop point, rest) :=
    readFraction?_digits (by simpa using hlt) (fun u hu => hdigits u (List.mem_of_mem_drop hu))
      fun u hu => (hrest u hu).1
  rw [List.append_assoc, List.append_assoc, List.singleton_append,
    readMagnitude?_append _ (fun u hu => hdigits u (List.mem_of_mem_take hu)) htake
      (by rw [hhead]; exact fun h => absurd h hlead) (by simp [Text.isDigit]) hfraction
      (readExponent?_of_head fun u hu => (hrest u hu).2.2),
    List.take_append_drop, List.length_drop]
  congr 3
  omega

omit hne hlead in
/-- A point, and perhaps zeros, before the digits. -/
theorem readMagnitude?_front (hne : digits ≠ []) (zeros : Nat) :
    readMagnitude? ([0x30, 0x2E] ++ List.replicate zeros 0x30 ++ digits ++ rest) =
      some (Number.ofDecimal (digitsValue digits) (1 + zeros + digits.length)
        (-((zeros : Int) + digits.length)), rest) := by
  have hall : ∀ u ∈ List.replicate zeros 0x30 ++ digits, Text.isDigit u = true := by
    intro u hu
    rcases List.mem_append.mp hu with hu | hu
    · rw [(List.mem_replicate.mp hu).2]
      rfl
    · exact hdigits u hu
  have hfraction : readFraction? (0x2E :: (List.replicate zeros 0x30 ++ digits) ++ rest) =
      some (List.replicate zeros 0x30 ++ digits, rest) :=
    readFraction?_digits (by simp [hne]) hall fun u hu => (hrest u hu).1
  have hread := readMagnitude?_append [0x30] (by simp [Text.isDigit]) (by simp)
    (by simp) (by simp [Text.isDigit]) hfraction
    (readExponent?_of_head fun u hu => (hrest u hu).2.2)
  have hvalue : digitsValue ([0x30] ++ (List.replicate zeros 0x30 ++ digits)) =
      digitsValue digits := by
    rw [digitsValue_append, digitsValue_append, digitsValue_replicate_zero]
    simp [digitsValue]
  rw [hvalue] at hread
  simp only [List.append_assoc, List.cons_append, List.nil_append] at hread ⊢
  rw [hread]
  simp only [List.length_cons, List.length_append, List.length_replicate]
  congr 3
  · omega
  · push_cast
    omega

theorem readMagnitude?_scientific (i : Int) :
    readMagnitude? (scientific digits i ++ rest) =
      some (Number.ofDecimal (digitsValue digits) digits.length (i + 1 - digits.length), rest) := by
  have hexponent := readExponent?_mark i fun u hu => (hrest u hu).1
  have hhead : ∀ u ∈ ((if i < 0 then [0x65] else [0x65, 0x2B]) ++ Text.ofInt i ++ rest).head?,
      u = 0x65 := by
    intro u hu
    split at hu <;> simp_all
  match digits, hne with
  | [u], _ =>
      have hread := readMagnitude?_append [u] hdigits (by simp) (by simp)
        (fun v hv => by rw [hhead v hv]; rfl)
        (readFraction?_of_head fun v hv => by rw [hhead v hv]; decide) hexponent
      simpa [scientific] using hread
  | u :: v :: more, _ =>
      have hfraction := readFraction?_digits (show v :: more ≠ [] by simp)
        (fun w hw => hdigits w (List.mem_cons_of_mem u hw))
        (fun w hw => by rw [hhead w hw]; rfl)
      have hread := readMagnitude?_append [u] (fun w hw => hdigits w (by simp_all))
        (by simp) (by simp) (by simp [Text.isDigit]) hfraction hexponent
      simp only [scientific, List.append_assoc, List.cons_append, List.nil_append] at hread ⊢
      rw [hread]
      simp only [List.length_cons]
      congr 3
      push_cast
      omega

end

end Json

/-! ## Shortest decimals -/

namespace Number

/-- The layout of a positive decimal as it stands. -/
def Decimal.layout (d : Decimal) : Text :=
  let digits := Text.ofNat d.digits
  let count : Int := digits.length
  let point : Int := count + d.exponent
  if count ≤ point ∧ point ≤ 21 then
    digits ++ List.replicate (point - count).toNat 0x30
  else if 0 < point ∧ point ≤ 21 then
    digits.take point.toNat ++ [0x2E] ++ digits.drop point.toNat
  else if -6 < point ∧ point ≤ 0 then
    [0x30, 0x2E] ++ List.replicate (-point).toNat 0x30 ++ digits
  else scientific digits (point - 1)

theorem Decimal.text_eq (d : Decimal) : d.text = (d.trimZeros 400).layout := rfl

theorem Decimal.trimZeros_spec (fuel : Nat) (d : Decimal) (hd : 0 < d.digits) :
    0 < (d.trimZeros fuel).digits ∧ (d.trimZeros fuel).value = d.value := by
  induction fuel generalizing d with
  | zero => exact ⟨hd, rfl⟩
  | succ fuel ih =>
      unfold Decimal.trimZeros
      split
      case isFalse => exact ⟨hd, rfl⟩
      case isTrue h =>
          have hten : ((d.digits / 10 : Nat) : ℚ) * 10 = d.digits := by
            exact_mod_cast (show d.digits / 10 * 10 = d.digits by omega)
          obtain ⟨hpos, hvalue⟩ := ih ⟨d.digits / 10, d.exponent + 1⟩ (by simp; omega)
          refine ⟨hpos, hvalue.trans ?_⟩
          rw [Decimal.value_eq, Decimal.value_eq, ← hten, zpow_add₀ (by norm_num), zpow_one]
          ring

/-- Within its reach the reader calculates. -/
theorem ofDecimal_eq_read {d : Decimal} {length : Nat} (hdigits : 0 < d.digits)
    (hhigh : d.exponent ≤ 400) (hlow : -400 ≤ d.exponent + length) :
    ofDecimal d.digits length d.exponent = d.read := by
  obtain ⟨digits, exponent⟩ := d
  unfold ofDecimal decimalReach
  rw [if_neg hdigits.ne', if_neg (by simpa using hhigh), if_neg (by simpa using hlow)]
  cases exponent <;> rfl

theorem two_pow_le_ten_pow {m n : Nat} (h : m ≤ 3 * n) : (2 : ℚ) ^ m ≤ 10 ^ n := by
  calc
    (2 : ℚ) ^ m ≤ 2 ^ (3 * n) := pow_le_pow_right₀ (by norm_num) h
    _ = (2 ^ 3) ^ n := pow_mul 2 3 n
    _ ≤ 10 ^ n := pow_le_pow_left₀ (by norm_num) (by norm_num) n

theorem two_mul_overflowBound_le : 2 * overflowBound ≤ (10 : ℚ) ^ (401 : Int) := by
  rw [overflowBound_eq, ← pow_succ']
  exact two_pow_le_ten_pow (by norm_num)

theorem ten_zpow_le : (10 : ℚ) ^ (-401 : Int) ≤ 2 ^ (-1075 : Int) := by
  rw [zpow_neg, zpow_neg]
  apply inv_anti₀ (zpow_pos (by norm_num) _)
  exact two_pow_le_ten_pow (by norm_num)

theorem Decimal.value_pos {d : Decimal} (hd : 0 < d.digits) : 0 < d.value := by
  have : (0 : ℚ) < d.digits := by exact_mod_cast hd
  rw [Decimal.value_eq]
  positivity

/-- A decimal that reads as a finite number does not reach the upper bound of the reader. -/
theorem exponent_le_of_read {d : Decimal} {q : ℚ} (hd : 0 < d.digits)
    (hread : d.read = .finite q) : d.exponent ≤ 400 := by
  by_contra hlt
  have hvalue := lt_of_round_eq_finite (Decimal.value_pos hd).le hread
  have hone : (1 : ℚ) ≤ d.digits := by exact_mod_cast hd
  have hbig : (10 : ℚ) ^ (401 : Int) ≤ d.value := by
    calc
      (10 : ℚ) ^ (401 : Int) ≤ 10 ^ d.exponent := by
        apply zpow_le_zpow_right₀ (by norm_num)
        omega
      _ ≤ d.digits * 10 ^ d.exponent := le_mul_of_one_le_left (by positivity) hone
      _ = d.value := (Decimal.value_eq d).symm
  exact absurd (two_mul_overflowBound_le.trans hbig) (not_le.mpr hvalue)

/-- A decimal that does not read as zero does not reach the lower bound of the reader. -/
theorem le_exponent_of_read {d : Decimal} {q : ℚ} (hd : 0 < d.digits)
    (hread : d.read = .finite q) (hq : q ≠ 0) :
    -400 ≤ d.exponent + (Text.ofNat d.digits).length := by
  by_contra hlt
  have hvalue := le_of_round_ne_zero (q := d.value) (Decimal.value_pos hd).le
    (by rw [← Decimal.read, hread]; simpa using hq)
  have hdigits : (d.digits : ℚ) < 10 ^ (Text.ofNat d.digits).length := by
    exact_mod_cast lt_ten_pow_length_ofNat d.digits
  have hsmall : d.value < 10 ^ (-401 : Int) := by
    calc
      d.value = d.digits * 10 ^ d.exponent := Decimal.value_eq d
      _ < 10 ^ (Text.ofNat d.digits).length * 10 ^ d.exponent := by gcongr
      _ = 10 ^ ((Text.ofNat d.digits).length + d.exponent : Int) := by
        rw [zpow_add₀ (by norm_num), zpow_natCast]
      _ ≤ 10 ^ (-401 : Int) := by
        apply zpow_le_zpow_right₀ (by norm_num)
        omega
  exact absurd (hvalue.trans_lt (hsmall.trans_le ten_zpow_le)) (lt_irrefl _)

/-- Each layout reads as its digits with their power of ten. -/
theorem readMagnitude?_layout {d : Decimal} {q : ℚ} {rest : Text} (hd : 0 < d.digits)
    (hread : d.read = .finite q) (hq : q ≠ 0) (hrest : EndsNumber rest) :
    readMagnitude? (d.layout ++ rest) = some (d.read, rest) := by
  have hdigits : ∀ u ∈ Text.ofNat d.digits, Text.isDigit u = true := fun _ =>
    Text.isDigit_of_mem_ofNat
  have hne := Text.ofNat_ne_nil d.digits
  have hlead := Text.head?_ofNat_ne_zero hd
  have hvalue := digitsValue_ofNat d.digits
  have hhigh := exponent_le_of_read hd hread
  have hlow := le_exponent_of_read hd hread hq
  unfold Decimal.layout
  simp only
  generalize hcount : Text.ofNat d.digits = digits at *
  split
  case isTrue hwhole =>
      obtain ⟨k, hk⟩ := Int.eq_ofNat_of_zero_le (show 0 ≤ d.exponent by omega)
      have hzeros : ((digits.length : Int) + d.exponent - digits.length).toNat = k := by omega
      rw [readMagnitude?_whole hdigits hne hlead hrest, hvalue, hzeros]
      have hpos : 0 < d.digits * 10 ^ k := by positivity
      rw [ofDecimal_eq_read (d := ⟨d.digits * 10 ^ k, 0⟩) hpos (by simp) (by simp; omega)]
      unfold Decimal.read
      rw [Decimal.value_eq, Decimal.value_eq, hk]
      simp
  case isFalse hwhole =>
      split
      case isTrue hinside =>
          have hpoint : ((digits.length + d.exponent).toNat : Int) - digits.length =
              d.exponent := by omega
          rw [readMagnitude?_inside hdigits hne hlead hrest (by omega) (by omega), hvalue, hpoint,
            ofDecimal_eq_read hd hhigh hlow]
      case isFalse hinside =>
          split
          case isTrue hfront =>
              have hpoint : -((((-(digits.length + d.exponent)).toNat : Nat) : Int) +
                  digits.length) = d.exponent := by omega
              rw [readMagnitude?_front hdigits hrest hne, hvalue, hpoint,
                ofDecimal_eq_read hd hhigh (by push_cast; omega)]
          case isFalse hfront =>
              have hpoint : (digits.length : Int) + d.exponent - 1 + 1 - digits.length =
                  d.exponent := by omega
              rw [readMagnitude?_scientific hdigits hne hlead hrest, hvalue, hpoint,
                ofDecimal_eq_read hd hhigh hlow]

/-! ## Numbers -/

theorem read_of_mem_shortestFrom {q : ℚ} {fuel count : Nat} {d : Decimal}
    (h : shortestFrom q fuel count = some d) : d.read = .finite q := by
  induction fuel generalizing count with
  | zero => cases h
  | succ fuel ih =>
      unfold shortestFrom at h
      split at h
      case h_1 found hfound =>
          cases h
          simpa using List.find?_some hfound
      case h_2 => exact ih h

theorem exactDecimal_value {q : ℚ} (hq : 0 ≤ q) (hround : round q = .finite q) :
    (exactDecimal q).value = q := by
  obtain ⟨k, hk⟩ := exists_den_eq_two_pow hq hround
  rw [Decimal.value_eq, exactDecimal, hk, Nat.log2_two_pow, Nat.pow_eq]
  push_cast
  rw [natAbs_num_eq hq, hk, zpow_neg, zpow_natCast, show (10 : ℚ) = 2 * 5 by norm_num, mul_pow]
  push_cast
  field_simp

/-- Whether or not a short decimal was found, the one written reads back. -/
theorem read_shortest {q : ℚ} (hq : 0 ≤ q) (hround : round q = .finite q) :
    (shortest q).read = .finite q := by
  unfold shortest
  cases h : shortestFrom q 17 1 with
  | some d => exact read_of_mem_shortestFrom h
  | none =>
      rw [Option.getD_none, Decimal.read, exactDecimal_value hq hround]
      exact hround

theorem digits_pos_of_read {d : Decimal} {q : ℚ} (hread : d.read = .finite q) (hq : q ≠ 0) :
    0 < d.digits := by
  rcases Nat.eq_zero_or_pos d.digits with hzero | hpos
  · have hvalue : d.value = 0 := by
      rw [Decimal.value_eq, hzero]
      simp
    rw [Decimal.read, hvalue] at hread
    exact absurd (Number.finite.inj hread).symm hq
  · exact hpos

theorem readMagnitude?_shortest {q : ℚ} {rest : Text} (hq : 0 < q) (hround : round q = .finite q)
    (hrest : EndsNumber rest) :
    readMagnitude? ((shortest q).text ++ rest) = some (.finite q, rest) := by
  have hread := read_shortest hq.le hround
  obtain ⟨hpos, hvalue⟩ :=
    Decimal.trimZeros_spec 400 (shortest q) (digits_pos_of_read hread hq.ne')
  have htrim : ((shortest q).trimZeros 400).read = .finite q := by
    rw [Decimal.read, hvalue]
    exact hread
  rw [Decimal.text_eq, readMagnitude?_layout hpos htrim hq.ne' hrest, htrim]

end Number

namespace Json

/-- The text of a number that is its own rounding reads back. -/
theorem readNumber?_numberText {q : ℚ} {rest : Text} (hround : Number.round q = .finite q)
    (hrest : EndsNumber rest) :
    readNumber? (numberText (.finite q) ++ rest) = some (.finite q, rest) := by
  rcases lt_trichotomy q 0 with hq | rfl | hq
  · have hneg : Number.round (-q) = .finite (-q) := by
      rw [Number.round_neg, hround]
      rfl
    have hread := Number.readMagnitude?_shortest (neg_pos.mpr hq) hneg hrest
    simp [numberText, Number.text, hq.ne, hq, readNumber?, hread, Number.neg]
  · have hread := readMagnitude?_append [0x30] (by simp [Text.isDigit])
      (by simp) (by simp) (fun u hu => (hrest u hu).1)
      (readFraction?_of_head fun u hu => (hrest u hu).2.1)
      (readExponent?_of_head fun u hu => (hrest u hu).2.2)
    simpa [numberText, Number.text, readNumber?, Number.ofDecimal, digitsValue] using hread
  · have hread := Number.readMagnitude?_shortest hq hround hrest
    have hhead : ∀ after, (Number.shortest q).text ++ rest ≠ 0x2D :: after := by
      intro after h
      rw [h] at hread
      simp [readMagnitude?, takeDigits, Text.isDigit] at hread
    simp only [numberText, Number.text, if_neg hq.ne', if_neg hq.not_gt]
    unfold readNumber?
    split
    · exact absurd ‹_› (hhead _)
    · exact hread

/-- A text that starts with a number starts with a digit or a sign. -/
theorem head_of_readNumber? {t : Text} {x : Number × Text} (h : readNumber? t = some x) :
    ∃ u rest, t = u :: rest ∧ (Text.isDigit u = true ∨ u = 0x2D) := by
  cases t with
  | nil => simp [readNumber?, readMagnitude?, takeDigits] at h
  | cons u rest =>
      refine ⟨u, rest, rfl, ?_⟩
      by_contra hu
      obtain ⟨hdigit, hsign⟩ := not_or.mp hu
      have hmagnitude : readMagnitude? (u :: rest) = none := by
        simp [readMagnitude?, takeDigits, hdigit]
      unfold readNumber? at h
      split at h
      case h_1 hcons => exact hsign (List.cons.inj hcons).1
      case h_2 => exact absurd (hmagnitude.symm.trans h) (by simp)

end Json

end CloneScan
