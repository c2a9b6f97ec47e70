import CloneScan.Number
import Mathlib.Algebra.Order.Field.Power
import Mathlib.Data.Nat.Prime.Basic
import Mathlib.Data.Rat.Floor
import Mathlib.Tactic.FieldSimp
import Mathlib.Tactic.Linarith
import Mathlib.Tactic.NormNum
import Mathlib.Tactic.Positivity

/-!
# Rounding to binary64

What reading a decimal needs to know about `Number.round`: a value that rounds to a finite number
is below twice the overflow bound, one that does not round to zero is at least `2 ^ (-1075)`, and
a value that is its own rounding is a whole number over a power of two.
-/

namespace CloneScan

namespace Number

theorem scaleTwo_eq (n : Nat) (e : Int) : scaleTwo n e = n * (2 : ℚ) ^ e := by
  cases e with
  | ofNat k => simp [scaleTwo]
  | negSucc k => simp [scaleTwo, Rat.mkRat_eq_div, zpow_negSucc, div_eq_mul_inv]

theorem Decimal.value_eq (d : Decimal) : d.value = d.digits * (10 : ℚ) ^ d.exponent := by
  obtain ⟨digits, exponent⟩ := d
  cases exponent with
  | ofNat k => simp [Decimal.value]
  | negSucc k => simp [Decimal.value, Rat.mkRat_eq_div, zpow_negSucc, div_eq_mul_inv]

/-! ## The unit of a value -/

/-- Whether `2 ^ e ≤ num / den`, tested on natural numbers. -/
def reaches (num den : Nat) (e : Int) : Bool :=
  match e with
  | .ofNat k => den * 2 ^ k ≤ num
  | .negSucc k => den ≤ num * 2 ^ (k + 1)

theorem reaches_iff (num den : Nat) (e : Int) :
    reaches num den e = true ↔ (2 : ℚ) ^ e * den ≤ num := by
  cases e with
  | ofNat k =>
      rw [reaches, decide_eq_true_iff, ← Nat.cast_le (α := ℚ)]
      push_cast
      rw [mul_comm, Int.ofNat_eq_natCast, zpow_natCast]
  | negSucc k =>
      rw [reaches, decide_eq_true_iff, ← Nat.cast_le (α := ℚ), zpow_negSucc,
        inv_mul_le_iff₀ (by positivity)]
      push_cast
      rw [mul_comm]

theorem binaryExponent_eq (num den : Nat) :
    binaryExponent num den =
      if reaches num den ((Nat.log2 num : Int) - (Nat.log2 den : Int)) then
        (Nat.log2 num : Int) - (Nat.log2 den : Int)
      else (Nat.log2 num : Int) - (Nat.log2 den : Int) - 1 :=
  rfl

/-- The exponent found is low enough, also where the estimate by bit lengths is one too high. -/
theorem two_zpow_binaryExponent_le {num den : Nat} (hnum : 0 < num) :
    (2 : ℚ) ^ binaryExponent num den * den ≤ num := by
  rw [binaryExponent_eq]
  split
  case isTrue h => exact (reaches_iff _ _ _).mp h
  case isFalse =>
      have hlow : ((2 : ℚ) ^ Nat.log2 num) ≤ num := by
        exact_mod_cast Nat.log2_self_le hnum.ne'
      have hhigh : (den : ℚ) ≤ 2 ^ (Nat.log2 den + 1) := by
        exact_mod_cast (Nat.lt_log2_self (n := den)).le
      calc
        (2 : ℚ) ^ ((Nat.log2 num : Int) - (Nat.log2 den : Int) - 1) * den
            ≤ (2 : ℚ) ^ ((Nat.log2 num : Int) - (Nat.log2 den : Int) - 1) *
                2 ^ (Nat.log2 den + 1) := by gcongr
        _ = 2 ^ Nat.log2 num := by
            rw [← zpow_natCast, ← zpow_natCast, ← zpow_add₀ (by norm_num)]
            congr 1
            push_cast
            omega
        _ ≤ num := hlow

/-- The exponent of the last bit that a rounded value keeps. -/
def unitExponent (num den : Nat) : Int :=
  max (binaryExponent num den) (-1022) - 52

/-- The number of units nearest to a value. -/
def mantissa (num den : Nat) (unit : Int) : Nat :=
  match unit with
  | .ofNat k => nearestEven num (den * 2 ^ k)
  | .negSucc k => nearestEven (num * 2 ^ (k + 1)) den

theorem roundMagnitude_of_pos {num den : Nat} (hnum : 0 < num) :
    roundMagnitude num den =
      if overflowBound ≤
          scaleTwo (mantissa num den (unitExponent num den)) (unitExponent num den) then none
      else some (scaleTwo (mantissa num den (unitExponent num den)) (unitExponent num den)) := by
  rw [roundMagnitude, if_neg hnum.ne']
  rfl

theorem div_le_nearestEven (num den : Nat) : num / den ≤ nearestEven num den := by
  unfold nearestEven
  simp only
  split_ifs <;> omega

theorem nearestEven_eq_zero {num den : Nat} (h : 2 * num < den) : nearestEven num den = 0 := by
  have hsmall : num < den := by omega
  simp [nearestEven, Nat.div_eq_of_lt hsmall, Nat.mod_eq_of_lt hsmall, h]

theorem lt_nearestEven_succ (num : Nat) {den : Nat} (hden : 0 < den) :
    (num : ℚ) < (nearestEven num den + 1) * den := by
  have h : num < (num / den + 1) * den := by
    rw [mul_comm]
    exact Nat.lt_mul_div_succ num hden
  have h' : num < (nearestEven num den + 1) * den :=
    h.trans_le (Nat.mul_le_mul_right den (Nat.succ_le_succ (div_le_nearestEven num den)))
  exact_mod_cast h'

theorem lt_mantissa_succ (num : Nat) {den : Nat} (hden : 0 < den) (unit : Int) :
    (num : ℚ) < (mantissa num den unit + 1) * 2 ^ unit * den := by
  cases unit with
  | ofNat k =>
      have h := lt_nearestEven_succ num (show 0 < den * 2 ^ k by positivity)
      push_cast at h
      rw [Int.ofNat_eq_natCast, zpow_natCast]
      calc
        (num : ℚ) < (nearestEven num (den * 2 ^ k) + 1) * (den * 2 ^ k) := h
        _ = (nearestEven num (den * 2 ^ k) + 1) * 2 ^ k * den := by ring
  | negSucc k =>
      have h := lt_nearestEven_succ (num * 2 ^ (k + 1)) hden
      push_cast at h
      rw [zpow_negSucc, ← div_eq_mul_inv, div_mul_eq_mul_div, lt_div_iff₀ (by positivity)]
      exact h

theorem mantissa_eq_zero {num den : Nat} {unit : Int} (hunit : unit < 0)
    (h : 2 * (num : ℚ) < 2 ^ unit * den) : mantissa num den unit = 0 := by
  cases unit with
  | ofNat k => exact absurd hunit (by simp)
  | negSucc k =>
      apply nearestEven_eq_zero
      rw [zpow_negSucc, ← div_eq_inv_mul, lt_div_iff₀ (by positivity)] at h
      have h' : ((2 * (num * 2 ^ (k + 1)) : Nat) : ℚ) < den := by
        push_cast
        linarith
      exact_mod_cast h'

/-! ## The range of rounding -/

theorem overflowBound_eq : overflowBound = (2 : ℚ) ^ 1024 := by
  rw [overflowBound, Nat.pow_eq, Nat.cast_pow, Nat.cast_ofNat]

theorem one_le_overflowBound : 1 ≤ overflowBound := by
  rw [overflowBound_eq]
  exact one_le_pow₀ (by norm_num)

theorem pos_of_bound_le {num den : Nat} {bound : ℚ} (hden : 0 < den) (hbound : 1 ≤ bound)
    (h : 2 * bound * den ≤ num) : 0 < num := by
  have hden' : (0 : ℚ) < den := by exact_mod_cast hden
  have hpos : (0 : ℚ) < num := lt_of_lt_of_le (by positivity) h
  exact_mod_cast hpos

/-- The unit is so small against a value from two on that less than half of it is lost. -/
theorem le_scaleTwo_mantissa {num den : Nat} {bound : ℚ} (hden : 0 < den) (hbound : 1 ≤ bound)
    (h : 2 * bound * den ≤ num) :
    bound ≤ scaleTwo (mantissa num den (unitExponent num den)) (unitExponent num den) := by
  have hden' : (0 : ℚ) < den := by exact_mod_cast hden
  have hnum := pos_of_bound_le hden hbound h
  rw [scaleTwo_eq]
  set unit := unitExponent num den with hunit
  have hle : 2 * (2 : ℚ) ^ unit * den ≤ num := by
    rcases le_total (binaryExponent num den) (-1022) with hsmall | hlarge
    · have hu : unit ≤ 0 := by
        rw [hunit, unitExponent, max_eq_right hsmall]
        norm_num
      calc
        2 * (2 : ℚ) ^ unit * den ≤ 2 * bound * den := by
          gcongr
          exact (zpow_le_one_of_nonpos₀ (by norm_num) hu).trans hbound
        _ ≤ num := h
    · calc
        2 * (2 : ℚ) ^ unit * den = 2 ^ (unit + 1) * den := by
          rw [zpow_add₀ (by norm_num), zpow_one, mul_comm (2 : ℚ)]
        _ ≤ 2 ^ binaryExponent num den * den := by
          gcongr
          · norm_num
          · rw [hunit, unitExponent, max_eq_left hlarge]
            omega
        _ ≤ num := two_zpow_binaryExponent_le hnum
  have hlt := lt_mantissa_succ num hden unit
  have hhalf : bound * den ≤ mantissa num den unit * 2 ^ unit * den := by linarith
  exact le_of_mul_le_mul_right hhalf hden'

/-- A magnitude of twice the bound overflows. -/
theorem roundMagnitude_eq_none {num den : Nat} (hden : 0 < den)
    (h : 2 * overflowBound * den ≤ num) : roundMagnitude num den = none := by
  have hnum := pos_of_bound_le hden one_le_overflowBound h
  rw [roundMagnitude_of_pos hnum, if_pos (le_scaleTwo_mantissa hden one_le_overflowBound h)]

/-- A magnitude below `2 ^ (-1075)` vanishes. -/
theorem roundMagnitude_eq_zero {num den : Nat} (hden : 0 < den)
    (h : (num : ℚ) < 2 ^ (-1075 : Int) * den) : roundMagnitude num den = some 0 := by
  rcases Nat.eq_zero_or_pos num with rfl | hnum
  · rfl
  · have hden' : (0 : ℚ) < den := by exact_mod_cast hden
    have hexp : binaryExponent num den < -1075 := by
      have hlt : (2 : ℚ) ^ binaryExponent num den * den < 2 ^ (-1075 : Int) * den :=
        (two_zpow_binaryExponent_le hnum).trans_lt h
      exact (zpow_lt_zpow_iff_right₀ (by norm_num)).mp (lt_of_mul_lt_mul_right hlt hden'.le)
    have hunit : unitExponent num den = -1074 := by
      rw [unitExponent, max_eq_right (by omega)]
      norm_num
    have hzero : mantissa num den (-1074) = 0 := by
      apply mantissa_eq_zero (by norm_num)
      calc
        2 * (num : ℚ) < 2 * (2 ^ (-1075 : Int) * den) := by linarith
        _ = 2 ^ (-1074 : Int) * den := by
          rw [← mul_assoc, show (-1074 : Int) = 1 + (-1075) by norm_num,
            zpow_add₀ (by norm_num), zpow_one]
    rw [roundMagnitude_of_pos hnum, hunit, hzero, scaleTwo_eq, if_neg] <;> simp
    exact lt_of_lt_of_le zero_lt_one one_le_overflowBound

/-! ## Rounded values -/

theorem round_of_nonneg {q : ℚ} (hq : 0 ≤ q) :
    round q = (roundMagnitude q.num.natAbs q.den).elim (.infinite false) .finite := by
  have hneg : ¬ q.num < 0 := not_lt.mpr (Rat.num_nonneg.mpr hq)
  unfold round
  cases roundMagnitude q.num.natAbs q.den with
  | none => simp [hneg]
  | some value => simp [hneg]

theorem natAbs_num_eq {q : ℚ} (hq : 0 ≤ q) : ((q.num.natAbs : ℕ) : ℚ) = q * q.den := by
  rw [Rat.mul_den_eq_num, Nat.cast_natAbs, abs_of_nonneg (Rat.num_nonneg.mpr hq)]

/-- A value that rounds to a finite number is not far out of range. -/
theorem lt_of_round_eq_finite {q value : ℚ} (hq : 0 ≤ q) (h : round q = .finite value) :
    q < 2 * overflowBound := by
  by_contra hle
  have hnone : roundMagnitude q.num.natAbs q.den = none := by
    apply roundMagnitude_eq_none q.den_pos
    rw [natAbs_num_eq hq]
    gcongr
    exact not_lt.mp hle
  rw [round_of_nonneg hq, hnone] at h
  cases h

/-- A value that does not round to zero is not too small. -/
theorem le_of_round_ne_zero {q : ℚ} (hq : 0 ≤ q) (h : round q ≠ .finite 0) :
    (2 : ℚ) ^ (-1075 : Int) ≤ q := by
  by_contra hlt
  apply h
  have hden : (0 : ℚ) < q.den := by exact_mod_cast q.den_pos
  have hzero : roundMagnitude q.num.natAbs q.den = some 0 := by
    apply roundMagnitude_eq_zero q.den_pos
    rw [natAbs_num_eq hq]
    gcongr
    exact not_le.mp hlt
  rw [round_of_nonneg hq, hzero]
  rfl

theorem roundMagnitude_eq_scaleTwo {num den : Nat} {value : ℚ}
    (h : roundMagnitude num den = some value) : ∃ n e, value = scaleTwo n e := by
  rcases Nat.eq_zero_or_pos num with rfl | hnum
  · refine ⟨0, 0, ?_⟩
    rw [scaleTwo_eq]
    simpa [roundMagnitude] using h.symm
  · rw [roundMagnitude_of_pos hnum] at h
    split at h
    · cases h
    · exact ⟨_, _, (Option.some.inj h).symm⟩

/-- A value that is its own rounding has a power of two below the line. -/
theorem exists_den_eq_two_pow {q : ℚ} (hq : 0 ≤ q) (h : round q = .finite q) :
    ∃ k, q.den = 2 ^ k := by
  rw [round_of_nonneg hq] at h
  cases hm : roundMagnitude q.num.natAbs q.den with
  | none => rw [hm] at h; cases h
  | some value =>
      rw [hm] at h
      obtain ⟨n, e, hvalue⟩ := roundMagnitude_eq_scaleTwo hm
      have hqv : q = scaleTwo n e := by
        rw [← hvalue]
        exact (Number.finite.inj h).symm
      cases e with
      | ofNat k =>
          refine ⟨0, ?_⟩
          rw [hqv, scaleTwo]
          exact Rat.den_natCast _
      | negSucc k =>
          have hdvd : q.den ∣ 2 ^ (k + 1) := by
            rw [hqv, scaleTwo, Rat.mkRat_eq_div]
            have := Rat.den_dvd (n : Int) ((2 ^ (k + 1) : Nat) : Int)
            exact_mod_cast this
          obtain ⟨j, -, hj⟩ := (Nat.dvd_prime_pow Nat.prime_two).mp hdvd
          exact ⟨j, hj⟩

theorem round_neg (q : ℚ) : round (-q) = (round q).neg := by
  rcases lt_trichotomy q.num 0 with hnum | hnum | hnum
  · have hneg : ¬ -q.num < 0 := by omega
    unfold round
    simp only [Rat.neg_num, Rat.neg_den, Int.natAbs_neg]
    cases roundMagnitude q.num.natAbs q.den <;> simp only [hnum, hneg] <;> simp [neg]
  · rw [Rat.num_eq_zero.mp hnum]
    simp [round, roundMagnitude, neg]
  · have hpos : ¬ q.num < 0 := by omega
    have hneg : -q.num < 0 := by omega
    unfold round
    simp only [Rat.neg_num, Rat.neg_den, Int.natAbs_neg]
    cases roundMagnitude q.num.natAbs q.den <;> simp only [hpos, hneg] <;> simp [neg]

/-! ## Exact counts -/

/-- A count that is a binary64 value. -/
def IsExact (n : Nat) : Prop :=
  round (n : ℚ) = .finite (n : ℚ)

theorem nearestEven_one (n : Nat) : nearestEven n 1 = n := by
  simp [nearestEven, Nat.mod_one]

/-- A unit of at most one loses nothing of a whole number. -/
theorem scaleTwo_mantissa_one (n : Nat) {unit : Int} (hunit : unit ≤ 0) :
    scaleTwo (mantissa n 1 unit) unit = n := by
  rw [scaleTwo_eq]
  cases unit with
  | ofNat k =>
      obtain rfl : k = 0 := by
        have hk : (k : Int) ≤ 0 := hunit
        omega
      simp [mantissa, nearestEven_one]
  | negSucc k =>
      rw [mantissa, nearestEven_one, zpow_negSucc]
      push_cast
      field_simp

theorem binaryExponent_one_le (n : Nat) : binaryExponent n 1 ≤ Nat.log2 n := by
  rw [binaryExponent_eq]
  have hone : Nat.log2 1 = 0 := rfl
  split <;> omega

/-- Every count of at most 53 bits is exact. -/
theorem isExact_of_lt {n : Nat} (h : n < 2 ^ 53) : IsExact n := by
  have hround := round_of_nonneg (Nat.cast_nonneg n : (0 : ℚ) ≤ n)
  rw [Rat.num_natCast, Rat.den_natCast, Int.natAbs_natCast] at hround
  rw [IsExact, hround]
  rcases Nat.eq_zero_or_pos n with rfl | hn
  · rfl
  · have hunit : unitExponent n 1 ≤ 0 := by
      have hlog : Nat.log2 n < 53 := (Nat.log2_lt hn.ne').mpr h
      have hexp := binaryExponent_one_le n
      unfold unitExponent
      omega
    have hbound : ¬ overflowBound ≤ (n : ℚ) := by
      have hn53 : (n : ℚ) < 2 ^ 53 := by exact_mod_cast h
      rw [overflowBound_eq]
      exact not_le.mpr (hn53.trans_le (pow_le_pow_right₀ (by norm_num) (by norm_num)))
    rw [roundMagnitude_of_pos hn, scaleTwo_mantissa_one n hunit, if_neg hbound]
    rfl

end Number

end CloneScan
