import CloneScan.Proofs.Rounding

/-!
# The values of binary64

Rounding gives at most `2 ^ 53` units of a power of two that is not below the least one, and every
such number of units that is in range is its own rounding.  So rounding twice is rounding once, and
what has been read from a text once is a value that its own text reads back to.
-/

namespace CloneScan

namespace Number

/-! ## Whole numbers -/

theorem toInt?_eq_some_iff {x : Number} {i : Int} :
    x.toInt? = some i ↔ x = .finite (i : Rat) := by
  cases x with
  | nan => simp [toInt?]
  | infinite negative => simp [toInt?]
  | finite q =>
      rw [toInt?, Option.ite_none_right_eq_some, Option.some.injEq, finite.injEq]
      constructor
      · rintro ⟨hden, rfl⟩
        exact ((Rat.den_eq_one_iff q).mp hden).symm
      · rintro rfl
        exact ⟨Rat.den_intCast i, Rat.num_intCast i⟩

theorem toNat?_eq_some_iff {x : Number} {n : Nat} :
    x.toNat? = some n ↔ x = .finite (n : Rat) := by
  have hint : x.toNat? = some n ↔ x.toInt? = some (n : Int) := by
    rw [toNat?]
    split
    case h_1 m hm =>
        rw [hm, Option.some.injEq, Option.some.injEq]
        exact Int.ofNat_inj.symm
    case h_2 hnone => exact ⟨fun h => (by cases h), fun h => absurd h (hnone n)⟩
  rw [hint, toInt?_eq_some_iff]
  rfl

/-! ## What rounding gives -/

/-- The exponent found is high enough. -/
theorem lt_two_zpow_binaryExponent {num den : Nat} (hden : 0 < den) :
    (num : ℚ) < 2 ^ (binaryExponent num den + 1) * den := by
  rw [binaryExponent_eq]
  split
  case isTrue =>
      have hlow : (2 : ℚ) ^ Nat.log2 den ≤ den := by
        exact_mod_cast Nat.log2_self_le hden.ne'
      have hhigh : (num : ℚ) < 2 ^ (Nat.log2 num + 1) := by
        exact_mod_cast (Nat.lt_log2_self : num < _)
      calc
        (num : ℚ) < 2 ^ (Nat.log2 num + 1) := hhigh
        _ = 2 ^ ((Nat.log2 num : Int) - Nat.log2 den + 1) * 2 ^ Nat.log2 den := by
            rw [← zpow_natCast, ← zpow_natCast, ← zpow_add₀ (by norm_num)]
            congr 1
            push_cast
            omega
        _ ≤ 2 ^ ((Nat.log2 num : Int) - Nat.log2 den + 1) * den := by gcongr
  case isFalse h =>
      rw [Int.sub_add_cancel]
      exact lt_of_not_ge fun hle => h ((reaches_iff _ _ _).mpr hle)

theorem nearestEven_le_succ (num den : Nat) : nearestEven num den ≤ num / den + 1 := by
  unfold nearestEven
  simp only
  split_ifs <;> omega

theorem nearestEven_le {num den bound : Nat} (h : num < bound * den) :
    nearestEven num den ≤ bound := by
  have hdiv : num / den < bound := Nat.div_lt_of_lt_mul (by rwa [Nat.mul_comm] at h)
  have hnearest := nearestEven_le_succ num den
  omega

theorem mantissa_le {num den bound : Nat} {unit : Int}
    (h : (num : ℚ) < bound * 2 ^ unit * den) : mantissa num den unit ≤ bound := by
  cases unit with
  | ofNat k =>
      apply nearestEven_le
      rw [Int.ofNat_eq_natCast, zpow_natCast, mul_right_comm, mul_assoc] at h
      exact_mod_cast h
  | negSucc k =>
      apply nearestEven_le
      rw [zpow_negSucc, mul_right_comm, ← div_eq_mul_inv, lt_div_iff₀ (by positivity)] at h
      exact_mod_cast h

/-- A magnitude of binary64: at most `2 ^ 53` units of a power of two. -/
def IsMagnitude (q : ℚ) : Prop :=
  ∃ (k : Nat) (unit : Int), k ≤ 2 ^ 53 ∧ -1074 ≤ unit ∧ q = k * 2 ^ unit ∧ q < overflowBound

theorem isMagnitude_of_roundMagnitude {num den : Nat} {value : ℚ} (hden : 0 < den)
    (h : roundMagnitude num den = some value) : IsMagnitude value := by
  rcases Nat.eq_zero_or_pos num with rfl | hnum
  · obtain rfl : value = 0 := by simpa [roundMagnitude] using h.symm
    refine ⟨0, 0, by norm_num, by norm_num, by simp, ?_⟩
    exact lt_of_lt_of_le zero_lt_one one_le_overflowBound
  · rw [roundMagnitude_of_pos hnum] at h
    split at h
    · cases h
    · rename_i hrange
      obtain rfl := Option.some.inj h
      refine ⟨_, unitExponent num den, ?_, ?_, scaleTwo_eq _ _, not_le.mp hrange⟩
      · apply mantissa_le
        have hden' : (0 : ℚ) < den := by exact_mod_cast hden
        calc
          (num : ℚ) < 2 ^ (binaryExponent num den + 1) * den := lt_two_zpow_binaryExponent hden
          _ ≤ 2 ^ (53 + unitExponent num den) * den := by
              apply mul_le_mul_of_nonneg_right _ hden'.le
              apply zpow_le_zpow_right₀ (by norm_num)
              unfold unitExponent
              omega
          _ = ((2 ^ 53 : Nat) : ℚ) * 2 ^ unitExponent num den * den := by
              rw [zpow_add₀ (by norm_num)]
              norm_num
      · unfold unitExponent
        omega

/-! ## What is its own rounding -/

theorem nearestEven_mul (n : Nat) {den : Nat} (hden : 0 < den) : nearestEven (n * den) den = n := by
  simp [nearestEven, Nat.mul_div_cancel n hden, hden]

/-- A whole number of units has itself as its mantissa. -/
theorem mantissa_eq {num den n : Nat} {unit : Int} (hden : 0 < den)
    (h : (num : ℚ) = n * 2 ^ unit * den) : mantissa num den unit = n := by
  cases unit with
  | ofNat k =>
      have hnum : num = n * (den * 2 ^ k) := by
        rw [Int.ofNat_eq_natCast, zpow_natCast, mul_right_comm, mul_assoc] at h
        exact_mod_cast h
      rw [mantissa, hnum, nearestEven_mul n (by positivity)]
  | negSucc k =>
      have hnum : num * 2 ^ (k + 1) = n * den := by
        rw [zpow_negSucc, mul_right_comm, ← div_eq_mul_inv, eq_div_iff (by positivity)] at h
        exact_mod_cast h
      rw [mantissa, hnum, nearestEven_mul n hden]

/-- The unit of rounding is not above the unit of a number of at most 53 bits. -/
theorem unitExponent_le {num den k : Nat} {unit : Int} (hnum : 0 < num) (hden : 0 < den)
    (hk : k < 2 ^ 53) (hunit : -1074 ≤ unit) (h : (num : ℚ) = k * 2 ^ unit * den) :
    unitExponent num den ≤ unit := by
  have hden' : (0 : ℚ) < den := by exact_mod_cast hden
  have hlow : (2 : ℚ) ^ binaryExponent num den ≤ k * 2 ^ unit := by
    have hle : (2 : ℚ) ^ binaryExponent num den * den ≤ num := two_zpow_binaryExponent_le hnum
    rw [h] at hle
    exact le_of_mul_le_mul_right hle hden'
  have hhigh : (k : ℚ) * 2 ^ unit < 2 ^ (unit + 53) := by
    rw [zpow_add₀ (by norm_num), mul_comm]
    gcongr
    exact_mod_cast hk
  have hexponent : binaryExponent num den < unit + 53 :=
    (zpow_lt_zpow_iff_right₀ (by norm_num)).mp (hlow.trans_lt hhigh)
  unfold unitExponent
  omega

theorem roundMagnitude_of_lt {num den k : Nat} {unit : Int} (hden : 0 < den) (hk : k < 2 ^ 53)
    (hunit : -1074 ≤ unit) (h : (num : ℚ) = k * 2 ^ unit * den)
    (hrange : (k : ℚ) * 2 ^ unit < overflowBound) :
    roundMagnitude num den = some ((k : ℚ) * 2 ^ unit) := by
  have hden' : (0 : ℚ) < den := by exact_mod_cast hden
  rcases Nat.eq_zero_or_pos num with rfl | hnum
  · rw [Nat.cast_zero, eq_comm, mul_eq_zero, or_iff_left hden'.ne'] at h
    rw [h]
    rfl
  · have hle := unitExponent_le hnum hden hk hunit h
    obtain ⟨n, hn⟩ := Int.eq_ofNat_of_zero_le (show 0 ≤ unit - unitExponent num den by omega)
    have hvalue : (k : ℚ) * 2 ^ unit = ((k * 2 ^ n : Nat) : ℚ) * 2 ^ unitExponent num den := by
      rw [show unit = n + unitExponent num den by omega, zpow_add₀ (by norm_num), zpow_natCast]
      push_cast
      ring
    have hmantissa : mantissa num den (unitExponent num den) = k * 2 ^ n :=
      mantissa_eq hden (by rw [h, hvalue])
    rw [roundMagnitude_of_pos hnum, hmantissa, scaleTwo_eq, ← hvalue, if_neg (not_le.mpr hrange)]

theorem round_of_lt {k : Nat} {unit : Int} (hk : k < 2 ^ 53) (hunit : -1074 ≤ unit)
    (hrange : (k : ℚ) * 2 ^ unit < overflowBound) :
    round (k * 2 ^ unit) = .finite (k * 2 ^ unit) := by
  have hnonneg : 0 ≤ (k : ℚ) * 2 ^ unit :=
    mul_nonneg (Nat.cast_nonneg k) (zpow_nonneg (by norm_num) unit)
  rw [round_of_nonneg hnonneg,
    roundMagnitude_of_lt (Rat.den_pos _) hk hunit (natAbs_num_eq hnonneg) hrange]
  rfl

theorem round_of_isMagnitude {q : ℚ} (h : IsMagnitude q) : round q = .finite q := by
  obtain ⟨k, unit, hk, hunit, rfl, hrange⟩ := h
  rcases Nat.lt_or_ge k (2 ^ 53) with hlt | hge
  · exact round_of_lt hlt hunit hrange
  · -- `2 ^ 53` units are `2 ^ 52` of the next larger unit
    have hdouble : (k : ℚ) * 2 ^ unit = ((2 ^ 52 : Nat) : ℚ) * 2 ^ (unit + 1) := by
      obtain rfl : k = 2 ^ 53 := by omega
      rw [zpow_add₀ (by norm_num)]
      push_cast
      ring
    rw [hdouble] at hrange ⊢
    exact round_of_lt (by norm_num) (by omega) hrange

/-- Rounding twice is rounding once. -/
theorem round_of_round_eq_finite {q value : ℚ} (h : round q = .finite value) :
    round value = .finite value := by
  have hpos (p v : ℚ) (hp : 0 ≤ p) (hv : round p = .finite v) : round v = .finite v := by
    rw [round_of_nonneg hp] at hv
    cases hm : roundMagnitude p.num.natAbs p.den with
    | none =>
        rw [hm] at hv
        cases hv
    | some m =>
        rw [hm] at hv
        obtain rfl := Number.finite.inj hv
        exact round_of_isMagnitude (isMagnitude_of_roundMagnitude p.den_pos hm)
  rcases le_total 0 q with hq | hq
  · exact hpos q value hq h
  · have hneg : round (-q) = .finite (-value) := by
      rw [round_neg, h]
      rfl
    have hvalue := hpos (-q) (-value) (neg_nonneg.mpr hq) hneg
    rw [round_neg] at hvalue
    cases hround : round value with
    | nan =>
        rw [hround] at hvalue
        cases hvalue
    | infinite s =>
        rw [hround] at hvalue
        cases hvalue
    | finite v =>
        rw [hround] at hvalue
        rw [neg_injective (Number.finite.inj hvalue)]

end Number

end CloneScan
