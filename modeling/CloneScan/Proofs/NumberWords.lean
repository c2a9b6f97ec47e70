import CloneScan.Number.Word
import CloneScan.Proofs.Rounding
import Mathlib.Data.UInt

/-!
# Words and numbers

Every word is the word of its number, with and without a sign.  A word with a sign and a whole
number below `2 ^ 53 - 2 ^ 31` have a sum of at most 53 bits, and two words a difference of at most
33, so neither is rounded, and its word is the sum or the difference of the words.
-/

namespace CloneScan.Number

/-! ## Whole numbers -/

/-- A whole number of at most 53 bits is not rounded. -/
theorem round_intCast {i : Int} (h : i.natAbs < 2 ^ 53) : round (i : ℚ) = .finite i := by
  have hexact : round ((i.natAbs : Int) : ℚ) = .finite ((i.natAbs : Int) : ℚ) := isExact_of_lt h
  rcases Int.natAbs_eq i with hi | hi
  · rwa [← hi] at hexact
  · rw [hi, Int.cast_neg, round_neg, hexact]
    rfl

theorem toWord_intCast (i : Int) : toWord (.finite i) = UInt32.ofInt i := by
  simp [toWord]

theorem toNat_ofInt (i : Int) : (UInt32.ofInt i).toNat = (i % 2 ^ 32).toNat := by
  rw [UInt32.ofInt, UInt32.toNat_ofNat']
  omega

theorem ofInt_toNat (w : UInt32) : UInt32.ofInt w.toNat = w := by
  apply UInt32.toNat_inj.mp
  have hw := w.toNat_lt
  rw [toNat_ofInt]
  omega

theorem ofInt_signedValue (w : UInt32) : UInt32.ofInt (signedValue w) = w := by
  apply UInt32.toNat_inj.mp
  have hw := w.toNat_lt
  rw [toNat_ofInt, signedValue]
  split <;> omega

theorem natAbs_signedValue_le (w : UInt32) : (signedValue w).natAbs ≤ 2 ^ 31 := by
  have hw := w.toNat_lt
  rw [signedValue]
  split <;> omega

/-! ## Words of numbers -/

theorem ofUnsigned_eq (w : UInt32) : ofUnsigned w = .finite (w.toNat : Int) := rfl

@[simp] theorem toWord_ofUnsigned (w : UInt32) : (ofUnsigned w).toWord = w := by
  rw [ofUnsigned_eq, toWord_intCast, ofInt_toNat]

@[simp] theorem toWord_ofSigned (w : UInt32) : (ofSigned w).toWord = w := by
  rw [ofSigned, toWord_intCast, ofInt_signedValue]

/-- The sum of a word with a sign and a whole number of less than 53 bits is exact. -/
theorem add_ofSigned (v : UInt32) {i : Int} (h : i.natAbs < 2 ^ 53 - 2 ^ 31) :
    (ofSigned v).add (.finite i) = .finite (signedValue v + i : Int) := by
  have hv := natAbs_signedValue_le v
  rw [ofSigned, add, ← Int.cast_add]
  exact round_intCast (by omega)

/-- The difference of a word without a sign and one with a sign is exact. -/
theorem sub_ofUnsigned_ofSigned (v w : UInt32) :
    (ofUnsigned v).sub (ofSigned w) = .finite (v.toNat - signedValue w : Int) := by
  have hv := v.toNat_lt
  have hw := natAbs_signedValue_le w
  rw [ofUnsigned_eq, ofSigned, sub, neg, add, ← Int.cast_neg, ← Int.cast_add, ← sub_eq_add_neg]
  exact round_intCast (by omega)

theorem toWord_add (v : UInt32) {i : Int} (h : i.natAbs < 2 ^ 53 - 2 ^ 31) :
    ((ofSigned v).add (.finite i)).toWord = v + UInt32.ofInt i := by
  rw [add_ofSigned v h, toWord_intCast, UInt32.ofInt_add, ofInt_signedValue]

theorem toWord_sub (v w : UInt32) : ((ofUnsigned v).sub (ofSigned w)).toWord = v - w := by
  rw [sub_ofUnsigned_ofSigned, toWord_intCast, sub_eq_add_neg, UInt32.ofInt_add, UInt32.ofInt_neg,
    ofInt_signedValue, ofInt_toNat, UInt32.sub_eq_add_neg]

end CloneScan.Number
