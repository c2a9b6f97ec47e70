import CloneScan.Fingerprint.NumberHash
import CloneScan.Proofs.NumberWords
import CloneScan.Proofs.RollingHash
import Mathlib.Algebra.BigOperators.Ring.Finset

/-!
# Rolling hashes and direct hashes

The hash of a window is the sum of the hashes of its keys, each weighted with a power of 31, modulo
`2 ^ 32`.  Computed with binary64 numbers, by products of words with a sign and by sums and
differences that are reduced afterwards, every hash is the same: each step of the computation is the
step on words, whatever the values and however long the stream.
-/

namespace CloneScan

open Finset (range)
open scoped UInt32.CommRing

/-! ## Hashes of keys -/

/-- FNV-1a on natural numbers, modulo `2 ^ 32`. -/
def keyHash (t : Text) : Nat :=
  t.foldl (fun h u => (h ^^^ u.toNat) * 0x01000193 % 2 ^ 32) 0x811C9DC5

theorem toNat_fnv1a (t : Text) : (fnv1a t).toNat = keyHash t := by
  rw [fnv1a, keyHash]
  refine (List.foldl_hom UInt32.toNat fun h u => ?_).symm
  rw [UInt32.toNat_mul, UInt32.toNat_xor, UInt16.toNat_toUInt32]
  rfl

theorem keyHash_lt (t : Text) : keyHash t < 2 ^ 32 :=
  toNat_fnv1a t ▸ (fnv1a t).toNat_lt

/-- One unit of a key, on numbers and on words. -/
theorem toWord_fnv1aNumber_step (h : Number) (u : UInt16) :
    ((h.wordXor (.finite u.toNat)).wordMul (.finite 0x01000193)).toWord =
      (h.toWord ^^^ u.toUInt32) * 0x01000193 := by
  have hunit : Number.toWord (.finite u.toNat) = u.toUInt32 := by
    rw [← UInt16.toNat_toUInt32]
    exact Number.toWord_ofUnsigned u.toUInt32
  have hprime : Number.toWord (.finite 0x01000193) = 0x01000193 :=
    Number.toWord_ofUnsigned 0x01000193
  rw [Number.wordMul, Number.toWord_ofSigned, Number.wordXor, Number.toWord_ofSigned, hunit, hprime]

theorem fnv1aNumber_eq (t : Text) : fnv1aNumber t = .finite (keyHash t) := by
  have hbasis : Number.toWord (.finite 0x811C9DC5) = 0x811C9DC5 :=
    Number.toWord_ofUnsigned 0x811C9DC5
  have hwords : t.foldl (fun h u => (h ^^^ u.toUInt32) * 0x01000193)
      (Number.toWord (.finite 0x811C9DC5)) =
        Number.toWord (t.foldl
          (fun h u => (Number.wordXor h (.finite u.toNat)).wordMul (.finite 0x01000193))
          (.finite 0x811C9DC5)) :=
    List.foldl_hom Number.toWord fun h u => (toWord_fnv1aNumber_step h u).symm
  rw [fnv1aNumber, Number.unsigned, ← hwords, hbasis, ← toNat_fnv1a]
  rfl

namespace Rolling

/-! ## One step -/

theorem toWord_baseNumber : baseNumber.toWord = base :=
  Number.toWord_ofUnsigned 31

theorem push_intCast (hash : Number) {v : Int} (hv : v.natAbs < 2 ^ 53 - 2 ^ 31) :
    push hash (.finite v) = .ofUnsigned (hash.toWord * base + UInt32.ofInt v) := by
  rw [push, Number.unsigned, Number.wordMul, toWord_baseNumber, Number.toWord_add _ hv]

theorem dropOldest_intCast (weight : Number) (hash : UInt32) (out : Int) :
    dropOldest weight (.ofUnsigned hash) (.finite out) =
      .ofSigned (hash - UInt32.ofInt out * weight.toWord) := by
  rw [dropOldest, Number.signed, Number.wordMul, Number.toWord_intCast, Number.toWord_sub]

/-! ## Streams -/

theorem foldl_push (hash : UInt32) {values : List Int}
    (hvalues : ∀ v ∈ values, v.natAbs < 2 ^ 53 - 2 ^ 31) :
    (values.map fun v : Int => Number.finite v).foldl push (.ofUnsigned hash) =
      .ofUnsigned ((values.map UInt32.ofInt).foldl (fun h v => h * base + v) hash) := by
  induction values generalizing hash with
  | nil => rfl
  | cons v values ih =>
      obtain ⟨hv, hvalues⟩ := List.forall_mem_cons.mp hvalues
      rw [List.map_cons, List.foldl_cons, push_intCast _ hv, Number.toWord_ofUnsigned, ih _ hvalues,
        List.map_cons, List.foldl_cons]

theorem toWord_weightNumber (window : Nat) :
    (weightNumber window).toWord = base ^ (window - 1) := by
  rw [weightNumber]
  induction window - 1 with
  | zero => exact Number.toWord_ofUnsigned 1
  | succ k ih =>
      rw [List.range_succ, List.foldl_append, List.foldl_cons, List.foldl_nil, Number.wordMul,
        Number.toWord_ofSigned, ih, toWord_baseNumber, pow_succ]

theorem slideNumbers_eq (weight : Number) (hash : UInt32) (leaving : List Int) {entering : List Int}
    (hentering : ∀ v ∈ entering, v.natAbs < 2 ^ 53 - 2 ^ 31) :
    slideNumbers weight (.ofUnsigned hash) (leaving.map fun v : Int => .finite v)
        (entering.map fun v : Int => .finite v) =
      (slide weight.toWord hash (leaving.map UInt32.ofInt) (entering.map UInt32.ofInt)).map
        .ofUnsigned := by
  induction leaving generalizing hash entering with
  | nil => rfl
  | cons out leaving ih =>
      cases entering with
      | nil => rfl
      | cons v entering =>
          obtain ⟨hv, hentering⟩ := List.forall_mem_cons.mp hentering
          simp only [List.map_cons, slideNumbers, slide, dropOldest_intCast, push_intCast _ hv,
            Number.toWord_ofSigned, ih _ hentering]

/-- The polynomial of words is the word of the sum of integers. -/
theorem polynomial_range (f : Nat → Int) (n : Nat) :
    polynomial ((List.range n).map fun k => UInt32.ofInt (f k)) =
      UInt32.ofInt (∑ k ∈ range n, f k * 31 ^ (n - 1 - k)) := by
  induction n with
  | zero => rfl
  | succ n ih =>
      have hshift : ∑ k ∈ range n, f k * 31 ^ (n + 1 - 1 - k) =
          (∑ k ∈ range n, f k * 31 ^ (n - 1 - k)) * 31 := by
        rw [Finset.sum_mul]
        refine Finset.sum_congr rfl fun k hk => ?_
        have hexp : n + 1 - 1 - k = n - 1 - k + 1 := by
          have := Finset.mem_range.mp hk
          omega
        rw [hexp, pow_succ, mul_assoc]
      rw [List.range_succ, List.map_append, List.map_singleton, polynomial_append_singleton, ih,
        Finset.sum_range_succ, hshift, UInt32.ofInt_add, UInt32.ofInt_mul, Nat.add_sub_cancel,
        Nat.sub_self, pow_zero, mul_one]
      rfl

end Rolling

/-- The hashes of whole numbers, taken on numbers and on words. -/
theorem rollingNumbers_eq {values : List Int} (hvalues : ∀ v ∈ values, v.natAbs < 2 ^ 53 - 2 ^ 31)
    (window : Nat) :
    rollingNumbers (values.map fun v : Int => .finite v) window =
      (rollingHashes (values.map UInt32.ofInt) window).map .ofUnsigned := by
  have htake : ∀ v ∈ values.take window, v.natAbs < 2 ^ 53 - 2 ^ 31 :=
    fun v hv => hvalues v (List.mem_of_mem_take hv)
  have hdrop : ∀ v ∈ values.drop window, v.natAbs < 2 ^ 53 - 2 ^ 31 :=
    fun v hv => hvalues v (List.mem_of_mem_drop hv)
  have hfirst : ((values.take window).map fun v : Int => Number.finite v).foldl Rolling.push
      (.finite 0) = .ofUnsigned (Rolling.polynomial ((values.take window).map UInt32.ofInt)) :=
    Rolling.foldl_push 0 htake
  rw [rollingNumbers, rollingHashes, List.length_map, List.length_map]
  split
  · rfl
  · simp only [List.map_cons, ← List.map_take, ← List.map_drop, hfirst,
      Rolling.slideNumbers_eq _ _ _ hdrop, Rolling.toWord_weightNumber]

theorem rollingNumbers_getElem? {values : List Int}
    (hvalues : ∀ v ∈ values, v.natAbs < 2 ^ 53 - 2 ^ 31) {window : Nat} (hwindow : 0 < window)
    {i : Nat} (hi : i + window ≤ values.length) :
    (rollingNumbers (values.map fun v : Int => .finite v) window)[i]? =
      some (.finite (((∑ k ∈ range window, values.getD (i + k) 0 * 31 ^ (window - 1 - k)) % 2 ^ 32 :
        Int) : ℚ)) := by
  have hvalue : ((values.map UInt32.ofInt).drop i).take window =
      (List.range window).map fun k => UInt32.ofInt (values.getD (i + k) 0) := by
    apply List.ext_getElem
    · simp
      omega
    · intro k hk hk'
      have hlt : i + k < values.length := by
        rw [List.length_map, List.length_range] at hk'
        omega
      simp [List.getElem?_eq_getElem hlt]
  rw [rollingNumbers_eq hvalues, rollingHashes_eq hwindow, List.map_map, List.getElem?_map,
    List.getElem?_range (by rw [List.length_map]; omega), Option.map_some, Function.comp_apply,
    hvalue, Rolling.polynomial_range, Number.ofUnsigned_eq, Number.toNat_ofInt,
    Int.toNat_of_nonneg (Int.emod_nonneg _ (by decide))]

/-! ## Windows of keys -/

/-- The hash of the window of `window` keys that starts at the key `i`, as one sum. -/
def directHash (keys : List Text) (window i : Nat) : Nat :=
  (∑ k ∈ range window, keyHash (keys.getD (i + k) []) * 31 ^ (window - 1 - k)) % 2 ^ 32

theorem directHash_lt (keys : List Text) (window i : Nat) : directHash keys window i < 2 ^ 32 :=
  Nat.mod_lt _ (by decide)

theorem windowNumbers_eq (keys : List Text) (window : Nat) :
    windowNumbers keys window =
      rollingNumbers ((keys.map fun t => (keyHash t : Int)).map fun v : Int => .finite v)
        window := by
  rw [windowNumbers, List.map_map]
  congr 2
  exact funext fnv1aNumber_eq

theorem natAbs_lt_of_mem_keyHashes {keys : List Text} {v : Int}
    (hv : v ∈ keys.map fun t => (keyHash t : Int)) : v.natAbs < 2 ^ 53 - 2 ^ 31 := by
  obtain ⟨t, -, rfl⟩ := List.mem_map.mp hv
  have := keyHash_lt t
  omega

theorem windowNumbers_eq_windowHashes (keys : List Text) (window : Nat) :
    windowNumbers keys window = (windowHashes keys window).map .ofUnsigned := by
  have hwords : (keys.map fun t => (keyHash t : Int)).map UInt32.ofInt = keys.map fnv1a := by
    rw [List.map_map]
    refine List.map_congr_left fun t _ => ?_
    rw [Function.comp_apply, ← toNat_fnv1a, Number.ofInt_toNat]
  rw [windowNumbers_eq, rollingNumbers_eq fun v => natAbs_lt_of_mem_keyHashes, hwords, windowHashes]

theorem windowNumbers_length (keys : List Text) {window : Nat} (hwindow : 0 < window) :
    (windowNumbers keys window).length = keys.length + 1 - window := by
  rw [windowNumbers_eq_windowHashes, List.length_map, windowHashes_length keys hwindow]

theorem windowNumbers_getElem? (keys : List Text) {window : Nat} (hwindow : 0 < window) {i : Nat}
    (hi : i + window ≤ keys.length) :
    (windowNumbers keys window)[i]? = some (.finite (directHash keys window i)) := by
  have hsum : ∑ k ∈ range window,
      (keys.map fun t => (keyHash t : Int)).getD (i + k) 0 * 31 ^ (window - 1 - k) =
        ((∑ k ∈ range window, keyHash (keys.getD (i + k) []) * 31 ^ (window - 1 - k) : Nat) :
          Int) := by
    rw [Nat.cast_sum]
    refine Finset.sum_congr rfl fun k hk => ?_
    have hlt : i + k < keys.length := by
      have := Finset.mem_range.mp hk
      omega
    simp [List.getD_eq_getElem?_getD, hlt]
  rw [windowNumbers_eq, rollingNumbers_getElem? (fun v => natAbs_lt_of_mem_keyHashes) hwindow
    (by rwa [List.length_map]), hsum, directHash]
  norm_cast

/-- Every window of keys has its direct hash, a whole number below `2 ^ 32`; on words the hashes are
the same.  No bit is lost either when the values of the stream are any whole numbers whose sum with
a word is one of at most 53 bits. -/
theorem windowNumbers_direct (keys : List Text) {window : Nat} (hwindow : 0 < window) :
    ((windowNumbers keys window).length : Int) = max 0 ((keys.length : Int) - window + 1) ∧
      (∀ i < (windowNumbers keys window).length,
        directHash keys window i < 2 ^ 32 ∧
          (windowNumbers keys window)[i]? = some (.finite (directHash keys window i))) ∧
      windowNumbers keys window = (windowHashes keys window).map .ofUnsigned ∧
      ∀ values : List Int, (∀ v ∈ values, v.natAbs < 2 ^ 53 - 2 ^ 31) →
        ∀ i, i + window ≤ values.length →
          (rollingNumbers (values.map fun v : Int => .finite v) window)[i]? =
            some (.finite (((∑ k ∈ range window,
              values.getD (i + k) 0 * 31 ^ (window - 1 - k)) % 2 ^ 32 : Int) : ℚ)) := by
  have hlength := windowNumbers_length keys hwindow
  refine ⟨by omega, fun i hi => ⟨directHash_lt keys window i, ?_⟩,
    windowNumbers_eq_windowHashes keys window,
    fun values hvalues i hi => rollingNumbers_getElem? hvalues hwindow hi⟩
  exact windowNumbers_getElem? keys hwindow (by omega)

/-- Two windows of keys, and a window of values whose sum passes `2 ^ 32`. -/
theorem windowNumbers_direct_pairs :
    0 < 2 ∧
      (windowNumbers [[97], [98], [99]] 2).length = 2 ∧
      (windowNumbers [[97], [98], [99]] 2)[1]? = some (.finite 3766860557) ∧
      (∀ v ∈ [(4294967295 : Int), 2147483648, 7], v.natAbs < 2 ^ 53 - 2 ^ 31) ∧
      (rollingNumbers ([4294967295, 2147483648, 7].map fun v : Int => .finite v) 2)[0]? =
        some (.finite 2147483617) := by
  have hwindow : 0 < 2 := by decide
  obtain ⟨hlength, hkeys, -, hvalues⟩ := windowNumbers_direct [[97], [98], [99]] hwindow
  have htwo : (windowNumbers [[97], [98], [99]] 2).length = 2 := by
    rw [List.length_cons, List.length_cons, List.length_cons, List.length_nil] at hlength
    omega
  have hdirect : directHash [[97], [98], [99]] 2 1 = 3766860557 := by
    decide
  have hbound : ∀ v ∈ [(4294967295 : Int), 2147483648, 7], v.natAbs < 2 ^ 53 - 2 ^ 31 := by
    decide
  have hwrapped := hvalues [4294967295, 2147483648, 7] hbound 0 (by decide)
  refine ⟨hwindow, htwo, ?_, hbound, hwrapped.trans rfl⟩
  rw [(hkeys 1 (by omega)).2, hdirect]
  rfl

end CloneScan
