import CloneScan.Fingerprint
import CloneScan.Proofs.WindowClass
import Mathlib.Data.UInt
import Mathlib.Tactic.Ring

/-!
# Rolling hashes

The hash of a window that comes from the one before it is the polynomial of its own values: taking
the weighted oldest value out leaves the polynomial of the others, and shifting it by one makes
place for the new value.  So the hash of a window depends on its keys alone.
-/

namespace CloneScan

open scoped UInt32.CommRing

namespace Rolling

@[simp] theorem polynomial_append_singleton (values : List UInt32) (v : UInt32) :
    polynomial (values ++ [v]) = polynomial values * base + v := by
  simp [polynomial, List.foldl_append]

theorem polynomial_cons (out : UInt32) (values : List UInt32) :
    polynomial (out :: values) = out * base ^ values.length + polynomial values := by
  induction values using List.reverseRecOn with
  | nil => simp [polynomial]
  | append_singleton values v ih =>
      rw [← List.cons_append, polynomial_append_singleton, ih, polynomial_append_singleton,
        List.length_append, List.length_singleton, pow_succ]
      ring

/-- One step of the slide: the oldest value leaves and a new one enters. -/
theorem polynomial_next (out v : UInt32) (values : List UInt32) :
    (polynomial (out :: values) - out * base ^ values.length) * base + v =
      polynomial (values ++ [v]) := by
  rw [polynomial_cons, polynomial_append_singleton]
  ring

/-- The slide gives the polynomials of all windows but the first. -/
theorem slide_eq (window : Nat) (values : List UInt32) :
    slide (base ^ window) (polynomial (values.take (window + 1))) values
        (values.drop (window + 1)) =
      (List.range (values.length - (window + 1))).map fun i =>
        polynomial ((values.drop (i + 1)).take (window + 1)) := by
  induction values with
  | nil => simp [slide]
  | cons out values ih =>
      cases hentering : values.drop window with
      | nil =>
          have hshort : values.length ≤ window := List.drop_eq_nil_iff.mp hentering
          simp [slide, hentering, Nat.sub_eq_zero_of_le hshort]
      | cons v entering =>
          have hlong : window < values.length := by
            by_contra hle
            simp [List.drop_eq_nil_of_le (Nat.le_of_not_lt hle)] at hentering
          have hv : values.take (window + 1) = values.take window ++ [v] := by
            rw [List.take_add_one, ← List.head?_drop, hentering]
            rfl
          have hrest : values.drop (window + 1) = entering := by
            rw [← List.tail_drop, hentering]
            rfl
          have hnext := polynomial_next out v (values.take window)
          rw [List.length_take_of_le (Nat.le_of_lt hlong), ← hv] at hnext
          rw [hrest] at ih
          simp only [List.take_succ_cons, List.drop_succ_cons, hentering, slide, hnext, ih]
          rw [List.length_cons, Nat.succ_sub_succ, ← Nat.sub_add_cancel (Nat.sub_pos_of_lt hlong),
            List.range_succ_eq_map, List.map_cons, List.map_map]
          simp [Nat.sub_sub]

end Rolling

/-- Every window has its own polynomial as its hash. -/
theorem rollingHashes_eq {values : List UInt32} {window : Nat} (hwindow : 0 < window) :
    rollingHashes values window =
      (List.range (values.length + 1 - window)).map fun i =>
        Rolling.polynomial ((values.drop i).take window) := by
  obtain ⟨w, rfl⟩ := Nat.exists_eq_succ_of_ne_zero (Nat.ne_of_gt hwindow)
  by_cases hshort : values.length < w + 1
  · have hzero : values.length + 1 - (w + 1) = 0 := by omega
    simp [rollingHashes, hshort, hzero]
  · have hcount : values.length + 1 - (w + 1) = values.length - (w + 1) + 1 := by omega
    simp only [rollingHashes, hshort, Nat.succ_eq_add_one, Nat.add_one_ne_zero, or_self, if_false,
      Nat.add_sub_cancel]
    rw [Rolling.slide_eq, hcount, List.range_succ_eq_map, List.map_cons, List.map_map]
    rfl

theorem windowHashes_length (keys : List Text) {window : Nat} (hwindow : 0 < window) :
    (windowHashes keys window).length = keys.length + 1 - window := by
  simp [windowHashes, rollingHashes_eq hwindow]

theorem windowHashes_getElem? (keys : List Text) {window : Nat} (hwindow : 0 < window) {i : Nat}
    (hi : i + window ≤ keys.length) :
    (windowHashes keys window)[i]? =
      some (Rolling.polynomial (((keys.drop i).take window).map fnv1a)) := by
  rw [windowHashes, rollingHashes_eq hwindow, List.getElem?_map,
    List.getElem?_range (by simp; omega)]
  simp

end CloneScan
