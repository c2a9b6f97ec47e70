import CloneScan.Report.Reporter
import Mathlib.Data.List.Sort

/-!
# The order of a report

Texts are compared by their code units, locations by file and lines, and violations by their
primary location and then by the number of occurrences.  Each comparison is the lexicographic order
of its parts, so a sorted list of locations does not depend on the order in which they come.
-/

namespace CloneScan

/-! ## Texts -/

namespace Text

theorem order_eq_compare (a b : Text) : order a b = compare a b := by
  induction a generalizing b with
  | nil =>
      cases b with
      | nil => rfl
      | cons v b => rfl
  | cons u a ih =>
      cases b with
      | nil => rfl
      | cons v b =>
          have hunits : compare u v = if u < v then .lt else if u = v then .eq else .gt := rfl
          rw [List.compare_cons_cons, ← ih b, order]
          by_cases huv : u < v
          · simp [hunits, huv]
          · by_cases hvu : v < u
            · have hne : u ≠ v := by
                rintro rfl
                exact huv hvu
              simp [hunits, huv, hvu, hne]
            · obtain rfl : u = v := UInt16.le_antisymm (by simpa using hvu) (by simpa using huv)
              simp

theorem order_eq_eq_iff {a b : Text} : order a b = .eq ↔ a = b := by
  rw [order_eq_compare]
  exact Std.LawfulEqCmp.compare_eq_iff_eq

/-- The order of texts is the lexicographic order of their code units. -/
theorem order_eq_lt_iff {a b : Text} : order a b = .lt ↔ a < b := by
  induction a generalizing b with
  | nil =>
      cases b with
      | nil => simp [order]
      | cons v b => simp [order]
  | cons u a ih =>
      cases b with
      | nil => simp [order]
      | cons v b =>
          rw [List.cons_lt_cons_iff, order, ← ih]
          by_cases huv : u < v
          · simp [huv]
          · by_cases hvu : v < u
            · have hne : u ≠ v := by
                rintro rfl
                exact huv hvu
              simp [huv, hvu, hne]
            · obtain rfl : u = v := UInt16.le_antisymm (by simpa using hvu) (by simpa using huv)
              simp

end Text

/-! ## Locations -/

namespace Location

/-- The first location comes no later: by the units of its file, its first line, its last line. -/
def Precedes (a b : Location) : Prop :=
  a.file < b.file ∨ a.file = b.file ∧
    (a.startLine < b.startLine ∨ a.startLine = b.startLine ∧ a.endLine ≤ b.endLine)

theorem order_eq_compareLex : order = compareLex (compareOn (·.file))
    (compareLex (compareOn (·.startLine)) (compareOn (·.endLine))) := by
  funext a b
  rw [order, Text.order_eq_compare]
  rfl

instance : Std.TransCmp order := by
  rw [order_eq_compareLex]
  infer_instance

theorem le_eq_isLE (a b : Location) : le a b = (order a b).isLE := by
  simp only [le]
  cases order a b <;> rfl

theorem le_iff_precedes {a b : Location} : le a b = true ↔ a.Precedes b := by
  have hlines : (compare a.startLine b.startLine).then (compare a.endLine b.endLine) ≠ .gt ↔
      a.startLine < b.startLine ∨ a.startLine = b.startLine ∧ a.endLine ≤ b.endLine := by
    simp only [ne_eq, Ordering.then_eq_gt, Std.compare_eq_gt, compare_eq_iff_eq]
    omega
  simp only [le, bne_iff_ne, order, Precedes, ← Text.order_eq_lt_iff, ← Text.order_eq_eq_iff,
    ← hlines]
  cases Text.order a.file b.file <;> simp

theorem le_trans (a b c : Location) (hab : le a b = true) (hbc : le b c = true) :
    le a c = true := by
  rw [le_eq_isLE] at *
  exact Std.TransCmp.isLE_trans hab hbc

theorem le_total (a b : Location) : (le a b || le b a) = true := by
  have hswap : order b a = (order a b).swap := Std.OrientedCmp.eq_swap
  rw [le_eq_isLE, le_eq_isLE, hswap]
  cases order a b <;> rfl

theorem le_antisymm {a b : Location} (hab : le a b = true) (hba : le b a = true) : a = b := by
  rw [le_eq_isLE] at hab hba
  have heq : order a b = .eq := Std.OrientedCmp.isLE_antisymm hab hba
  simp only [order, Ordering.then_eq_eq, Text.order_eq_eq_iff, compare_eq_iff_eq] at heq
  obtain ⟨file, startLine, endLine⟩ := a
  obtain ⟨file', startLine', endLine'⟩ := b
  simp only [mk.injEq]
  exact heq

/-- The sorted list of some locations does not depend on their order. -/
theorem mergeSort_eq_of_perm {l l' : List Location} (h : l.Perm l') :
    l.mergeSort le = l'.mergeSort le := by
  have hsorted := List.pairwise_mergeSort le_trans le_total l
  have hsorted' := List.pairwise_mergeSort le_trans le_total l'
  have hperm := ((List.mergeSort_perm l le).trans h).trans (List.mergeSort_perm l' le).symm
  exact hperm.eq_of_pairwise (fun a b _ _ hab hba => le_antisymm hab hba) hsorted hsorted'

end Location

/-! ## Violations -/

namespace Violation

/-- All locations, the primary one first. -/
def locations (v : Violation) : List Location :=
  v.primary.toList ++ v.related

/-- Both violations have a primary location, and the first one comes no later: by the units of the
file, the first line, the last line and the number of occurrences. -/
def Precedes (v w : Violation) : Prop :=
  ∃ a b, v.primary = some a ∧ w.primary = some b ∧ (a.file < b.file ∨ a.file = b.file ∧
    (a.startLine < b.startLine ∨ a.startLine = b.startLine ∧
      (a.endLine < b.endLine ∨ a.endLine = b.endLine ∧ v.occurrenceCount ≤ w.occurrenceCount)))

theorem order_eq_compareLex : order = compareLex (compareOn (·.place.file))
    (compareLex (compareOn (·.place.startLine))
      (compareLex (compareOn (·.place.endLine)) (compareOn (·.occurrenceCount)))) := by
  funext v w
  rw [order, Location.order, Text.order_eq_compare, Ordering.then_assoc, Ordering.then_assoc]
  rfl

instance : Std.TransCmp order := by
  rw [order_eq_compareLex]
  infer_instance

theorem le_eq_isLE (v w : Violation) : le v w = (order v w).isLE := by
  simp only [le]
  cases order v w <;> rfl

theorem le_trans (u v w : Violation) (huv : le u v = true) (hvw : le v w = true) :
    le u w = true := by
  rw [le_eq_isLE] at *
  exact Std.TransCmp.isLE_trans huv hvw

theorem le_total (v w : Violation) : (le v w || le w v) = true := by
  have hswap : order w v = (order v w).swap := Std.OrientedCmp.eq_swap
  rw [le_eq_isLE, le_eq_isLE, hswap]
  cases order v w <;> rfl

theorem precedes_of_le {v w : Violation} {a b : Location} (hv : v.primary = some a)
    (hw : w.primary = some b) (hle : le v w = true) : v.Precedes w := by
  have hlines : (compare a.startLine b.startLine).then ((compare a.endLine b.endLine).then
      (compare v.occurrenceCount w.occurrenceCount)) ≠ .gt ↔
      a.startLine < b.startLine ∨ a.startLine = b.startLine ∧ (a.endLine < b.endLine ∨
        a.endLine = b.endLine ∧ v.occurrenceCount ≤ w.occurrenceCount) := by
    simp only [ne_eq, Ordering.then_eq_gt, Std.compare_eq_gt, compare_eq_iff_eq]
    omega
  refine ⟨a, b, hv, hw, ?_⟩
  simp only [le, bne_iff_ne, order, Location.order, place, hv, hw, Option.getD_some,
    Ordering.then_assoc] at hle
  simp only [← Text.order_eq_lt_iff, ← Text.order_eq_eq_iff, ← hlines]
  cases hfile : Text.order a.file b.file <;> simp_all

end Violation

theorem sortViolations_pairwise (violations : List Violation) :
    (sortViolations violations).Pairwise fun v w => Violation.le v w = true :=
  List.pairwise_mergeSort Violation.le_trans Violation.le_total violations

theorem sortViolations_perm (violations : List Violation) :
    (sortViolations violations).Perm violations :=
  List.mergeSort_perm violations Violation.le

end CloneScan
