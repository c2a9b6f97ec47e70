import CloneScan.Report.Constant
import Mathlib.Order.Bounds.Basic
import Mathlib.Order.Lattice

/-!
# Edit distance

Row by row, the table of the edit distance holds the distances of the prefixes of two texts.  Its
last entry is the least number of single edits, each the insertion, the deletion or the replacement
of one unit, that turn the first text into the second: a run of edits can take its steps from the
front to the back, and no run is shorter than the table says, because the distance satisfies the
triangle inequality.
-/

namespace CloneScan.Constant

/-! ## Edit distance -/

/-- The distance of two texts, one unit at the front after the other. -/
def edits : Text → Text → Nat
  | [], t => t.length
  | u :: s, [] => (u :: s).length
  | u :: s, v :: t =>
    min (min (edits s (v :: t) + 1) (edits (u :: s) t + 1)) (edits s t + if u = v then 0 else 1)
termination_by s t => s.length + t.length

theorem edits_nil_left (t : Text) : edits [] t = t.length := by
  rw [edits]

theorem edits_nil_right (s : Text) : edits s [] = s.length := by
  cases s <;> simp [edits]

theorem edits_comm (s t : Text) : edits s t = edits t s := by
  fun_induction edits s t with
  | case1 t => rw [edits_nil_right]
  | case2 u s => simp [edits]
  | case3 u s v t ih₁ ih₂ ih₃ =>
      rw [ih₁, ih₂, ih₃, edits, min_comm (edits (v :: t) s + 1)]
      simp only [eq_comm]

/-- The distances of `s` from `t` and from `t` with more and more units of the last text in
front. -/
def editRow (s : Text) : Text → Text → List Nat
  | t, [] => [edits s t]
  | t, v :: rest => edits s t :: editRow s (v :: t) rest

theorem exists_editRow_eq_cons (s t rest : Text) :
    ∃ more, editRow s t rest = edits s t :: more := by
  cases rest with
  | nil => exact ⟨_, rfl⟩
  | cons v rest => exact ⟨_, rfl⟩

theorem editRow_nil_left (t rest : Text) :
    editRow [] t rest = List.range' t.length (rest.length + 1) := by
  induction rest generalizing t with
  | nil => simp [editRow, edits]
  | cons v rest ih => simp [editRow, edits, ih, List.range'_succ]

theorem getLastD_editRow (s t rest : Text) :
    (editRow s t rest).getLastD 0 = edits s (rest.reverse ++ t) := by
  induction rest generalizing t with
  | nil => simp [editRow]
  | cons v rest ih =>
      obtain ⟨more, hmore⟩ := exists_editRow_eq_cons s (v :: t) rest
      have ih' := ih (v :: t)
      rw [editRow, hmore, List.reverse_cons, List.append_assoc, List.singleton_append, ← ih', hmore]
      rfl

theorem nextRow_editRow (u : UInt16) (s t rest : Text) :
    edits (u :: s) t :: nextRow u (edits (u :: s) t) (editRow s t rest) rest =
      editRow (u :: s) t rest := by
  induction rest generalizing t with
  | nil => simp [editRow, nextRow]
  | cons v rest ih =>
      obtain ⟨more, hmore⟩ := exists_editRow_eq_cons s (v :: t) rest
      have hentry : min (min (edits s (v :: t) + 1) (edits (u :: s) t + 1))
          (edits s t + if u = v then 0 else 1) = edits (u :: s) (v :: t) := by
        rw [edits]
      rw [editRow, editRow, hmore, nextRow, hentry, ← hmore, ih]

theorem distanceRows_editRow (b s a : Text) :
    distanceRows b s.length (editRow s [] b) a = editRow (a.reverse ++ s) [] b := by
  induction a generalizing s with
  | nil => rfl
  | cons u a ih =>
      have hfirst : edits (u :: s) [] = s.length + 1 := edits_nil_right (u :: s)
      have hrow := nextRow_editRow u s [] b
      rw [hfirst] at hrow
      rw [distanceRows, hrow, List.reverse_cons, List.append_assoc, List.singleton_append, ← ih]
      rfl

theorem editDistance_eq (a b : Text) : editDistance a b = edits a.reverse b.reverse := by
  have hrows := distanceRows_editRow b [] a
  have hlast := getLastD_editRow a.reverse [] b
  rw [editRow_nil_left, List.append_nil] at hrows
  rw [List.append_nil] at hlast
  rw [editDistance, List.range_eq_range', ← hlast, ← hrows]
  rfl

theorem editDistance_comm (a b : Text) : editDistance a b = editDistance b a := by
  rw [editDistance_eq, editDistance_eq, edits_comm]

/-! ## Bounds -/

theorem edits_cons_left_le (u : UInt16) (s t : Text) : edits (u :: s) t ≤ edits s t + 1 := by
  cases t with
  | nil => simp [edits_nil_right]
  | cons v t =>
      rw [edits]
      exact (min_le_left _ _).trans (min_le_left _ _)

theorem edits_cons_right_le (s : Text) (v : UInt16) (t : Text) :
    edits s (v :: t) ≤ edits s t + 1 := by
  rw [edits_comm s, edits_comm s]
  exact edits_cons_left_le v t s

theorem edits_cons_cons_le (u v : UInt16) (s t : Text) :
    edits (u :: s) (v :: t) ≤ edits s t + if u = v then 0 else 1 := by
  rw [edits]
  exact min_le_right _ _

/-- The last edit is a deletion, an insertion, or it is made to the two units in front. -/
theorem edits_cons_cons_cases (u v : UInt16) (s t : Text) :
    edits (u :: s) (v :: t) = edits s (v :: t) + 1 ∨
      edits (u :: s) (v :: t) = edits (u :: s) t + 1 ∨
      edits (u :: s) (v :: t) = edits s t + if u = v then 0 else 1 := by
  rw [edits]
  omega

theorem edits_self (s : Text) : edits s s = 0 := by
  induction s with
  | nil => exact edits_nil_left []
  | cons u s ih =>
      have hfront := edits_cons_cons_le u u s s
      rw [ih, if_pos rfl] at hfront
      exact Nat.le_zero.mp hfront

theorem edits_le_length_add (s t : Text) : edits s t ≤ s.length + t.length := by
  induction s with
  | nil => simp [edits]
  | cons u s ih =>
      have hdelete := edits_cons_left_le u s t
      rw [List.length_cons]
      omega

theorem length_le_add_edits (s t : Text) : t.length ≤ s.length + edits s t := by
  fun_induction edits s t with
  | case1 t => simp
  | case2 u s => simp
  | case3 u s v t ih₁ ih₂ ih₃ =>
      simp only [List.length_cons] at ih₁ ih₂ ih₃ ⊢
      omega

theorem edits_triangle (a b c : Text) : edits a c ≤ edits a b + edits b c := by
  match a, b, c with
  | a, [], c =>
      rw [edits_nil_right, edits_nil_left]
      exact edits_le_length_add a c
  | [], b, c =>
      rw [edits_nil_left, edits_nil_left]
      exact length_le_add_edits b c
  | a, b, [] =>
      rw [edits_nil_right, edits_nil_right, edits_comm, Nat.add_comm]
      exact length_le_add_edits b a
  | u :: a, v :: b, w :: c =>
      have hdelete := edits_cons_left_le u a (w :: c)
      have hinsert := edits_cons_right_le (u :: a) w c
      have hfront := edits_cons_cons_le u w a c
      have hunits : (if u = w then 0 else 1) ≤
          (if u = v then 0 else 1) + if v = w then 0 else 1 := by
        grind
      -- the last edits of both ways say which shorter texts to compare
      rcases edits_cons_cons_cases u v a b with hab | hab | hab
      · have ih := edits_triangle a (v :: b) (w :: c)
        omega
      · rcases edits_cons_cons_cases v w b c with hbc | hbc | hbc
        · have ih := edits_triangle (u :: a) b (w :: c)
          omega
        · have ih := edits_triangle (u :: a) (v :: b) c
          omega
        · have ih := edits_triangle (u :: a) b c
          omega
      · rcases edits_cons_cons_cases v w b c with hbc | hbc | hbc
        · have ih := edits_triangle a b (w :: c)
          omega
        · have ih := edits_triangle (u :: a) (v :: b) c
          omega
        · have ih := edits_triangle a b c
          omega
termination_by a.length + b.length + c.length

/-! ## Runs of edits -/

/-- One unit is inserted, deleted or replaced, anywhere in the text. -/
inductive Edit : Text → Text → Prop
  | insert (s t : Text) (v : UInt16) : Edit (s ++ t) (s ++ v :: t)
  | delete (s t : Text) (u : UInt16) : Edit (s ++ u :: t) (s ++ t)
  | replace (s t : Text) (u v : UInt16) : Edit (s ++ u :: t) (s ++ v :: t)

/-- A number of edits, one after the other. -/
inductive EditsIn : Nat → Text → Text → Prop
  | done (a : Text) : EditsIn 0 a a
  | step {n : Nat} {a b c : Text} : Edit a b → EditsIn n b c → EditsIn (n + 1) a c

theorem edits_append_le (s t t' : Text) : edits (s ++ t) (s ++ t') ≤ edits t t' := by
  induction s with
  | nil => exact le_rfl
  | cons u s ih =>
      have hfront := edits_cons_cons_le u u (s ++ t) (s ++ t')
      rw [if_pos rfl] at hfront
      exact hfront.trans ih

theorem Edit.edits_le_one {a b : Text} (h : Edit a b) : edits a b ≤ 1 := by
  cases h with
  | insert s t v =>
      have hinsert := edits_cons_right_le t v t
      rw [edits_self] at hinsert
      exact (edits_append_le s t (v :: t)).trans hinsert
  | delete s t u =>
      have hdelete := edits_cons_left_le u t t
      rw [edits_self] at hdelete
      exact (edits_append_le s (u :: t) t).trans hdelete
  | replace s t u v =>
      have hfront := edits_cons_cons_le u v t t
      rw [edits_self] at hfront
      refine (edits_append_le s (u :: t) (v :: t)).trans (hfront.trans ?_)
      split <;> omega

theorem EditsIn.edits_le {n : Nat} {a b : Text} (h : EditsIn n a b) : edits a b ≤ n := by
  induction h with
  | done a => exact (edits_self a).le
  | @step n a b c hedit hrest ih =>
      have htriangle := edits_triangle a b c
      have hone := hedit.edits_le_one
      omega

theorem Edit.cons {a b : Text} (h : Edit a b) (u : UInt16) : Edit (u :: a) (u :: b) := by
  cases h with
  | insert s t v => exact .insert (u :: s) t v
  | delete s t v => exact .delete (u :: s) t v
  | replace s t v w => exact .replace (u :: s) t v w

theorem EditsIn.cons {n : Nat} {a b : Text} (h : EditsIn n a b) (u : UInt16) :
    EditsIn n (u :: a) (u :: b) := by
  induction h with
  | done a => exact .done (u :: a)
  | step hedit _ ih => exact .step (hedit.cons u) ih

/-- The distance is reached: the edits are made from the front to the back. -/
theorem editsIn_edits (a b : Text) : EditsIn (edits a b) a b := by
  match a, b with
  | [], [] =>
      rw [edits_nil_left]
      exact .done []
  | [], v :: b =>
      have hrest := (editsIn_edits [] b).cons v
      rw [edits_nil_left] at hrest ⊢
      exact .step (.insert [] [] v) hrest
  | u :: a, [] =>
      have hrest := editsIn_edits a []
      rw [edits_nil_right] at hrest ⊢
      exact .step (.delete [] a u) hrest
  | u :: a, v :: b =>
      rcases edits_cons_cons_cases u v a b with hlast | hlast | hlast
      · rw [hlast]
        exact .step (.delete [] a u) (editsIn_edits a (v :: b))
      · rw [hlast]
        exact .step (.insert [] (u :: a) v) ((editsIn_edits (u :: a) b).cons v)
      · have hrest := (editsIn_edits a b).cons v
        rw [hlast]
        by_cases huv : u = v
        · rw [if_pos huv, huv]
          exact hrest
        · rw [if_neg huv]
          exact .step (.replace [] a u v) hrest
termination_by a.length + b.length

theorem Edit.reverse {a b : Text} (h : Edit a b) : Edit a.reverse b.reverse := by
  cases h with
  | insert s t v => simpa using Edit.insert t.reverse s.reverse v
  | delete s t u => simpa using Edit.delete t.reverse s.reverse u
  | replace s t u v => simpa using Edit.replace t.reverse s.reverse u v

theorem EditsIn.reverse {n : Nat} {a b : Text} (h : EditsIn n a b) :
    EditsIn n a.reverse b.reverse := by
  induction h with
  | done a => exact .done a.reverse
  | step hedit _ ih => exact .step hedit.reverse ih

theorem isLeast_editDistance (a b : Text) : IsLeast {n | EditsIn n a b} (editDistance a b) := by
  rw [editDistance_eq]
  constructor
  · have hreached := (editsIn_edits a.reverse b.reverse).reverse
    rwa [List.reverse_reverse, List.reverse_reverse] at hreached
  · intro n hn
    exact hn.reverse.edits_le

theorem editDistance_eq_zero_iff (a b : Text) : editDistance a b = 0 ↔ a = b := by
  constructor
  · intro hzero
    have hreached := (isLeast_editDistance a b).1
    rw [hzero] at hreached
    cases hreached
    rfl
  · rintro rfl
    rw [editDistance_eq, edits_self]

theorem editDistance_triangle (a b c : Text) :
    editDistance a c ≤ editDistance a b + editDistance b c := by
  rw [editDistance_eq, editDistance_eq, editDistance_eq]
  exact edits_triangle _ _ _

/-- The edit distance is the least number of single edits, and with it a metric. -/
theorem editDistance_least_metric (a b c : Text) :
    IsLeast {n | EditsIn n a b} (editDistance a b) ∧
      editDistance a b = editDistance b a ∧
      (editDistance a b = 0 ↔ a = b) ∧
      editDistance a c ≤ editDistance a b + editDistance b c :=
  ⟨isLeast_editDistance a b, editDistance_comm a b, editDistance_eq_zero_iff a b,
    editDistance_triangle a b c⟩

end CloneScan.Constant
