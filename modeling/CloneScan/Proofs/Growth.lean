import CloneScan.Proofs.WindowClass

/-!
# Growing a class

The members of a class are extended to both sides as long as all of them agree.  What is counted on
each side is the longest common extension: every key on the way agrees, and the next one does not.
Thinning then keeps members that stand one behind the other, and each member that it leaves out
starts inside a kept one.
-/

namespace CloneScan

/-- A member lies in an earlier file, or in the same file and ends before the other one starts. -/
def Member.Before (a b : Member) : Prop :=
  a.file < b.file ∨ a.file = b.file ∧ a.stop < b.start

namespace Clone

/-! ## Counting -/

theorem countWhile_le (holds : Nat → Bool) (fuel i : Nat) : countWhile holds fuel i ≤ fuel := by
  induction fuel generalizing i with
  | zero => simp [countWhile]
  | succ fuel ih =>
      have hnext := ih (i + 1)
      simp only [countWhile]
      split <;> omega

theorem holds_of_lt_countWhile (holds : Nat → Bool) {fuel i k : Nat}
    (hk : k < countWhile holds fuel i) : holds (i + k) = true := by
  induction fuel generalizing i k with
  | zero => simp [countWhile] at hk
  | succ fuel ih =>
      simp only [countWhile] at hk
      split at hk
      · rename_i hi
        cases k with
        | zero => exact hi
        | succ k =>
            have hnext := ih (by omega : k < countWhile holds fuel (i + 1))
            simpa only [Nat.add_assoc, Nat.add_comm 1 k] using hnext
      · omega

theorem not_holds_countWhile (holds : Nat → Bool) {fuel i : Nat}
    (h : countWhile holds fuel i < fuel) : holds (i + countWhile holds fuel i) = false := by
  induction fuel generalizing i with
  | zero => omega
  | succ fuel ih =>
      simp only [countWhile] at h ⊢
      split at h
      · rename_i hi
        have hnext := ih (by omega : countWhile holds fuel (i + 1) < fuel)
        rw [if_pos hi]
        simpa only [Nat.add_assoc, Nat.add_comm 1] using hnext
      · rename_i hi
        simp [hi]

/-- The count is the only number of places in a row that hold and are followed by one that does
not. -/
theorem countWhile_eq {holds : Nat → Bool} {fuel i n : Nat} (hn : n ≤ fuel)
    (hall : ∀ k < n, holds (i + k) = true) (hstop : n < fuel → holds (i + n) = false) :
    countWhile holds fuel i = n := by
  rcases Nat.lt_trichotomy (countWhile holds fuel i) n with hlt | heq | hgt
  · have hfalse := not_holds_countWhile holds (by omega : countWhile holds fuel i < fuel)
    simp [hall _ hlt] at hfalse
  · exact heq
  · have htrue := holds_of_lt_countWhile holds hgt
    have hfuel := countWhile_le holds fuel i
    simp [hstop (by omega)] at htrue

/-! ## Agreement on both sides -/

variable {files : Array KeyedFile} {length : Nat} {first : Window} {members : List Window}

theorem agreeBefore_iff {back : Nat} :
    agreeBefore files first members back = true ↔
      ∀ m ∈ members, back ≤ m.start ∧ back ≤ first.start ∧
        keyAt files m.file (m.start - back) = keyAt files first.file (first.start - back) := by
  simp [agreeBefore, List.all_eq_true, and_assoc]

theorem agreeAfter_iff {ahead : Nat} :
    agreeAfter files first members ahead = true ↔
      ∀ m ∈ members, m.start + ahead < keyCount files m.file ∧
        keyAt files m.file (m.start + ahead) = keyAt files first.file (first.start + ahead) := by
  simp [agreeAfter, List.all_eq_true]

theorem agreeBefore_of_le_leftGrowth {back : Nat} (hpos : 0 < back)
    (hback : back ≤ leftGrowth files first members) :
    agreeBefore files first members back = true := by
  have h := holds_of_lt_countWhile (agreeBefore files first members)
    (by simp only [leftGrowth] at hback; omega :
      back - 1 < countWhile (agreeBefore files first members) first.start 1)
  rwa [Nat.add_sub_cancel' hpos] at h

theorem not_agreeBefore_leftGrowth (hfirst : first ∈ members) :
    agreeBefore files first members (leftGrowth files first members + 1) = false := by
  rw [Nat.add_comm]
  by_cases hfuel : leftGrowth files first members < first.start
  · exact not_holds_countWhile _ hfuel
  · by_contra hne
    have hagree := agreeBefore_iff.mp (Bool.of_not_eq_false hne) first hfirst
    omega

/-- The left growth is the only count of agreeing keys that the next key does not continue. -/
theorem leftGrowth_eq (hfirst : first ∈ members) {n : Nat}
    (hall : ∀ back, 0 < back → back ≤ n → agreeBefore files first members back = true)
    (hstop : agreeBefore files first members (n + 1) = false) :
    leftGrowth files first members = n := by
  have hn : n ≤ first.start := by
    rcases Nat.eq_zero_or_pos n with rfl | hpos
    · omega
    · exact (agreeBefore_iff.mp (hall n hpos (Nat.le_refl n)) first hfirst).1
  refine countWhile_eq hn (fun k hk => hall _ (by omega) (by omega)) fun _ => ?_
  rw [Nat.add_comm]
  exact hstop

theorem agreeAfter_of_lt_rightGrowth (length : Nat) {ahead : Nat} (hahead : length ≤ ahead)
    (h : ahead < length + rightGrowth files length first members) :
    agreeAfter files first members ahead = true := by
  have hk := holds_of_lt_countWhile (agreeAfter files first members)
    (by simp only [rightGrowth] at h; omega : ahead - length <
      countWhile (agreeAfter files first members) (keyCount files first.file) length)
  rwa [Nat.add_sub_cancel' hahead] at hk

theorem not_agreeAfter_rightGrowth (hfirst : first ∈ members) :
    agreeAfter files first members (length + rightGrowth files length first members) = false := by
  by_cases hfuel : rightGrowth files length first members < keyCount files first.file
  · exact not_holds_countWhile _ hfuel
  · by_contra hne
    have hagree := agreeAfter_iff.mp (Bool.of_not_eq_false hne) first hfirst
    omega

/-- The right growth is the only count of agreeing keys that the next key does not continue. -/
theorem rightGrowth_eq (hfirst : first ∈ members) {n : Nat}
    (hall : ∀ k < n, agreeAfter files first members (length + k) = true)
    (hstop : agreeAfter files first members (length + n) = false) :
    rightGrowth files length first members = n := by
  have hn : n ≤ keyCount files first.file := by
    rcases Nat.eq_zero_or_pos n with rfl | hpos
    · omega
    · have h := (agreeAfter_iff.mp (hall (n - 1) (by omega)) first hfirst).1
      omega
  exact countWhile_eq hn hall fun _ => hstop

/-! ## Thinning -/

theorem Member.le_iff {a b : Member} :
    Member.le a b = true ↔ a.file < b.file ∨ a.file = b.file ∧ a.start ≤ b.start := by
  simp [Member.le]

theorem Member.le_trans (a b c : Member) (hab : Member.le a b = true)
    (hbc : Member.le b c = true) : Member.le a c = true := by
  rw [Member.le_iff] at *
  omega

theorem Member.le_total (a b : Member) : (Member.le a b || Member.le b a) = true := by
  rw [Bool.or_eq_true, Member.le_iff, Member.le_iff]
  omega

theorem thin_sublist (last : Option Member) (l : List Member) : (thin last l).Sublist l := by
  fun_induction thin last l with
  | case1 => exact List.Sublist.refl _
  | case2 m rest ih => exact ih.cons_cons m
  | case3 last m rest h ih => exact ih.cons m
  | case4 last m rest h ih => exact ih.cons_cons m

/-- The kept members stand one behind the other, all of them behind the last one kept before. -/
theorem thin_before {last : Option Member} {l : List Member}
    (hspan : ∀ m ∈ l, m.start ≤ m.stop)
    (hsorted : l.Pairwise fun a b => Member.le a b = true)
    (hlast : ∀ k ∈ last, ∀ m ∈ l, Member.le k m = true) :
    (∀ k ∈ last, ∀ m ∈ thin last l, k.Before m) ∧ (thin last l).Pairwise Member.Before := by
  fun_induction thin last l with
  | case1 => simp
  | case2 m rest ih =>
      obtain ⟨hle, hrest⟩ := List.pairwise_cons.mp hsorted
      obtain ⟨hm, hpair⟩ := ih (fun a ha => hspan a (by simp [ha])) hrest (by simpa using hle)
      exact ⟨by simp, List.pairwise_cons.mpr ⟨hm m rfl, hpair⟩⟩
  | case3 last m rest h ih =>
      obtain ⟨-, hrest⟩ := List.pairwise_cons.mp hsorted
      exact ih (fun a ha => hspan a (by simp [ha])) hrest
        fun k hk a ha => hlast k hk a (by simp [ha])
  | case4 last m rest h ih =>
      obtain ⟨hle, hrest⟩ := List.pairwise_cons.mp hsorted
      obtain ⟨hm, hpair⟩ := ih (fun a ha => hspan a (by simp [ha])) hrest (by simpa using hle)
      have hmBefore : ∀ a ∈ thin (some m) rest, m.Before a := hm m rfl
      have hlastm : last.Before m := by
        have hle' := Member.le_iff.mp (hlast last rfl m (by simp))
        simp only [Bool.and_eq_true, beq_iff_eq, decide_eq_true_eq, not_and, Nat.not_le] at h
        rcases hle' with hlt | ⟨heq, -⟩
        · exact Or.inl hlt
        · exact Or.inr ⟨heq, h heq⟩
      refine ⟨?_, List.pairwise_cons.mpr ⟨hmBefore, hpair⟩⟩
      intro k hk a ha
      obtain rfl : last = k := by simpa using hk
      have hmspan := hspan m (by simp)
      rcases List.mem_cons.mp ha with rfl | ha
      · exact hlastm
      · have hma := hmBefore a ha
        simp only [Member.Before] at hlastm hma ⊢
        omega

/-- A member that is left out starts inside a kept one that starts no later. -/
theorem thin_covers {last : Option Member} {l : List Member}
    (hsorted : l.Pairwise fun a b => Member.le a b = true)
    (hlast : ∀ k ∈ last, ∀ m ∈ l, Member.le k m = true) :
    ∀ m ∈ l, m ∈ thin last l ∨ ∃ k, (k ∈ last ∨ k ∈ thin last l) ∧
      k.file = m.file ∧ k.start ≤ m.start ∧ m.start ≤ k.stop := by
  fun_induction thin last l with
  | case1 => simp
  | case2 m rest ih =>
      obtain ⟨hle, hrest⟩ := List.pairwise_cons.mp hsorted
      intro a ha
      rcases List.mem_cons.mp ha with rfl | ha
      · exact Or.inl (by simp)
      · rcases ih hrest (by simpa using hle) a ha with h | ⟨k, hk, hover⟩
        · exact Or.inl (by simp [h])
        · refine Or.inr ⟨k, Or.inr ?_, hover⟩
          rcases hk with hk | hk
          · obtain rfl : m = k := by simpa using hk
            simp
          · simp [hk]
  | case3 last m rest h ih =>
      obtain ⟨-, hrest⟩ := List.pairwise_cons.mp hsorted
      intro a ha
      rcases List.mem_cons.mp ha with rfl | ha
      · have hle := Member.le_iff.mp (hlast last rfl a (by simp))
        simp only [Bool.and_eq_true, beq_iff_eq, decide_eq_true_eq] at h
        exact Or.inr ⟨last, Or.inl rfl, h.1, by omega, h.2⟩
      · exact ih hrest (fun k hk b hb => hlast k hk b (by simp [hb])) a ha
  | case4 last m rest h ih =>
      obtain ⟨hle, hrest⟩ := List.pairwise_cons.mp hsorted
      intro a ha
      rcases List.mem_cons.mp ha with rfl | ha
      · exact Or.inl (by simp)
      · rcases ih hrest (by simpa using hle) a ha with h' | ⟨k, hk, hover⟩
        · exact Or.inl (by simp [h'])
        · refine Or.inr ⟨k, Or.inr ?_, hover⟩
          rcases hk with hk | hk
          · obtain rfl : m = k := by simpa using hk
            simp
          · simp [hk]

end Clone

end CloneScan
