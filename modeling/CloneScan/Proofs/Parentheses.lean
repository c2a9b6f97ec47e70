import Mathlib.Data.List.Infix
import CloneScan.Token

/-!
# Parentheses that belong together

Two parentheses belong together when those between them are balanced.  The open parentheses of a
stream form a stack: behind the innermost one everything is balanced, and behind every further one
there is one more that is open.  So a closing parenthesis belongs to the innermost open one, and to
none when none is open.  A parenthesis that belongs to no other one has nothing around it that
belongs together, and another token in its place leaves all pairs as they are.
-/

namespace CloneScan

namespace Token

/-- The token is the symbol that opens a parenthesis. -/
def opens (t : Token) : Bool :=
  t.kind == .symbol && t.text == [0x28]

/-- The token is the symbol that closes a parenthesis. -/
def closes (t : Token) : Bool :=
  t.kind == .symbol && t.text == [0x29]

theorem closes_eq_false_of_opens {t : Token} (h : t.opens = true) : t.closes = false := by
  simp only [opens, closes, Bool.and_eq_true, beq_iff_eq] at h ⊢
  simp [h.2]

theorem opens_eq_false_of_closes {t : Token} (h : t.closes = true) : t.opens = false := by
  simp only [opens, closes, Bool.and_eq_true, beq_iff_eq] at h ⊢
  simp [h.2]

end Token

/-! ## Balanced parentheses -/

/-- No part from the start on closes more parentheses than it opens. -/
def NoDeficit (tokens : List Token) : Prop :=
  ∀ front, front <+: tokens → front.countP Token.closes ≤ front.countP Token.opens

structure IsBalanced (tokens : List Token) : Prop where
  noDeficit : NoDeficit tokens
  total : tokens.countP Token.closes = tokens.countP Token.opens

/-- The tokens strictly between two indices. -/
def between (tokens : List Token) (i j : Nat) : List Token :=
  (tokens.take j).drop (i + 1)

/-- The parentheses at two indices belong together. -/
structure Matches (tokens : List Token) (i j : Nat) : Prop where
  lt : i < j
  opens : tokens[i]?.any Token.opens = true
  closes : tokens[j]?.any Token.closes = true
  balanced : IsBalanced (between tokens i j)

instance (tokens : List Token) : Decidable (NoDeficit tokens) :=
  decidable_of_iff (∀ front ∈ tokens.inits, front.countP Token.closes ≤ front.countP Token.opens)
    (by simp only [List.mem_inits, NoDeficit])

instance (tokens : List Token) : Decidable (IsBalanced tokens) :=
  decidable_of_iff (NoDeficit tokens ∧ tokens.countP Token.closes = tokens.countP Token.opens)
    ⟨fun h => ⟨h.1, h.2⟩, fun h => ⟨h.noDeficit, h.total⟩⟩

instance (tokens : List Token) (i j : Nat) : Decidable (Matches tokens i j) :=
  decidable_of_iff (i < j ∧ tokens[i]?.any Token.opens = true ∧
      tokens[j]?.any Token.closes = true ∧ IsBalanced (between tokens i j))
    ⟨fun h => ⟨h.1, h.2.1, h.2.2.1, h.2.2.2⟩, fun h => ⟨h.lt, h.opens, h.closes, h.balanced⟩⟩

variable {tokens tokens' front back : List Token} {t u v : Token} {i j k : Nat}

theorem countP_snoc (p : Token → Bool) (tokens : List Token) (t : Token) :
    (tokens ++ [t]).countP p = tokens.countP p + (p t).toNat := by
  cases hp : p t <;> simp [hp]

theorem noDeficit_nil : NoDeficit [] := by
  intro p hp
  rw [List.prefix_nil.mp hp]
  exact Nat.le_refl _

theorem NoDeficit.total_le (h : NoDeficit tokens) :
    tokens.countP Token.closes ≤ tokens.countP Token.opens :=
  h tokens List.prefix_rfl

theorem NoDeficit.of_append (h : NoDeficit (front ++ back)) : NoDeficit front :=
  fun p hp => h p (hp.trans (List.prefix_append front back))

theorem noDeficit_snoc_iff :
    NoDeficit (tokens ++ [t]) ↔ NoDeficit tokens ∧
      (tokens ++ [t]).countP Token.closes ≤ (tokens ++ [t]).countP Token.opens := by
  constructor
  · intro h
    exact ⟨h.of_append, h.total_le⟩
  · rintro ⟨h, htotal⟩ p hp
    rcases List.prefix_concat_iff.mp hp with rfl | hp
    · exact htotal
    · exact h p hp

theorem lt_length_of_any {p : Token → Bool} (h : tokens[i]?.any p = true) : i < tokens.length := by
  by_contra hle
  rw [List.getElem?_eq_none (by omega)] at h
  cases h

theorem Matches.lt_length (h : Matches tokens i j) : j < tokens.length :=
  lt_length_of_any h.closes

theorem matches_congr (hi : i < j → tokens'[i]? = tokens[i]?) (hj : tokens'[j]? = tokens[j]?)
    (hbetween : i < j → between tokens' i j = between tokens i j) :
    Matches tokens' i j ↔ Matches tokens i j := by
  constructor
  · rintro ⟨hij, hopens, hcloses, hbalanced⟩
    exact ⟨hij, hi hij ▸ hopens, hj ▸ hcloses, hbetween hij ▸ hbalanced⟩
  · rintro ⟨hij, hopens, hcloses, hbalanced⟩
    exact ⟨hij, (hi hij).symm ▸ hopens, hj.symm ▸ hcloses, (hbetween hij).symm ▸ hbalanced⟩

/-- Whether parentheses belong together does not depend on what comes behind them. -/
theorem matches_append_iff (hj : j < front.length) :
    Matches (front ++ back) i j ↔ Matches front i j := by
  apply matches_congr
  · exact fun hij => List.getElem?_append_left (hij.trans hj)
  · exact List.getElem?_append_left hj
  · intro
    rw [between, between, List.take_append_of_le_length hj.le]

/-! ## The open parentheses -/

/-- The parenthesis at an index is not closed up to the end. -/
structure IsOpen (tokens : List Token) (i : Nat) : Prop where
  opens : tokens[i]?.any Token.opens = true
  noDeficit : NoDeficit (tokens.drop (i + 1))

theorem IsOpen.lt_length (h : IsOpen tokens i) : i < tokens.length :=
  lt_length_of_any h.opens

theorem isOpen_take (hij : i < j) (hi : tokens[i]?.any Token.opens = true)
    (hdeficit : NoDeficit (between tokens i j)) : IsOpen (tokens.take j) i := by
  refine ⟨?_, hdeficit⟩
  rw [List.getElem?_take_of_lt hij]
  exact hi

theorem drop_snoc (hi : i < tokens.length) (t : Token) :
    (tokens ++ [t]).drop (i + 1) = tokens.drop (i + 1) ++ [t] :=
  List.drop_append_of_le_length hi

/-- What one more token leaves open. -/
theorem isOpen_snoc_iff :
    IsOpen (tokens ++ [t]) i ↔ i = tokens.length ∧ t.opens = true ∨
      IsOpen tokens i ∧ (tokens.drop (i + 1) ++ [t]).countP Token.closes ≤
        (tokens.drop (i + 1) ++ [t]).countP Token.opens := by
  constructor
  · intro h
    have hi := h.lt_length
    rw [List.length_append, List.length_singleton, Nat.lt_succ_iff_lt_or_eq] at hi
    obtain ⟨hopens, hdeficit⟩ := h
    rcases hi with hi | rfl
    · rw [List.getElem?_append_left hi] at hopens
      rw [drop_snoc hi, noDeficit_snoc_iff] at hdeficit
      exact .inr ⟨⟨hopens, hdeficit.1⟩, hdeficit.2⟩
    · rw [List.getElem?_concat_length] at hopens
      exact .inl ⟨rfl, hopens⟩
  · rintro (⟨rfl, ht⟩ | ⟨h, htotal⟩)
    · refine ⟨by rw [List.getElem?_concat_length]; exact ht, ?_⟩
      rw [List.drop_eq_nil_of_le (by simp)]
      exact noDeficit_nil
    · refine ⟨by rw [List.getElem?_append_left h.lt_length]; exact h.opens, ?_⟩
      rw [drop_snoc h.lt_length, noDeficit_snoc_iff]
      exact ⟨h.noDeficit, htotal⟩

/-- The open parentheses, innermost first.  Behind the one at a depth, so many more parentheses are
opened than closed. -/
structure IsStack (tokens : List Token) (opened : List Nat) : Prop where
  mem_iff : ∀ i, i ∈ opened ↔ IsOpen tokens i
  level : ∀ d i, opened[d]? = some i →
    (tokens.drop (i + 1)).countP Token.opens = (tokens.drop (i + 1)).countP Token.closes + d

theorem isStack_nil : IsStack [] [] := by
  refine ⟨fun i => ⟨fun h => absurd h List.not_mem_nil, fun h => ?_⟩, fun d i h => by cases h⟩
  exact absurd h.lt_length (by simp)

namespace IsStack

variable {opened : List Nat}

theorem lt_length (h : IsStack tokens opened) (hi : i ∈ opened) : i < tokens.length :=
  ((h.mem_iff i).mp hi).lt_length

theorem total_le (h : IsStack tokens opened) (hi : i ∈ opened) :
    (tokens.drop (i + 1)).countP Token.closes ≤ (tokens.drop (i + 1)).countP Token.opens :=
  ((h.mem_iff i).mp hi).noDeficit.total_le

theorem push (h : IsStack tokens opened) (ht : t.opens = true) :
    IsStack (tokens ++ [t]) (tokens.length :: opened) := by
  have hcloses := Token.closes_eq_false_of_opens ht
  constructor
  · intro i
    rw [isOpen_snoc_iff, List.mem_cons]
    refine or_congr ⟨fun hi => ⟨hi, ht⟩, And.left⟩ ?_
    rw [← h.mem_iff]
    refine ⟨fun hi => ⟨hi, ?_⟩, And.left⟩
    have hle := h.total_le hi
    simp only [countP_snoc, ht, hcloses, Bool.toNat_true, Bool.toNat_false]
    omega
  · intro d i hd
    cases d with
    | zero =>
        obtain rfl : tokens.length = i := by simpa using hd
        simp
    | succ d =>
        have hd : opened[d]? = some i := by simpa using hd
        have hlevel := h.level d i hd
        rw [drop_snoc (h.lt_length (List.mem_of_getElem? hd))]
        simp only [countP_snoc, ht, hcloses, Bool.toNat_true, Bool.toNat_false]
        omega

theorem skip (h : IsStack tokens opened) (hopens : t.opens = false) (hcloses : t.closes = false) :
    IsStack (tokens ++ [t]) opened := by
  constructor
  · intro i
    rw [isOpen_snoc_iff, hopens, ← h.mem_iff]
    simp only [Bool.false_eq_true, and_false, false_or]
    refine ⟨fun hi => ⟨hi, ?_⟩, And.left⟩
    have hle := h.total_le hi
    simpa only [countP_snoc, hopens, hcloses, Bool.toNat_false, Nat.add_zero] using hle
  · intro d i hd
    have hlevel := h.level d i hd
    rw [drop_snoc (h.lt_length (List.mem_of_getElem? hd))]
    simpa only [countP_snoc, hopens, hcloses, Bool.toNat_false, Nat.add_zero] using hlevel

theorem pop (h : IsStack tokens opened) (ht : t.closes = true) :
    IsStack (tokens ++ [t]) opened.tail := by
  have hopens := Token.opens_eq_false_of_closes ht
  constructor
  · intro i
    rw [isOpen_snoc_iff, hopens, ← h.mem_iff]
    simp only [Bool.false_eq_true, and_false, false_or, countP_snoc, ht, hopens, Bool.toNat_true,
      Bool.toNat_false, Nat.add_zero]
    cases opened with
    | nil => simp
    | cons top rest =>
        -- only behind the innermost one there is no other open one to make up for the new token
        have htop := h.level 0 top rfl
        constructor
        · intro hi
          obtain ⟨d, hd⟩ := List.mem_iff_getElem?.mp hi
          have hlevel := h.level (d + 1) i (by simpa using hd)
          exact ⟨List.mem_cons_of_mem top hi, by omega⟩
        · rintro ⟨hi, hle⟩
          rcases List.mem_cons.mp hi with rfl | hi
          · omega
          · exact hi
  · intro d i hd
    rw [List.getElem?_tail] at hd
    have hlevel := h.level (d + 1) i hd
    rw [drop_snoc (h.lt_length (List.mem_of_getElem? hd))]
    simp only [countP_snoc, ht, hopens, Bool.toNat_true, Bool.toNat_false]
    omega

/-- A closing parenthesis belongs to the innermost open one. -/
theorem matches_iff (h : IsStack tokens opened) (ht : t.closes = true) :
    Matches (tokens ++ [t]) i tokens.length ↔ opened.head? = some i := by
  have hbetween : between (tokens ++ [t]) i tokens.length = tokens.drop (i + 1) := by
    rw [between, List.take_left]
  rw [List.head?_eq_getElem?]
  constructor
  · intro hpair
    have hbalanced := hpair.balanced
    have hopens := hpair.opens
    rw [hbetween] at hbalanced
    rw [List.getElem?_append_left hpair.lt] at hopens
    obtain ⟨d, hd⟩ := List.mem_iff_getElem?.mp ((h.mem_iff i).mpr ⟨hopens, hbalanced.noDeficit⟩)
    have hlevel := h.level d i hd
    have htotal := hbalanced.total
    obtain rfl : d = 0 := by omega
    exact hd
  · intro hd
    have hopen := (h.mem_iff i).mp (List.mem_of_getElem? hd)
    refine ⟨hopen.lt_length, ?_, ?_, ?_⟩
    · rw [List.getElem?_append_left hopen.lt_length]
      exact hopen.opens
    · rw [List.getElem?_concat_length]
      exact ht
    · rw [hbetween]
      exact ⟨hopen.noDeficit, (h.level 0 i hd).symm⟩

end IsStack

theorem exists_isStack (tokens : List Token) : ∃ opened, IsStack tokens opened := by
  induction tokens using List.reverseRecOn with
  | nil => exact ⟨[], isStack_nil⟩
  | append_singleton tokens t ih =>
      obtain ⟨opened, h⟩ := ih
      by_cases hopens : t.opens = true
      · exact ⟨_, h.push hopens⟩
      by_cases hcloses : t.closes = true
      · exact ⟨_, h.pop hcloses⟩
      · exact ⟨_, h.skip (by simpa using hopens) (by simpa using hcloses)⟩

/-! ## Parentheses without a partner -/

/-- A parenthesis belongs to no other one. -/
structure IsUnmatched (tokens : List Token) (k : Nat) : Prop where
  parenthesis : tokens[k]?.any (fun t => t.opens || t.closes) = true
  not_opens : ∀ j, ¬ Matches tokens k j
  not_closes : ∀ i, ¬ Matches tokens i k

theorem between_split (hik : i < k) (hkj : k < j) (hu : tokens[k]? = some u) :
    between tokens i j = between tokens i k ++ u :: between tokens k j := by
  obtain ⟨hlength, hget⟩ := List.getElem?_eq_some_iff.mp hu
  have hk : k < (tokens.take j).length := by
    rw [List.length_take]
    omega
  have hfront : i + 1 ≤ (tokens.take k).length := by
    rw [List.length_take]
    omega
  have hsplit : tokens.take j = tokens.take k ++ u :: (tokens.take j).drop (k + 1) := by
    calc tokens.take j = (tokens.take j).take k ++ (tokens.take j).drop k :=
          (List.take_append_drop k _).symm
      _ = tokens.take k ++ u :: (tokens.take j).drop (k + 1) := by
          rw [List.take_take, Nat.min_eq_left hkj.le, List.drop_eq_getElem_cons hk,
            List.getElem_take, hget]
  rw [between, hsplit, List.drop_append_of_le_length hfront]
  rfl

theorem between_succ (hkj : k < j) (hu : tokens[j]? = some u) :
    between tokens k (j + 1) = between tokens k j ++ [u] := by
  rw [between_split hkj (Nat.lt_succ_self j) hu]
  simp [between]

/-- Behind a parenthesis that none closes there is no deficit: the first closing one that is too
many would belong to it. -/
theorem noDeficit_between (hk : tokens[k]?.any Token.opens = true)
    (hpairs : ∀ j, ¬ Matches tokens k j) (j : Nat) : NoDeficit (between tokens k j) := by
  induction j with
  | zero =>
      rw [between, List.take_zero, List.drop_nil]
      exact noDeficit_nil
  | succ j ih =>
      by_cases hkj : k < j
      · cases hu : tokens[j]? with
        | none =>
            have hlength := List.getElem?_eq_none_iff.mp hu
            rw [between, List.take_of_length_le hlength] at ih
            rwa [between, List.take_of_length_le (by omega)]
        | some u =>
            rw [between_succ hkj hu, noDeficit_snoc_iff]
            refine ⟨ih, ?_⟩
            by_contra hdeficit
            have hle := ih.total_le
            have hone := Bool.toNat_le u.closes
            rw [countP_snoc, countP_snoc] at hdeficit
            have hcloses : u.closes = true := by
              rw [← Bool.toNat_eq_one]
              omega
            have htotal : (between tokens k j).countP Token.closes =
                (between tokens k j).countP Token.opens := by omega
            exact hpairs j ⟨hkj, hk, by rw [hu]; exact hcloses, ih, htotal⟩
      · rw [between, List.drop_eq_nil_of_le (by rw [List.length_take]; omega)]
        exact noDeficit_nil

/-- Before a parenthesis that closes none, no other one is open. -/
theorem not_noDeficit_between (hk : tokens[k]?.any Token.closes = true)
    (hpairs : ∀ i, ¬ Matches tokens i k) (hik : i < k) (hi : tokens[i]?.any Token.opens = true) :
    ¬ NoDeficit (between tokens i k) := by
  intro hdeficit
  obtain ⟨u, hu, hcloses⟩ := (Option.any_eq_true _ _).mp hk
  have hlength : (tokens.take k).length = k := by
    rw [List.length_take, Nat.min_eq_left (lt_length_of_any hk).le]
  have hsplit : tokens.take k ++ [u] ++ tokens.drop (k + 1) = tokens := by
    calc tokens.take k ++ [u] ++ tokens.drop (k + 1)
        = tokens.take (k + 1) ++ tokens.drop (k + 1) := by
          rw [List.take_add_one, hu, Option.toList_some]
      _ = tokens := List.take_append_drop (k + 1) tokens
  obtain ⟨opened, hstack⟩ := exists_isStack (tokens.take k)
  have hmem := (hstack.mem_iff i).mpr (isOpen_take hik hi hdeficit)
  obtain ⟨top, rest, rfl⟩ := List.exists_cons_of_ne_nil (List.ne_nil_of_mem hmem)
  have hpair := (hstack.matches_iff (i := top) hcloses).mpr rfl
  rw [hlength, ← matches_append_iff (by simp [hlength]), hsplit] at hpair
  exact hpairs top hpair

/-! ### Another token in the place -/

theorem between_set_of_le (hjk : j ≤ k) (i : Nat) (v : Token) :
    between (tokens.set k v) i j = between tokens i j := by
  rw [between, between, List.take_set_of_le hjk]

theorem between_set_of_ge (hki : k ≤ i) (j : Nat) (v : Token) :
    between (tokens.set k v) i j = between tokens i j := by
  rw [between, between, List.take_set, List.drop_set_of_lt (by omega)]

namespace IsUnmatched

/-- Nothing belongs together around such a parenthesis, nor around a token in its place that closes
no more than it does. -/
theorem not_matches_set (h : IsUnmatched tokens k) (hu : tokens[k]? = some u)
    (hcloses : v.closes = true → u.closes = true) (hik : i < k) (hkj : k < j) :
    ¬ Matches (tokens.set k v) i j := by
  rintro ⟨-, hi, hj, hbalanced⟩
  have hv : (tokens.set k v)[k]? = some v :=
    List.getElem?_set_self (List.getElem?_eq_some_iff.mp hu).1
  rw [List.getElem?_set_ne hik.ne'] at hi
  rw [List.getElem?_set_ne hkj.ne] at hj
  rw [between_split hik hkj hv, between_set_of_le le_rfl, between_set_of_ge le_rfl] at hbalanced
  have hfront := hbalanced.noDeficit.of_append
  have hkind := h.parenthesis
  rw [hu, Option.any_some, Bool.or_eq_true] at hkind
  by_cases hclosing : u.closes = true
  · exact not_noDeficit_between (by rw [hu]; exact hclosing) h.not_closes hik hi hfront
  · -- both sides are without deficit, so a balance leaves nothing open behind the place
    have hopening : tokens[k]?.any Token.opens = true := by
      rw [hu]
      exact hkind.resolve_right hclosing
    have hvcloses : v.closes = false := by simpa using mt hcloses hclosing
    have hback := noDeficit_between hopening h.not_opens j
    have hle := hfront.total_le
    have hle' := hback.total_le
    have htotal := hbalanced.total
    rw [List.countP_append, List.countP_append, List.countP_cons, List.countP_cons, hvcloses,
      if_neg Bool.false_ne_true] at htotal
    exact h.not_opens j ⟨hkj, hopening, hj, hback, by omega⟩

theorem not_matches (h : IsUnmatched tokens k) (hik : i < k) (hkj : k < j) :
    ¬ Matches tokens i j := by
  obtain ⟨u, hu, -⟩ := (Option.any_eq_true _ _).mp h.parenthesis
  obtain ⟨hlength, hself⟩ := List.getElem?_eq_some_iff.mp hu
  have hset : tokens.set k u = tokens := by rw [← hself, List.set_getElem_self]
  have hnone := h.not_matches_set hu id hik hkj
  rwa [hset] at hnone

theorem matches_set_iff (h : IsUnmatched tokens k) (hopens : v.opens = false)
    (hcloses : v.closes = false) : Matches (tokens.set k v) i j ↔ Matches tokens i j := by
  obtain ⟨u, hu, -⟩ := (Option.any_eq_true _ _).mp h.parenthesis
  have hv : (tokens.set k v)[k]? = some v :=
    List.getElem?_set_self (List.getElem?_eq_some_iff.mp hu).1
  by_cases hik : i = k
  · subst hik
    refine iff_of_false (fun hpair => ?_) (h.not_opens j)
    have hi := hpair.opens
    rw [hv, Option.any_some, hopens] at hi
    cases hi
  by_cases hjk : j = k
  · subst hjk
    refine iff_of_false (fun hpair => ?_) (h.not_closes i)
    have hj := hpair.closes
    rw [hv, Option.any_some, hcloses] at hj
    cases hj
  by_cases haround : i < k ∧ k < j
  · refine iff_of_false ?_ (h.not_matches haround.1 haround.2)
    exact h.not_matches_set hu (by simp [hcloses]) haround.1 haround.2
  · apply matches_congr
    · exact fun _ => List.getElem?_set_ne (Ne.symm hik)
    · exact List.getElem?_set_ne (Ne.symm hjk)
    · intro hij
      rcases lt_or_gt_of_ne hjk with hjk | hkj
      · exact between_set_of_le hjk.le i v
      · exact between_set_of_ge (by omega) j v

end IsUnmatched

end CloneScan
