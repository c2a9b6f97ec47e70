import Mathlib.Data.List.Basic
import CloneScan.Suppression

/-!
# Where the directives of a line are found

The pattern of a directive ends in a rule list, and the search for the next directive goes on behind
that list.  A rule list takes every letter, digit, underscore, comma and gap, so it takes the front
of a directive that follows it with nothing else in between, and that directive is not found.  These
are the only directives that are lost.
-/

namespace CloneScan.Suppression

variable {line t : Text} {scope other : SuppressionScope} {p q : Nat}

/-! ## Directives in a line -/

/-- The text of a directive in front of its rule list. -/
def directiveWord (scope : SuppressionScope) : Text :=
  marker ++ scope.word

/-- A text begins with the word of a directive, in capital or small letters, and the word ends
there. -/
structure AtFront (scope : SuppressionScope) (t : Text) : Prop where
  reads : Text.lower (t.take (directiveWord scope).length) = directiveWord scope
  ends : goesOn (t.drop (directiveWord scope).length) = false

/-- The word of a directive stands at a position of a line. -/
def Occurs (line : Text) (p : Nat) : Prop :=
  ∃ scope, AtFront scope (line.drop p)

/-- Everything from the end of the directive at `p` up to `q` can stand in a rule list. -/
def RunsInto (line : Text) (p q : Nat) : Prop :=
  ∃ scope, AtFront scope (line.drop p) ∧ p + (directiveWord scope).length ≤ q ∧
    ∀ u ∈ line.slice (p + (directiveWord scope).length) q, isRuleUnit u = true

/-- The positions at which the pattern matches from `p` on; after a match the search goes on behind
its rule list. -/
def startsFrom (line : Text) : Nat → Nat → List Nat
  | 0, _ => []
  | fuel + 1, p =>
    if p < line.length then
      match matchHere? (line.drop p) with
      | some (_, _, after) => p :: startsFrom line fuel (line.length - after.length)
      | none => startsFrom line fuel (p + 1)
    else []

/-- The positions at which the pattern matches in a line. -/
def directiveStarts (line : Text) : List Nat :=
  startsFrom line line.length 0

/-! ## The word of a directive -/

theorem two_le_length_directiveWord (scope : SuppressionScope) :
    2 ≤ (directiveWord scope).length := by
  cases scope <;> decide

theorem AtFront.getElem? (h : AtFront scope t) {i : Nat} (hi : i < (directiveWord scope).length) :
    t[i]?.map Text.lowerUnit = (directiveWord scope)[i]? := by
  rw [← h.reads, Text.lower, List.getElem?_map, List.getElem?_take_of_lt hi]

/-- A directive begins with the letters `tw`. -/
theorem AtFront.first_letters (h : AtFront scope t) :
    t[0]?.map Text.lowerUnit = some 0x74 ∧ t[1]?.map Text.lowerUnit = some 0x77 := by
  have hlength := two_le_length_directiveWord scope
  rw [h.getElem? (by omega), h.getElem? (by omega)]
  cases scope <;> decide

theorem AtFront.length_le (h : AtFront scope t) : (directiveWord scope).length ≤ t.length := by
  have hlength := congrArg List.length h.reads
  rw [Text.lower, List.length_map, List.length_take] at hlength
  omega

/-- The scopes differ in their first letters. -/
theorem AtFront.scope_eq (h : AtFront scope t) (h' : AtFront other t) : scope = other := by
  have hletter : (directiveWord scope)[16]? = (directiveWord other)[16]? := by
    rw [← h.getElem? (by cases scope <;> decide), ← h'.getElem? (by cases other <;> decide)]
  revert hletter
  cases scope <;> cases other <;> decide

theorem isWord_of_lowerUnit {u : UInt16} (hu : Text.isWord (Text.lowerUnit u) = true) :
    Text.isWord u = true := by
  unfold Text.lowerUnit at hu
  split at hu
  · simp [Text.isWord, *]
  · exact hu

/-- No part of a directive's word but its front reads like the front of one. -/
theorem not_front_inside (scope : SuppressionScope) :
    ∀ k < (directiveWord scope).length, 0 < k → k + 1 < (directiveWord scope).length →
      ¬ ((directiveWord scope)[k]? = some 0x74 ∧ (directiveWord scope)[k + 1]? = some 0x77) := by
  cases scope <;> decide

/-- The words of two directives do not overlap.  The last letter of a word is the front of no other
one, since the word ends there. -/
theorem AtFront.eq_zero_of_lt (h : AtFront scope t) {k : Nat} (h' : AtFront other (t.drop k))
    (hk : k < (directiveWord scope).length) : k = 0 := by
  obtain ⟨hfirst, hsecond⟩ := h'.first_letters
  rw [List.getElem?_drop] at hfirst hsecond
  by_contra hzero
  by_cases hlast : k + 1 < (directiveWord scope).length
  · exact not_front_inside scope k hk (Nat.pos_of_ne_zero hzero) hlast
      ⟨(h.getElem? hk).symm.trans hfirst, (h.getElem? hlast).symm.trans hsecond⟩
  · have hend : (directiveWord scope).length = k + 1 := by omega
    obtain ⟨u, hu, hlower⟩ := Option.map_eq_some_iff.mp hsecond
    have hgoes : goesOn (t.drop (k + 1)) = Text.isWord u := by
      obtain ⟨hlt, hget⟩ := List.getElem?_eq_some_iff.mp hu
      rw [List.drop_eq_getElem_cons hlt, hget, goesOn]
    have hends := h.ends
    rw [hend, hgoes, isWord_of_lowerUnit (hlower ▸ rfl)] at hends
    exact absurd hends (by decide)

/-! ## A match of the pattern -/

theorem afterLoosely?_eq_some_iff {word rest : Text} (hword : Text.lower word = word) :
    afterLoosely? word t = some rest ↔
      Text.lower (t.take word.length) = word ∧ t.drop word.length = rest := by
  have hlength : Text.lower (t.take word.length) = word → word.length ≤ t.length := by
    intro h
    have := congrArg List.length h
    rw [Text.lower, List.length_map, List.length_take] at this
    omega
  simp only [afterLoosely?, hword, Option.ite_none_right_eq_some, Bool.and_eq_true,
    decide_eq_true_eq, beq_iff_eq, Option.some.injEq]
  exact ⟨fun ⟨⟨_, hreads⟩, hrest⟩ => ⟨hreads, hrest⟩,
    fun ⟨hreads, hrest⟩ => ⟨⟨hlength hreads, hreads⟩, hrest⟩⟩

/-- The word of a directive is the marker and then the word of a scope. -/
theorem atFront_and_rest_iff {rest : Text} :
    AtFront scope t ∧ t.drop (directiveWord scope).length = rest ↔
      ∃ behind, afterLoosely? marker t = some behind ∧
        afterLoosely? scope.word behind = some rest ∧ goesOn rest = false := by
  have hmarker : Text.lower marker = marker := by decide
  have hscope : Text.lower scope.word = scope.word := by cases scope <;> decide
  have hsplit : Text.lower (t.take (directiveWord scope).length) =
      Text.lower (t.take marker.length) ++
        Text.lower ((t.drop marker.length).take scope.word.length) := by
    rw [directiveWord, List.length_append, List.take_add, Text.lower, List.map_append]
    rfl
  have hrest : (t.drop marker.length).drop scope.word.length =
      t.drop (directiveWord scope).length := by
    rw [directiveWord, List.length_append, List.drop_drop]
  simp only [afterLoosely?_eq_some_iff hmarker, afterLoosely?_eq_some_iff hscope]
  constructor
  · rintro ⟨h, rfl⟩
    have hlength : (Text.lower (t.take marker.length)).length = marker.length := by
      have hle := h.length_le
      rw [directiveWord, List.length_append] at hle
      rw [Text.lower, List.length_map, List.length_take]
      omega
    obtain ⟨hfront, hword⟩ := List.append_inj (hsplit.symm.trans h.reads) hlength
    exact ⟨_, ⟨hfront, rfl⟩, ⟨hword, hrest⟩, h.ends⟩
  · rintro ⟨_, ⟨hfront, rfl⟩, ⟨hword, rfl⟩, hends⟩
    exact ⟨⟨by rw [hsplit, hfront, hword, directiveWord], hrest ▸ hends⟩, hrest.symm⟩

theorem dropWhile_gap_ruleUnit (t : Text) :
    (t.dropWhile isGap).dropWhile isRuleUnit = t.dropWhile isRuleUnit := by
  induction t with
  | nil => rfl
  | cons u t ih =>
      by_cases hgap : isGap u = true
      · have hunit : isRuleUnit u = true := by simp [isRuleUnit, hgap]
        rw [List.dropWhile_cons_of_pos hgap, ih, List.dropWhile_cons_of_pos hunit]
      · rw [List.dropWhile_cons_of_neg hgap]

/-- A match is a directive at the front, with all of the rule list behind it taken. -/
theorem matchHere?_eq_some {listed after : Text}
    (h : matchHere? t = some (scope, listed, after)) :
    AtFront scope t ∧ (t.drop (directiveWord scope).length).dropWhile isRuleUnit = after := by
  simp only [matchHere?, Option.bind_eq_bind, Option.bind_eq_some_iff] at h
  obtain ⟨behind, hmarker, ⟨found, rest⟩, hfound, hlists⟩ := h
  obtain ⟨tried, -, htried⟩ := List.exists_of_findSome?_eq_some hfound
  obtain ⟨rest', hword, hends⟩ := Option.bind_eq_some_iff.mp htried
  simp only [Option.ite_none_left_eq_some, Option.some.injEq, Prod.mk.injEq] at hends hlists
  obtain ⟨hends, rfl, rfl⟩ := hends
  obtain ⟨rfl, -, rfl⟩ := hlists
  obtain ⟨hfront, hrest⟩ :=
    atFront_and_rest_iff.mpr ⟨behind, hmarker, hword, Bool.eq_false_iff.mpr hends⟩
  exact ⟨hfront, by rw [hrest, dropWhile_gap_ruleUnit]⟩

/-- A directive at the front is matched with its scope. -/
theorem AtFront.matchHere? (h : AtFront scope t) :
    ∃ listed, Suppression.matchHere? t =
      some (scope, listed, (t.drop (directiveWord scope).length).dropWhile isRuleUnit) := by
  obtain ⟨behind, hmarker, hword, hends⟩ := atFront_and_rest_iff.mp ⟨h, rfl⟩
  have hsome : (Suppression.matchHere? t).isSome = true := by
    simp only [Suppression.matchHere?, Option.bind_eq_bind, hmarker, Option.bind_some,
      Option.isSome_bind, Option.isSome_some, Option.any_true, List.findSome?_isSome_iff]
    exact ⟨scope, by cases scope <;> decide, by simp [hword, hends]⟩
  obtain ⟨⟨found, listed, after⟩, hfound⟩ := Option.isSome_iff_exists.mp hsome
  obtain ⟨hfront, rfl⟩ := matchHere?_eq_some hfound
  obtain rfl := h.scope_eq hfront
  exact ⟨listed, hfound⟩

/-! ## The search through a line -/

/-- The end of the directive at `p` with its rule list. -/
def endOf (line : Text) (p : Nat) (scope : SuppressionScope) : Nat :=
  p + (directiveWord scope).length +
    (line.drop (p + (directiveWord scope).length)).findIdx fun u => !isRuleUnit u

theorem drop_endOf :
    line.drop (endOf line p scope) =
      ((line.drop p).drop (directiveWord scope).length).dropWhile isRuleUnit := by
  rw [List.drop_drop, List.dropWhile_eq_drop_findIdx_not, List.drop_drop, endOf]

theorem lt_length_of_occurs (h : Occurs line q) : q < line.length := by
  obtain ⟨scope, h⟩ := h
  have hle := h.length_le
  have hpos := two_le_length_directiveWord scope
  rw [List.length_drop] at hle
  omega

theorem endOf_le_length (h : AtFront scope (line.drop p)) : endOf line p scope ≤ line.length := by
  have hle := h.length_le
  have hlt := lt_length_of_occurs ⟨scope, h⟩
  have hidx : (line.drop (p + (directiveWord scope).length)).findIdx (fun u => !isRuleUnit u) ≤
      (line.drop (p + (directiveWord scope).length)).length :=
    List.findIdx_le_length
  rw [List.length_drop] at hle hidx
  rw [endOf]
  omega

/-- A directive begins with a letter, and so with a unit of a rule list. -/
theorem exists_ruleUnit_of_occurs {t : Text} (h : Occurs t q) :
    ∃ u, t[q]? = some u ∧ isRuleUnit u = true := by
  obtain ⟨scope, hfront⟩ := h
  have hletter := hfront.first_letters.1
  rw [List.getElem?_drop] at hletter
  obtain ⟨u, hu, hlower⟩ := Option.map_eq_some_iff.mp hletter
  have hword : Text.isWord u = true := isWord_of_lowerUnit (hlower ▸ rfl)
  exact ⟨u, hu, by rw [isRuleUnit, hword, Bool.true_or, Bool.true_or]⟩

/-- One directive runs into another when the other begins in front of its end. -/
theorem runsInto_iff (h : AtFront scope (line.drop p)) (hq : Occurs line q) :
    RunsInto line p q ↔ p + (directiveWord scope).length ≤ q ∧ q < endOf line p scope := by
  have hone : RunsInto line p q ↔ p + (directiveWord scope).length ≤ q ∧
      ∀ u ∈ line.slice (p + (directiveWord scope).length) q, isRuleUnit u = true := by
    constructor
    · rintro ⟨other, hother, hruns⟩
      exact hother.scope_eq h ▸ hruns
    · exact fun hruns => ⟨scope, h, hruns⟩
  rw [hone]
  refine and_congr_right fun hle => ?_
  obtain ⟨i, rfl⟩ := Nat.exists_eq_add_of_le hle
  obtain ⟨u, hu, hunit⟩ := exists_ruleUnit_of_occurs hq
  rw [endOf, Nat.add_lt_add_iff_left, List.lt_findIdx_iff, Text.slice, Nat.add_sub_cancel_left]
  rw [← List.getElem?_drop] at hu
  obtain ⟨hi, hget⟩ := List.getElem?_eq_some_iff.mp hu
  constructor
  · intro hall
    refine ⟨hi, fun j hj => ?_⟩
    rcases Nat.lt_or_eq_of_le hj with hlt | rfl
    · rw [hall _ (List.mem_take_iff_getElem.mpr ⟨j, by omega, rfl⟩), Bool.not_true]
    · rw [hget, hunit, Bool.not_true]
  · rintro ⟨_, hall⟩ v hv
    obtain ⟨j, hj, rfl⟩ := List.mem_take_iff_getElem.mp hv
    simpa using hall j (by omega)

/-- Behind a match at `p` stand the directives that it does not run into. -/
theorem endOf_le_iff (h : AtFront scope (line.drop p)) (hq : Occurs line q) (hlt : p < q) :
    endOf line p scope ≤ q ↔ ¬ RunsInto line p q := by
  have hle : p + (directiveWord scope).length ≤ q := by
    by_contra hnot
    obtain ⟨other, hother⟩ := hq
    obtain ⟨k, rfl⟩ := Nat.exists_eq_add_of_le (Nat.le_of_lt hlt)
    rw [← List.drop_drop] at hother
    have := h.eq_zero_of_lt hother (by omega)
    omega
  rw [runsInto_iff h hq, not_and, Nat.not_lt]
  exact ⟨fun hend _ => hend, fun hend => hend hle⟩

theorem lt_of_runsInto (h : RunsInto line p q) : p < q := by
  obtain ⟨scope, -, hle, -⟩ := h
  have hpos := two_le_length_directiveWord scope
  omega

theorem startsFrom_of_length_le {fuel : Nat} (h : line.length ≤ p) :
    startsFrom line fuel p = [] := by
  cases fuel with
  | zero => rfl
  | succ fuel => rw [startsFrom, if_neg (Nat.not_lt.mpr h)]

theorem matchHere?_of_not_occurs (h : ¬ Occurs line p) : matchHere? (line.drop p) = none := by
  refine Option.eq_none_iff_forall_ne_some.mpr fun ⟨scope, listed, after⟩ hmatch => ?_
  exact h ⟨scope, (matchHere?_eq_some hmatch).1⟩

theorem startsFrom_of_not_occurs {fuel : Nat} (h : ¬ Occurs line p) :
    startsFrom line (fuel + 1) p = startsFrom line fuel (p + 1) := by
  by_cases hlt : p < line.length
  · rw [startsFrom, if_pos hlt, matchHere?_of_not_occurs h]
  · have hle : line.length ≤ p := Nat.le_of_not_lt hlt
    rw [startsFrom_of_length_le hle, startsFrom_of_length_le (Nat.le_succ_of_le hle)]

theorem startsFrom_of_atFront {fuel : Nat} (h : AtFront scope (line.drop p)) :
    startsFrom line (fuel + 1) p = p :: startsFrom line fuel (endOf line p scope) := by
  obtain ⟨listed, hmatch⟩ := h.matchHere?
  rw [← drop_endOf] at hmatch
  have hend : line.length - (line.drop (endOf line p scope)).length = endOf line p scope := by
    have hle := endOf_le_length h
    rw [List.length_drop]
    omega
  rw [startsFrom, if_pos (lt_length_of_occurs ⟨scope, h⟩), hmatch]
  simp only [hend]

/-- The pattern matches at the directives that no match in front of them runs into. -/
theorem mem_startsFrom_iff {fuel : Nat} (hfuel : line.length ≤ p + fuel) :
    q ∈ startsFrom line fuel p ↔
      p ≤ q ∧ Occurs line q ∧ ¬ ∃ s ∈ startsFrom line fuel p, RunsInto line s q := by
  induction fuel generalizing p q with
  | zero =>
      refine iff_of_false List.not_mem_nil fun ⟨hle, hq, _⟩ => ?_
      have := lt_length_of_occurs hq
      omega
  | succ fuel ih =>
      by_cases hp : Occurs line p
      · obtain ⟨scope, hfront⟩ := hp
        have hend : p < endOf line p scope := by
          have hpos := two_le_length_directiveWord scope
          rw [endOf]
          omega
        have hrest {q : Nat} := ih (p := endOf line p scope) (q := q) (by omega)
        rw [startsFrom_of_atFront hfront, List.mem_cons, List.exists_mem_cons_iff, hrest]
        rcases Nat.lt_trichotomy q p with hlt | rfl | hlt
        · exact iff_of_false (by omega) (by omega)
        · -- no later match runs back into this one
          refine iff_of_true (.inl rfl) ⟨Nat.le_refl q, ⟨scope, hfront⟩, ?_⟩
          rintro (hruns | ⟨s, hs, hruns⟩)
          · exact absurd (lt_of_runsInto hruns) (Nat.lt_irrefl q)
          · have hle := (hrest.mp hs).1
            have hlt := lt_of_runsInto hruns
            omega
        · have hne : q ≠ p := Nat.ne_of_gt hlt
          have hle : p ≤ q := Nat.le_of_lt hlt
          simp only [hne, hle, false_or, true_and, not_or]
          rw [and_left_comm]
          exact and_congr_right fun hq => and_congr_left fun _ => endOf_le_iff hfront hq hlt
      · rw [startsFrom_of_not_occurs hp, ih (by omega)]
        refine and_congr_left fun ⟨hq, _⟩ => ?_
        have hne : q ≠ p := fun h => hp (h ▸ hq)
        omega

/-- The matches of a line are the ones at the starts of its directives. -/
theorem matches?_eq (fuel : Nat) (p : Nat) :
    matches? fuel (line.drop p) =
      (startsFrom line fuel p).filterMap fun q =>
        (matchHere? (line.drop q)).map fun m => (m.1, m.2.1) := by
  induction fuel generalizing p with
  | zero => rfl
  | succ fuel ih =>
      by_cases hlt : p < line.length
      · by_cases hp : Occurs line p
        · obtain ⟨scope, hfront⟩ := hp
          obtain ⟨listed, hmatch⟩ := hfront.matchHere?
          rw [← drop_endOf] at hmatch
          rw [startsFrom_of_atFront hfront, List.filterMap_cons, hmatch, Option.map_some, ← ih]
          rw [List.drop_eq_getElem_cons hlt] at hmatch ⊢
          rw [matches?, hmatch]
        · have hnone := matchHere?_of_not_occurs hp
          rw [List.drop_eq_getElem_cons hlt] at hnone ⊢
          rw [startsFrom_of_not_occurs hp, ← ih, matches?, hnone]
      · have hle : line.length ≤ p := Nat.le_of_not_lt hlt
        rw [startsFrom_of_length_le hle, List.drop_eq_nil_of_le hle]
        rfl

/-- A directive is lost exactly when a match in front of it runs into it: when nothing but units of
a rule list stands between the two.  So every directive of a line is found exactly when none runs
into another. -/
theorem mem_directiveStarts_iff (line : Text) :
    matches? line.length line =
        ((directiveStarts line).filterMap fun p =>
          (matchHere? (line.drop p)).map fun m => (m.1, m.2.1)) ∧
      (∀ p, p ∈ directiveStarts line ↔
        Occurs line p ∧ ¬ ∃ q ∈ directiveStarts line, RunsInto line q p) ∧
      ((∀ p, Occurs line p → p ∈ directiveStarts line) ↔
        ¬ ∃ q p, Occurs line p ∧ RunsInto line q p) := by
  have hmem (p : Nat) : p ∈ directiveStarts line ↔
      Occurs line p ∧ ¬ ∃ q ∈ directiveStarts line, RunsInto line q p := by
    rw [directiveStarts, mem_startsFrom_iff (Nat.le_add_left _ 0)]
    simp only [Nat.zero_le, true_and]
  refine ⟨matches?_eq line.length 0, hmem, ?_, ?_⟩
  · rintro hall ⟨q, p, hp, hruns⟩
    have hq : Occurs line q := hruns.imp fun scope h => h.1
    exact ((hmem p).mp (hall p hp)).2 ⟨q, hall q hq, hruns⟩
  · exact fun hnone p hp => (hmem p).mpr ⟨hp, fun ⟨q, _, hruns⟩ => hnone ⟨q, p, hp, hruns⟩⟩

/-- The rule list of the first directive takes the front of the second one. -/
theorem occurs_not_mem_directiveStarts :
    let line := Text.ofString "// twinscan-ignore-line ALL twinscan-ignore-next-line ALL"
    Occurs line 28 ∧ 28 ∉ directiveStarts line ∧
      lineDirectives 1 line = [⟨.line, true, [], 1⟩] := by
  refine ⟨⟨.nextLine, ?_, ?_⟩, ?_, ?_⟩ <;> decide +kernel

end CloneScan.Suppression
