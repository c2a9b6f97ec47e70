import CloneScan.Proofs.Parentheses
import CloneScan.Report.Filter

/-!
# The spans of calls

A call goes over several lines when its parentheses belong together and stand on different lines.
The search for such calls keeps the lines of the open parentheses and finds each call at its closing
one.  One more token keeps what the search knows of the tokens before it, so at the end it has found
exactly these calls; and a parenthesis that belongs to no other one neither makes nor hides a call.
-/

namespace CloneScan

/-- A parenthesis directly behind the token opens a call. -/
def Token.isCallable (t : Token) : Bool :=
  t.kind == .identifier || t.text == [0x29] || t.text == [0x5D]

/-- The token directly before an index can be called. -/
def isCalledAt (tokens : List Token) : Nat → Bool
  | 0 => false
  | k + 1 => tokens[k]?.any Token.isCallable

def startLineAt (tokens : List Token) (i : Nat) : Nat :=
  tokens[i]?.elim 0 Token.startLine

def endLineAt (tokens : List Token) (i : Nat) : Nat :=
  tokens[i]?.elim 0 Token.endLine

/-- The lines from one index to another. -/
def spanAt (tokens : List Token) (p : Nat × Nat) : LineSpan :=
  ⟨startLineAt tokens p.1, endLineAt tokens p.2⟩

/-- The parentheses at two indices are those of a call that goes over several lines. -/
structure IsMultiLineCall (tokens : List Token) (i j : Nat) : Prop where
  pair : Matches tokens i j
  called : isCalledAt tokens i = true
  lines : startLineAt tokens i < endLineAt tokens j

/-- These are the multi-line calls, in the order of their closing parentheses. -/
structure ListsCalls (tokens : List Token) (calls : List (Nat × Nat)) : Prop where
  ordered : calls.Pairwise fun p q => p.2 < q.2
  mem_iff : ∀ i j, (i, j) ∈ calls ↔ IsMultiLineCall tokens i j

variable {tokens tokens' front back : List Token} {t u v : Token} {i j k : Nat}
  {calls calls' : List (Nat × Nat)} {opened : List Nat}

/-! ## What comes behind -/

theorem isCalledAt_append (hi : i ≤ front.length) (back : List Token) :
    isCalledAt (front ++ back) i = isCalledAt front i := by
  cases i with
  | zero => rfl
  | succ i => rw [isCalledAt, isCalledAt, List.getElem?_append_left (by omega)]

theorem startLineAt_append (hi : i < front.length) (back : List Token) :
    startLineAt (front ++ back) i = startLineAt front i := by
  rw [startLineAt, startLineAt, List.getElem?_append_left hi]

theorem endLineAt_append (hi : i < front.length) (back : List Token) :
    endLineAt (front ++ back) i = endLineAt front i := by
  rw [endLineAt, endLineAt, List.getElem?_append_left hi]

theorem endLineAt_snoc_length (tokens : List Token) (t : Token) :
    endLineAt (tokens ++ [t]) tokens.length = t.endLine := by
  rw [endLineAt, List.getElem?_concat_length]
  rfl

theorem isMultiLineCall_congr (hpair : Matches tokens' i j ↔ Matches tokens i j)
    (hcalled : Matches tokens i j → isCalledAt tokens' i = isCalledAt tokens i)
    (hstart : Matches tokens i j → startLineAt tokens' i = startLineAt tokens i)
    (hend : Matches tokens i j → endLineAt tokens' j = endLineAt tokens j) :
    IsMultiLineCall tokens' i j ↔ IsMultiLineCall tokens i j := by
  constructor
  · rintro ⟨hmatch, hcall, hlines⟩
    have hmatch := hpair.mp hmatch
    rw [hstart hmatch, hend hmatch] at hlines
    exact ⟨hmatch, hcalled hmatch ▸ hcall, hlines⟩
  · rintro ⟨hmatch, hcall, hlines⟩
    rw [← hstart hmatch, ← hend hmatch] at hlines
    exact ⟨hpair.mpr hmatch, (hcalled hmatch).symm ▸ hcall, hlines⟩

theorem isMultiLineCall_append_iff (hj : j < front.length) :
    IsMultiLineCall (front ++ back) i j ↔ IsMultiLineCall front i j := by
  apply isMultiLineCall_congr (matches_append_iff hj)
  · exact fun h => isCalledAt_append (h.lt.trans hj).le back
  · exact fun h => startLineAt_append (h.lt.trans hj) back
  · exact fun _ => endLineAt_append hj back

/-- The calls of a stream are those without its last token and those that end there. -/
theorem isMultiLineCall_snoc_iff :
    IsMultiLineCall (tokens ++ [t]) i j ↔ IsMultiLineCall tokens i j ∨
      j = tokens.length ∧ IsMultiLineCall (tokens ++ [t]) i tokens.length := by
  constructor
  · intro hcall
    have hj := hcall.pair.lt_length
    rw [List.length_append, List.length_singleton, Nat.lt_succ_iff_lt_or_eq] at hj
    rcases hj with hj | rfl
    · exact .inl ((isMultiLineCall_append_iff hj).mp hcall)
    · exact .inr ⟨rfl, hcall⟩
  · rintro (hcall | ⟨rfl, hcall⟩)
    · exact (isMultiLineCall_append_iff hcall.pair.lt_length).mpr hcall
    · exact hcall

theorem not_isMultiLineCall_snoc (ht : t.closes = false) (i : Nat) :
    ¬ IsMultiLineCall (tokens ++ [t]) i tokens.length := by
  intro hcall
  have hcloses := hcall.pair.closes
  rw [List.getElem?_concat_length, Option.any_some, ht] at hcloses
  cases hcloses

namespace ListsCalls

theorem lt_length (h : ListsCalls tokens calls) {p : Nat × Nat} (hp : p ∈ calls) :
    p.1 < p.2 ∧ p.2 < tokens.length := by
  have hpair := ((h.mem_iff p.1 p.2).mp hp).pair
  exact ⟨hpair.lt, hpair.lt_length⟩

theorem map_spanAt_snoc (h : ListsCalls tokens calls) (t : Token) :
    calls.map (spanAt (tokens ++ [t])) = calls.map (spanAt tokens) := by
  apply List.map_congr_left
  intro p hp
  obtain ⟨hlt, hlength⟩ := h.lt_length hp
  rw [spanAt, spanAt, startLineAt_append (hlt.trans hlength), endLineAt_append hlength]

theorem snoc_of_forall_not (h : ListsCalls tokens calls)
    (ht : ∀ i, ¬ IsMultiLineCall (tokens ++ [t]) i tokens.length) :
    ListsCalls (tokens ++ [t]) calls := by
  refine ⟨h.ordered, fun i j => ?_⟩
  rw [isMultiLineCall_snoc_iff, h.mem_iff, or_iff_left fun hlast => ht i hlast.2]

theorem snoc_of_forall_iff (h : ListsCalls tokens calls)
    (ht : ∀ i, IsMultiLineCall (tokens ++ [t]) i tokens.length ↔ i = k) :
    ListsCalls (tokens ++ [t]) (calls ++ [(k, tokens.length)]) := by
  constructor
  · refine List.pairwise_append.mpr ⟨h.ordered, List.pairwise_singleton _ _, fun p hp q hq => ?_⟩
    rw [List.mem_singleton.mp hq]
    exact (h.lt_length hp).2
  · intro i j
    rw [isMultiLineCall_snoc_iff, List.mem_append, h.mem_iff, List.mem_singleton, Prod.mk.injEq, ht,
      and_comm]

/-- Calls that are ordered by their closing parentheses are determined by which they are. -/
theorem eq_of_forall_iff (h : ListsCalls tokens calls) (h' : ListsCalls tokens' calls')
    (hcalls : ∀ i j, IsMultiLineCall tokens i j ↔ IsMultiLineCall tokens' i j) :
    calls = calls' := by
  have hne {p q : Nat × Nat} (hlt : p.2 < q.2) : p ≠ q :=
    fun heq => absurd hlt (heq ▸ lt_irrefl _)
  have hmem (p : Nat × Nat) : p ∈ calls ↔ p ∈ calls' := by
    rw [h.mem_iff p.1 p.2, h'.mem_iff p.1 p.2, hcalls]
  have hperm := (List.perm_ext_iff_of_nodup (h.ordered.imp hne) (h'.ordered.imp hne)).mpr hmem
  apply hperm.eq_of_pairwise _ h.ordered h'.ordered
  exact fun p q _ _ hpq hqp => absurd hpq hqp.asymm

end ListsCalls

/-! ## The search -/

/-- What the search keeps of an open parenthesis. -/
def entryAt (tokens : List Token) (i : Nat) : Nat × Bool :=
  (startLineAt tokens i, isCalledAt tokens i)

theorem entryAt_append (hi : i < front.length) (back : List Token) :
    entryAt (front ++ back) i = entryAt front i := by
  rw [entryAt, entryAt, startLineAt_append hi, isCalledAt_append hi.le]

theorem entryAt_snoc_length (tokens : List Token) (t : Token) :
    entryAt (tokens ++ [t]) tokens.length = (t.startLine, isCalledAt tokens tokens.length) := by
  rw [entryAt, isCalledAt_append le_rfl, startLineAt, List.getElem?_concat_length]
  rfl

theorem isCalledAt_snoc_length (tokens : List Token) (t : Token) :
    isCalledAt (tokens ++ [t]) (tokens ++ [t]).length = t.isCallable := by
  rw [List.length_append, List.length_singleton, isCalledAt, List.getElem?_concat_length]
  rfl

theorem IsStack.map_entryAt_snoc (h : IsStack tokens opened) (t : Token) :
    opened.map (entryAt (tokens ++ [t])) = opened.map (entryAt tokens) :=
  List.map_congr_left fun _ hi => entryAt_append (h.lt_length hi) [t]

/-- The call that a closing parenthesis ends, if any, is that of the innermost open one. -/
theorem IsStack.isMultiLineCall_iff (h : IsStack tokens opened) (ht : t.closes = true) (i : Nat) :
    IsMultiLineCall (tokens ++ [t]) i tokens.length ↔
      opened.head? = some i ∧ (entryAt tokens i).2 = true ∧ (entryAt tokens i).1 < t.endLine := by
  rw [← h.matches_iff ht]
  constructor
  · rintro ⟨hpair, hcalled, hlines⟩
    rw [isCalledAt_append hpair.lt.le] at hcalled
    rw [startLineAt_append hpair.lt, endLineAt_snoc_length] at hlines
    exact ⟨hpair, hcalled, hlines⟩
  · rintro ⟨hpair, hcalled, hlines⟩
    refine ⟨hpair, ?_, ?_⟩
    · rw [isCalledAt_append hpair.lt.le]
      exact hcalled
    · rw [startLineAt_append hpair.lt, endLineAt_snoc_length]
      exact hlines

namespace CallSearch

variable {s : CallSearch}

theorem step_of_opens (ht : t.opens = true) :
    s.step t = ⟨(t.startLine, s.callable) :: s.opened, s.calls, t.isCallable⟩ := by
  simp only [Token.opens, Bool.and_eq_true, beq_iff_eq] at ht
  simp [step, Token.isCallable, ht.1, ht.2]

theorem step_of_skips (hopens : t.opens = false) (hcloses : t.closes = false) :
    s.step t = ⟨s.opened, s.calls, t.isCallable⟩ := by
  unfold step
  rw [Token.opens] at hopens
  rw [Token.closes] at hcloses
  cases hkind : t.kind == .symbol with
  | false => simp [bne, hkind, Token.isCallable]
  | true =>
      rw [hkind, Bool.true_and] at hopens hcloses
      simp [bne, hkind, hopens, hcloses, Token.isCallable]

theorem step_of_closes_nil (ht : t.closes = true) (hs : s.opened = []) :
    s.step t = ⟨[], s.calls, t.isCallable⟩ := by
  simp only [Token.closes, Bool.and_eq_true, beq_iff_eq] at ht
  simp [step, Token.isCallable, ht.1, ht.2, hs]

theorem step_of_closes_cons (ht : t.closes = true) {top : Nat × Bool} {rest : List (Nat × Bool)}
    (hs : s.opened = top :: rest) :
    s.step t = ⟨rest,
      if top.2 = true ∧ top.1 < t.endLine then s.calls ++ [⟨top.1, t.endLine⟩] else s.calls,
      t.isCallable⟩ := by
  simp only [Token.closes, Bool.and_eq_true, beq_iff_eq] at ht
  simp only [step, Token.isCallable, ht.1, ht.2, hs]
  by_cases hcall : top.2 = true ∧ top.1 < t.endLine
  · simp [hcall.1, hcall.2]
  · rw [if_neg hcall]
    simp [hcall]

/-- What the search knows of the tokens that it has read. -/
structure Describes (s : CallSearch) (tokens : List Token) (opened : List Nat)
    (calls : List (Nat × Nat)) : Prop where
  stack : IsStack tokens opened
  lists : ListsCalls tokens calls
  opened_eq : s.opened = opened.map (entryAt tokens)
  calls_eq : s.calls = calls.map (spanAt tokens)
  callable_eq : s.callable = isCalledAt tokens tokens.length

theorem describes_start : Describes ⟨[], [], false⟩ [] [] [] := by
  refine ⟨isStack_nil, ⟨List.Pairwise.nil, fun i j => ?_⟩, rfl, rfl, rfl⟩
  exact ⟨fun h => absurd h List.not_mem_nil, fun h => absurd h.pair.lt_length (by simp)⟩

namespace Describes

/-- Where no call ends, the search has to keep up with the open parentheses alone. -/
theorem of_forall_not {opened' : List Nat} (h : s.Describes tokens opened calls)
    (hstack : IsStack (tokens ++ [t]) opened')
    (ht : ∀ i, ¬ IsMultiLineCall (tokens ++ [t]) i tokens.length) :
    Describes ⟨opened'.map (entryAt (tokens ++ [t])), s.calls, t.isCallable⟩ (tokens ++ [t])
      opened' calls := by
  refine ⟨hstack, h.lists.snoc_of_forall_not ht, rfl, ?_, (isCalledAt_snoc_length tokens t).symm⟩
  rw [h.lists.map_spanAt_snoc, h.calls_eq]

theorem step_opens (h : s.Describes tokens opened calls) (ht : t.opens = true) :
    (s.step t).Describes (tokens ++ [t]) (tokens.length :: opened) calls := by
  have hnext := h.of_forall_not (h.stack.push ht)
    (not_isMultiLineCall_snoc (Token.closes_eq_false_of_opens ht))
  rw [List.map_cons, entryAt_snoc_length, h.stack.map_entryAt_snoc, ← h.opened_eq,
    ← h.callable_eq] at hnext
  rwa [step_of_opens ht]

theorem step_skips (h : s.Describes tokens opened calls) (hopens : t.opens = false)
    (hcloses : t.closes = false) : (s.step t).Describes (tokens ++ [t]) opened calls := by
  have hnext := h.of_forall_not (h.stack.skip hopens hcloses) (not_isMultiLineCall_snoc hcloses)
  rw [h.stack.map_entryAt_snoc, ← h.opened_eq] at hnext
  rwa [step_of_skips hopens hcloses]

theorem step_closes_nil (h : s.Describes tokens [] calls) (ht : t.closes = true) :
    (s.step t).Describes (tokens ++ [t]) [] calls := by
  rw [step_of_closes_nil ht h.opened_eq]
  apply h.of_forall_not (h.stack.pop ht)
  intro i hcall
  cases ((h.stack.isMultiLineCall_iff ht i).mp hcall).1

theorem step_closes_cons {top : Nat} {rest : List Nat} (h : s.Describes tokens (top :: rest) calls)
    (ht : t.closes = true) : ∃ calls', (s.step t).Describes (tokens ++ [t]) rest calls' := by
  have hcall (i : Nat) : IsMultiLineCall (tokens ++ [t]) i tokens.length ↔
      top = i ∧ (entryAt tokens i).2 = true ∧ (entryAt tokens i).1 < t.endLine := by
    rw [h.stack.isMultiLineCall_iff ht, List.head?_cons, Option.some.injEq]
  have hstack : IsStack (tokens ++ [t]) rest := h.stack.pop ht
  have hrest : rest.map (entryAt (tokens ++ [t])) = rest.map (entryAt tokens) :=
    (List.cons.inj (h.stack.map_entryAt_snoc t)).2
  rw [step_of_closes_cons ht h.opened_eq]
  by_cases hspan : (entryAt tokens top).2 = true ∧ (entryAt tokens top).1 < t.endLine
  · have hends (i : Nat) : IsMultiLineCall (tokens ++ [t]) i tokens.length ↔ i = top := by
      rw [hcall]
      exact ⟨fun hi => hi.1.symm, fun hi => hi.symm ▸ ⟨rfl, hspan⟩⟩
    have hlast : spanAt (tokens ++ [t]) (top, tokens.length) =
        ⟨(entryAt tokens top).1, t.endLine⟩ := by
      rw [spanAt, startLineAt_append (h.stack.lt_length List.mem_cons_self), endLineAt_snoc_length]
      rfl
    refine ⟨calls ++ [(top, tokens.length)], hstack, h.lists.snoc_of_forall_iff hends, hrest.symm,
      ?_, (isCalledAt_snoc_length tokens t).symm⟩
    rw [if_pos hspan, List.map_append, h.lists.map_spanAt_snoc, h.calls_eq, List.map_singleton,
      hlast]
  · have hnone (i : Nat) : ¬ IsMultiLineCall (tokens ++ [t]) i tokens.length := by
      rw [hcall]
      rintro ⟨rfl, hi⟩
      exact hspan hi
    have hnext := h.of_forall_not hstack hnone
    rw [hrest] at hnext
    rw [if_neg hspan]
    exact ⟨calls, hnext⟩

/-- One more token keeps what the search knows. -/
theorem step (h : s.Describes tokens opened calls) (t : Token) :
    ∃ opened' calls', (s.step t).Describes (tokens ++ [t]) opened' calls' := by
  by_cases hopens : t.opens = true
  · exact ⟨_, _, h.step_opens hopens⟩
  by_cases hcloses : t.closes = true
  · cases opened with
    | nil => exact ⟨_, _, h.step_closes_nil hcloses⟩
    | cons top rest => exact ⟨_, h.step_closes_cons hcloses⟩
  · exact ⟨_, _, h.step_skips (by simpa using hopens) (by simpa using hcloses)⟩

end Describes

theorem exists_describes (tokens : List Token) :
    ∃ opened calls,
      (tokens.foldl CallSearch.step ⟨[], [], false⟩).Describes tokens opened calls := by
  induction tokens using List.reverseRecOn with
  | nil => exact ⟨[], [], describes_start⟩
  | append_singleton tokens t ih =>
      obtain ⟨opened, calls, h⟩ := ih
      rw [List.foldl_append]
      exact h.step t

end CallSearch

theorem exists_listsCalls (tokens : List Token) :
    ∃ calls, ListsCalls tokens calls ∧ multiLineCalls tokens = calls.map (spanAt tokens) := by
  obtain ⟨opened, calls, h⟩ := CallSearch.exists_describes tokens
  exact ⟨calls, h.lists, h.calls_eq⟩

/-! ## Parentheses without a partner -/

theorem isCalledAt_set (hcallable : ∀ u, tokens[k]? = some u → v.isCallable = u.isCallable)
    (i : Nat) : isCalledAt (tokens.set k v) i = isCalledAt tokens i := by
  cases i with
  | zero => rfl
  | succ i =>
      rw [isCalledAt, isCalledAt, List.getElem?_set]
      by_cases hki : k = i
      · subst hki
        cases hu : tokens[k]? with
        | none => simp [Nat.not_lt.mpr (List.getElem?_eq_none_iff.mp hu)]
        | some u => simp [(List.getElem?_eq_some_iff.mp hu).1, hcallable u hu]
      · rw [if_neg hki]

namespace IsUnmatched

theorem startLineAt_set (h : IsUnmatched tokens k) (hpair : Matches tokens i j) (v : Token) :
    startLineAt (tokens.set k v) i = startLineAt tokens i := by
  have hki : k ≠ i := fun hki => h.not_opens j (hki ▸ hpair)
  rw [startLineAt, startLineAt, List.getElem?_set_ne hki]

theorem endLineAt_set (h : IsUnmatched tokens k) (hpair : Matches tokens i j) (v : Token) :
    endLineAt (tokens.set k v) j = endLineAt tokens j := by
  have hkj : k ≠ j := fun hkj => h.not_closes i (hkj ▸ hpair)
  rw [endLineAt, endLineAt, List.getElem?_set_ne hkj]

theorem isMultiLineCall_set_iff (h : IsUnmatched tokens k) (hopens : v.opens = false)
    (hcloses : v.closes = false)
    (hcallable : ∀ u, tokens[k]? = some u → v.isCallable = u.isCallable) (i j : Nat) :
    IsMultiLineCall (tokens.set k v) i j ↔ IsMultiLineCall tokens i j := by
  apply isMultiLineCall_congr (h.matches_set_iff hopens hcloses)
  · exact fun _ => isCalledAt_set hcallable i
  · exact fun hpair => h.startLineAt_set hpair v
  · exact fun hpair => h.endLineAt_set hpair v

end IsUnmatched

/-- The search finds the multi-line calls and nothing else, in the order of their closing
parentheses, in every stream of tokens; and a parenthesis that belongs to no other one neither makes
nor hides a span: any other token in its place that can be called as it can gives the same spans. -/
theorem multiLineCalls_exact (tokens : List Token) :
    (∃ calls, ListsCalls tokens calls ∧ multiLineCalls tokens = calls.map (spanAt tokens)) ∧
      ∀ k v, IsUnmatched tokens k → v.opens = false → v.closes = false →
        (∀ u, tokens[k]? = some u → v.isCallable = u.isCallable) →
          multiLineCalls (tokens.set k v) = multiLineCalls tokens := by
  refine ⟨exists_listsCalls tokens, fun k v hk hopens hcloses hcallable => ?_⟩
  obtain ⟨calls, hcalls, hspans⟩ := exists_listsCalls tokens
  obtain ⟨calls', hcalls', hspans'⟩ := exists_listsCalls (tokens.set k v)
  have hsame := hk.isMultiLineCall_set_iff hopens hcloses hcallable
  obtain rfl : calls' = calls := hcalls'.eq_of_forall_iff hcalls hsame
  rw [hspans, hspans']
  apply List.map_congr_left
  intro p hp
  have hpair := ((hcalls.mem_iff p.1 p.2).mp hp).pair
  rw [spanAt, spanAt, hk.startLineAt_set hpair, hk.endLineAt_set hpair]

/-- `) f ( g ( x`, and `)` on the next line: the call of `g` goes over two lines, and the first two
parentheses belong to none. -/
def looseStream : List Token :=
  [.make [0x29] .symbol ⟨0, 0⟩ ⟨0, 1⟩, .make [0x66] .identifier ⟨0, 2⟩ ⟨0, 3⟩,
    .make [0x28] .symbol ⟨0, 4⟩ ⟨0, 5⟩, .make [0x67] .identifier ⟨0, 6⟩ ⟨0, 7⟩,
    .make [0x28] .symbol ⟨0, 8⟩ ⟨0, 9⟩, .make [0x78] .identifier ⟨0, 10⟩ ⟨0, 11⟩,
    .make [0x29] .symbol ⟨1, 0⟩ ⟨1, 1⟩]

theorem isUnmatched_looseStream : IsUnmatched looseStream 0 ∧ IsUnmatched looseStream 2 := by
  have hbounded : ∀ i < 7, ¬ Matches looseStream 0 i ∧ ¬ Matches looseStream i 0 ∧
      ¬ Matches looseStream 2 i ∧ ¬ Matches looseStream i 2 := by decide
  have hpairs (k : Nat) (hk : ∀ i < 7, ¬ Matches looseStream k i ∧ ¬ Matches looseStream i k) :
      (∀ j, ¬ Matches looseStream k j) ∧ ∀ i, ¬ Matches looseStream i k :=
    ⟨fun j h => (hk j h.lt_length).1 h, fun i h => (hk i (h.lt.trans h.lt_length)).2 h⟩
  have hclosing := hpairs 0 fun i hi => ⟨(hbounded i hi).1, (hbounded i hi).2.1⟩
  have hopening := hpairs 2 fun i hi => (hbounded i hi).2.2
  exact ⟨⟨by decide, hclosing.1, hclosing.2⟩, ⟨by decide, hopening.1, hopening.2⟩⟩

/-- Neither a bracket for the first parenthesis nor a sign for the second changes the span. -/
theorem multiLineCalls_looseStream :
    let bracket := Token.make [0x5D] .symbol ⟨0, 0⟩ ⟨0, 1⟩
    let sign := Token.make [0x2B] .symbol ⟨0, 4⟩ ⟨0, 5⟩
    IsUnmatched looseStream 0 ∧ IsUnmatched looseStream 2 ∧
      multiLineCalls (looseStream.set 0 bracket) = [⟨1, 2⟩] ∧
      multiLineCalls (looseStream.set 2 sign) = [⟨1, 2⟩] := by
  obtain ⟨hclosing, hopening⟩ := isUnmatched_looseStream
  have hspans : multiLineCalls looseStream = [⟨1, 2⟩] := by decide
  have hsame := (multiLineCalls_exact looseStream).2
  refine ⟨hclosing, hopening, ?_, ?_⟩
  · rw [hsame 0 _ hclosing (by decide) (by decide) (by decide), hspans]
  · rw [hsame 2 _ hopening (by decide) (by decide) (by decide), hspans]

end CloneScan
