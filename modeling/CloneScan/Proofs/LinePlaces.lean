import CloneScan.Text.LineTable
import Mathlib.Data.List.TakeWhile

/-!
# Places among the lines of a text

The place of an offset among the lines of a text, and how the two kinds of line tables number it.
What stands behind an offset on its line is the first line of the text from that offset on.  Rows
give every offset its place among the lines.  A line table gives it the same place exactly when no
lone break is before it, and every lone break before it makes the number of its line one larger.
-/

namespace CloneScan

namespace Position

/-- The place in a text that has one more unit in front, which ends no line. -/
def afterUnit (p : Position) : Position :=
  if p.line = 0 then ⟨0, p.column + 1⟩ else p

/-- The place in a text that has one more line in front. -/
def afterLine (p : Position) : Position :=
  ⟨p.line + 1, p.column⟩

@[simp] theorem line_afterUnit (p : Position) : p.afterUnit.line = p.line := by
  unfold afterUnit
  split <;> simp_all

@[simp] theorem line_afterLine (p : Position) : p.afterLine.line = p.line + 1 := rfl

@[simp] theorem column_afterLine (p : Position) : p.afterLine.column = p.column := rfl

@[simp] theorem afterUnit_afterLine (p : Position) : p.afterLine.afterUnit = p.afterLine := by
  simp [afterUnit]

end Position

namespace Text

/-- The place of an offset among the lines of a text: the number of line feeds before it, and the
number of units behind the last of them. -/
def placeOf (t : Text) (offset : Nat) : Position :=
  ⟨(t.take offset).count 0x0A, ((t.take offset).reverse.takeWhile (· != 0x0A)).length⟩

/-- The text up to its first line end. -/
def firstLine (t : Text) : Text :=
  t.lines.headD []

theorem takeWhile_append_of_not_all {p : UInt16 → Bool} {xs ys : Text}
    (hxs : ¬ ∀ u ∈ xs, p u = true) : (xs ++ ys).takeWhile p = xs.takeWhile p := by
  rw [List.takeWhile_append, if_neg]
  intro hlength
  apply hxs
  rw [← List.takeWhile_eq_self_iff]
  exact (List.takeWhile_prefix p).eq_of_length hlength

@[simp] theorem placeOf_zero (t : Text) : t.placeOf 0 = ⟨0, 0⟩ := by
  simp [placeOf]

theorem placeOf_lineFeed_cons (rest : Text) (offset : Nat) :
    placeOf (0x0A :: rest) (offset + 1) = (placeOf rest offset).afterLine := by
  have hcolumn : ((rest.take offset).reverse ++ [0x0A]).takeWhile (· != 0x0A) =
      (rest.take offset).reverse.takeWhile (· != 0x0A) := by
    by_cases hall : ∀ v ∈ (rest.take offset).reverse, (v != 0x0A) = true
    · rw [List.takeWhile_append_of_pos hall, List.takeWhile_eq_self_iff.mpr hall]
      simp
    · exact takeWhile_append_of_not_all hall
  simp [placeOf, Position.afterLine, hcolumn]

theorem placeOf_cons {u : UInt16} (hu : u ≠ 0x0A) (rest : Text) (offset : Nat) :
    placeOf (u :: rest) (offset + 1) = (placeOf rest offset).afterUnit := by
  have hline : (u :: rest.take offset).count 0x0A = (rest.take offset).count 0x0A :=
    List.count_cons_of_ne hu
  unfold placeOf
  rw [List.take_succ_cons, List.reverse_cons, hline, Position.afterUnit]
  dsimp only
  by_cases hall : ∀ v ∈ (rest.take offset).reverse, (v != 0x0A) = true
  · have hnone : (rest.take offset).count 0x0A = 0 := by
      rw [List.count_eq_zero]
      intro hmem
      simpa using hall _ (List.mem_reverse.mpr hmem)
    have hunit : [u].takeWhile (· != 0x0A) = [u] := by simp [hu]
    rw [if_pos hnone, List.takeWhile_append_of_pos hall, hunit, List.takeWhile_eq_self_iff.mpr hall,
      List.length_append, hnone]
    rfl
  · have hsome : (rest.take offset).count 0x0A ≠ 0 := by
      simpa [List.count_eq_zero] using hall
    rw [if_neg hsome, takeWhile_append_of_not_all hall]

/-! ## Lines -/

attribute [local simp] lines

theorem lines_ne_nil (t : Text) : t.lines ≠ [] := by
  fun_induction lines t <;> simp

theorem lines_eq_firstLine_cons (t : Text) : t.lines = t.firstLine :: t.lines.tail := by
  obtain ⟨line, more, hlines⟩ := List.exists_cons_of_ne_nil t.lines_ne_nil
  simp [firstLine, hlines]

@[simp] theorem firstLine_nil : firstLine [] = [] := by
  simp [firstLine]

@[simp] theorem firstLine_lineFeed_cons (rest : Text) : firstLine (0x0A :: rest) = [] := by
  simp [firstLine]

@[simp] theorem firstLine_pair_cons (rest : Text) : firstLine (0x0D :: 0x0A :: rest) = [] := by
  simp [firstLine]

/-- No line end starts with the unit in front of a text. -/
def NoEndAt (u : UInt16) (rest : Text) : Prop :=
  u ≠ 0x0A ∧ ∀ more, u = 0x0D → rest ≠ 0x0A :: more

/-- Induction on a text by what is in front: a line end or a unit that starts none. -/
@[elab_as_elim]
theorem lineInduction {motive : Text → Prop} (nil : motive [])
    (lineFeed : ∀ rest, motive rest → motive (0x0A :: rest))
    (pair : ∀ rest, motive rest → motive (0x0D :: 0x0A :: rest))
    (unit : ∀ u rest, NoEndAt u rest → motive rest → motive (u :: rest)) (t : Text) : motive t := by
  induction t using lines.induct with
  | case1 => exact nil
  | case2 rest ih => exact lineFeed rest ih
  | case3 rest ih => exact pair rest ih
  | case4 u rest hfeed hpair _ ih => exact unit u rest ⟨hfeed, hpair⟩ ih
  | case5 u rest hfeed hpair _ _ _ ih => exact unit u rest ⟨hfeed, hpair⟩ ih

theorem NoEndAt.take {u : UInt16} {rest : Text} (h : NoEndAt u rest) (n : Nat) :
    NoEndAt u (rest.take n) := by
  refine ⟨h.1, fun more hu hrest => ?_⟩
  rcases rest with - | ⟨v, rest⟩
  · simp at hrest
  · rcases n with - | n
    · simp at hrest
    · rw [List.take_succ_cons] at hrest
      exact h.2 rest hu (by rw [(List.cons.inj hrest).1])

theorem lines_cons {u : UInt16} {rest : Text} (h : NoEndAt u rest) :
    lines (u :: rest) = (u :: rest.firstLine) :: rest.lines.tail := by
  rw [lines.eq_4 u rest h.1 h.2, lines_eq_firstLine_cons rest]
  rfl

theorem firstLine_cons {u : UInt16} {rest : Text} (h : NoEndAt u rest) :
    firstLine (u :: rest) = u :: rest.firstLine := by
  rw [firstLine, lines_cons h]
  rfl

/-- What stands behind an offset on its line is the first line of the rest of the text. -/
theorem exists_line_placeOf (t : Text) {offset : Nat} (hoffset : offset ≤ t.length) :
    ∃ line, t.lines[(t.placeOf offset).line]? = some line ∧
      line.drop (t.placeOf offset).column = firstLine (t.drop offset) := by
  induction t using lineInduction generalizing offset with
  | nil =>
    obtain rfl : offset = 0 := by simpa using hoffset
    exact ⟨[], by simp⟩
  | lineFeed rest ih =>
    rcases offset with - | offset
    · exact ⟨[], by simp⟩
    · obtain ⟨line, hline, hdrop⟩ := ih (by simpa using hoffset)
      refine ⟨line, ?_, ?_⟩
      · simpa [placeOf_lineFeed_cons, lines] using hline
      · simpa [placeOf_lineFeed_cons] using hdrop
  | pair rest ih =>
    have hreturn : (0x0D : UInt16) ≠ 0x0A := by decide
    rcases offset with - | - | offset
    · exact ⟨[], by simp⟩
    · refine ⟨[], ?_, ?_⟩ <;> simp [placeOf_cons hreturn, Position.afterUnit]
    · obtain ⟨line, hline, hdrop⟩ := ih (by simpa using hoffset)
      refine ⟨line, ?_, ?_⟩
      · simpa [placeOf_cons hreturn, placeOf_lineFeed_cons, lines] using hline
      · simpa [placeOf_cons hreturn, placeOf_lineFeed_cons] using hdrop
  | unit u rest hu ih =>
    rcases offset with - | offset
    · exact ⟨u :: rest.firstLine, by simp [lines_cons hu, firstLine_cons hu]⟩
    · obtain ⟨line, hline, hdrop⟩ := ih (by simpa using hoffset)
      rw [placeOf_cons hu.1, lines_cons hu]
      by_cases hfirst : (placeOf rest offset).line = 0
      · refine ⟨u :: rest.firstLine, by simp [hfirst], ?_⟩
        rw [hfirst, lines_eq_firstLine_cons rest] at hline
        obtain rfl : rest.firstLine = line := by simpa using hline
        simpa [Position.afterUnit, hfirst] using hdrop
      · obtain ⟨n, hn⟩ := Nat.exists_eq_succ_of_ne_zero hfirst
        refine ⟨line, ?_, ?_⟩
        · rw [hn, lines_eq_firstLine_cons rest] at hline
          simpa [hn] using hline
        · simpa [Position.afterUnit, hfirst] using hdrop

/-- The first line of a front part of a text starts its first line, unless the part ends between the
two units of a line end. -/
theorem firstLine_take (t : Text) (n : Nat) :
    firstLine (t.take n) <+: t.firstLine ∨
      t.take n = t.firstLine ++ [0x0D] ∧ t[n]? = some 0x0A := by
  induction t using lineInduction generalizing n with
  | nil => simp
  | lineFeed rest _ =>
    left
    cases n <;> simp
  | pair rest _ =>
    rcases n with - | - | n
    · simp
    · right
      simp
    · left
      simp
  | unit u rest hu ih =>
    rcases n with - | n
    · left
      simp
    · rw [List.take_succ_cons, firstLine_cons (hu.take n), firstLine_cons hu]
      rcases ih n with hfirst | ⟨htake, hnext⟩
      · left
        simpa using hfirst
      · right
        simpa using ⟨htake, hnext⟩

end Text

namespace LineTable

/-! ## Positions in a table -/

theorem lineBelow_succ (starts : Array Nat) (offset count : Nat) :
    lineBelow starts offset (count + 1) =
      if starts[count]?.any (· ≤ offset) then count else lineBelow starts offset count := by
  rw [lineBelow]
  cases starts[count]? <;> simp

theorem lineBelow_lt {starts : Array Nat} {offset count : Nat} (hcount : 0 < count) :
    lineBelow starts offset count < count := by
  induction count with
  | zero => omega
  | succ count ih =>
    rw [lineBelow_succ]
    split
    · omega
    · rcases Nat.eq_zero_or_pos count with rfl | hpos
      · simp [lineBelow]
      · exact (ih hpos).trans (Nat.lt_succ_self count)

/-- The table whose further lines start at the given offsets, each moved by a distance. -/
def moved (distance : Nat) (starts : List Nat) : LineTable :=
  ⟨(0 :: starts.map (· + distance)).toArray⟩

section Moved

variable (distance : Nat) (starts : List Nat)

@[simp] theorem size_moved : (moved distance starts).starts.size = starts.length + 1 := by
  simp [moved]

@[simp] theorem getElem?_moved_succ (i : Nat) :
    (moved distance starts).starts[i + 1]? = starts[i]?.map (· + distance) := by
  simp [moved]

theorem exists_start_of_lineBelow {offset line : Nat}
    (h : lineBelow (moved distance starts).starts offset (starts.length + 1) = line + 1) :
    ∃ start, starts[line]? = some start := by
  have hlt : lineBelow (moved distance starts).starts offset (starts.length + 1) <
      starts.length + 1 := lineBelow_lt (Nat.succ_pos _)
  exact ⟨_, List.getElem?_eq_getElem (by omega)⟩

theorem position_moved_of_lt {offset : Nat} (h : offset < distance) :
    (moved distance starts).position offset = ⟨0, offset⟩ := by
  have hline (count : Nat) : lineBelow (moved distance starts).starts offset count = 0 := by
    induction count with
    | zero => rfl
    | succ count ih =>
      rw [lineBelow_succ, ih]
      rcases count with - | count
      · simp
      · cases hstart : starts[count]? <;> simp [hstart]
        omega
  rw [position, hline]
  rfl

/-- Moving the lines and the offset by one unit leaves the place, but for the first line. -/
theorem position_moved_unit (offset : Nat) :
    (moved 1 starts).position (offset + 1) = ((moved 0 starts).position offset).afterUnit := by
  have hline (count : Nat) : lineBelow (moved 1 starts).starts (offset + 1) count =
      lineBelow (moved 0 starts).starts offset count := by
    induction count with
    | zero => rfl
    | succ count ih =>
      rw [lineBelow_succ, lineBelow_succ, ih]
      rcases count with - | count
      · simp [moved]
      · cases hstart : starts[count]? <;> simp [hstart]
  simp only [position, size_moved, hline, Position.afterUnit]
  rcases hbelow : lineBelow (moved 0 starts).starts offset (starts.length + 1) with - | line
  · simp [moved]
  · obtain ⟨start, hstart⟩ := exists_start_of_lineBelow 0 starts hbelow
    simp [hstart]

/-- Behind a further line in front, the place is one line further down. -/
theorem position_moved_line (offset : Nat) :
    (moved distance (0 :: starts)).position (offset + distance) =
      ((moved 0 starts).position offset).afterLine := by
  have hline (count : Nat) :
      lineBelow (moved distance (0 :: starts)).starts (offset + distance) (count + 2) =
        lineBelow (moved 0 starts).starts offset (count + 1) + 1 := by
    induction count with
    | zero => simp [moved, lineBelow_succ]
    | succ count ih =>
      rw [lineBelow_succ, ih, lineBelow_succ _ _ (count + 1)]
      cases hstart : starts[count]? <;> simp [hstart]
      split <;> rfl
  simp only [position, size_moved, List.length_cons, hline, Position.afterLine]
  rcases hbelow : lineBelow (moved 0 starts).starts offset (starts.length + 1) with - | line
  · simp [moved]
  · obtain ⟨start, hstart⟩ := exists_start_of_lineBelow 0 starts hbelow
    simp [hstart, Nat.add_sub_add_right]

end Moved

/-! ## Rows -/

theorem rowsFrom_add (t : Text) (offset distance : Nat) :
    rowsFrom (offset + distance) t = (rowsFrom offset t).map (· + distance) := by
  induction t generalizing offset with
  | nil => rfl
  | cons u rest ih =>
    simp only [rowsFrom, Nat.add_right_comm offset distance 1, ih]
    split <;> rfl

theorem ofRows_eq_moved (t : Text) : ofRows t = moved 0 (rowsFrom 0 t) := by
  simp [ofRows, moved]

theorem ofRows_cons (u : UInt16) (rest : Text) : ofRows (u :: rest) =
    moved 1 (if u = 0x0A then 0 :: rowsFrom 0 rest else rowsFrom 0 rest) := by
  have hrest : rowsFrom 1 rest = (rowsFrom 0 rest).map (· + 1) := by
    simpa using rowsFrom_add rest 0 1
  by_cases hu : u = 0x0A <;> simp [ofRows, moved, rowsFrom, hu, hrest]

/-- Rows number the lines of a text. -/
theorem position_ofRows (t : Text) {offset : Nat} (hoffset : offset ≤ t.length) :
    (ofRows t).position offset = t.placeOf offset := by
  induction t generalizing offset with
  | nil =>
    obtain rfl : offset = 0 := by simpa using hoffset
    rfl
  | cons u rest ih =>
    rw [ofRows_cons]
    rcases offset with - | offset
    · rw [position_moved_of_lt _ _ Nat.one_pos, Text.placeOf_zero]
    · have hrest := ih (by simpa using hoffset)
      rw [ofRows_eq_moved] at hrest
      split
      · subst u
        rw [position_moved_line, hrest, Text.placeOf_lineFeed_cons]
      · rename_i hu
        rw [position_moved_unit, hrest, Text.placeOf_cons hu]

end LineTable

namespace Text

/-! ## Lone breaks -/

/-- A break that ends a line in a line table and not among the lines of the text. -/
def LoneBreakAt (t : Text) (i : Nat) : Prop :=
  t[i]? = some 0x2028 ∨ t[i]? = some 0x2029 ∨ (t[i]? = some 0x0D ∧ t[i + 1]? ≠ some 0x0A)

instance (t : Text) : DecidablePred t.LoneBreakAt := fun _ =>
  inferInstanceAs (Decidable (_ ∨ _ ∨ (_ ∧ _)))

/-- The number of lone breaks before an offset. -/
def loneBreaks (t : Text) (offset : Nat) : Nat :=
  (List.range offset).countP (t.LoneBreakAt ·)

@[simp] theorem loneBreaks_zero (t : Text) : t.loneBreaks 0 = 0 := rfl

theorem loneBreaks_cons (u : UInt16) (rest : Text) (offset : Nat) :
    loneBreaks (u :: rest) (offset + 1) =
      rest.loneBreaks offset + if LoneBreakAt (u :: rest) 0 then 1 else 0 := by
  have hshift (i : Nat) : LoneBreakAt (u :: rest) (i + 1) ↔ rest.LoneBreakAt i := by
    simp [LoneBreakAt]
  simp [loneBreaks, List.range_succ_eq_map, List.countP_cons, List.countP_map, Function.comp_def,
    hshift]

theorem not_loneBreakAt_lineFeed (rest : Text) : ¬ LoneBreakAt (0x0A :: rest) 0 := by
  simp [LoneBreakAt]

theorem not_loneBreakAt_pair (rest : Text) : ¬ LoneBreakAt (0x0D :: 0x0A :: rest) 0 := by
  simp [LoneBreakAt]

theorem NoEndAt.loneBreakAt_iff {u : UInt16} {rest : Text} (h : NoEndAt u rest) :
    LoneBreakAt (u :: rest) 0 ↔ LineTable.isBreak u = true := by
  have hnext : u = 0x0D → rest[0]? ≠ some 0x0A := by
    intro hu hrest
    rcases rest with - | ⟨v, rest⟩
    · simp at hrest
    · exact h.2 rest hu (by simpa using hrest)
  have hfeed := h.1
  simp only [LoneBreakAt, LineTable.isBreak, List.getElem?_cons_zero, List.getElem?_cons_succ,
    Option.some.injEq, Bool.or_eq_true, beq_iff_eq]
  grind

end Text

namespace LineTable

/-! ## Line tables -/

theorem startsFrom_cons {u : UInt16} {rest : Text}
    (h : ∀ more, u = 0x0D → rest ≠ 0x0A :: more) (offset : Nat) :
    startsFrom offset (u :: rest) =
      if isBreak u then (offset + 1) :: startsFrom (offset + 1) rest
      else startsFrom (offset + 1) rest :=
  startsFrom.eq_3 offset u rest h

theorem startsFrom_add (t : Text) (offset distance : Nat) :
    startsFrom (offset + distance) t = (startsFrom offset t).map (· + distance) := by
  induction t using Text.lineInduction generalizing offset with
  | nil => simp [startsFrom]
  | lineFeed rest ih =>
    have hfeed : ∀ more, (0x0A : UInt16) = 0x0D → rest ≠ 0x0A :: more := by simp
    simp [startsFrom_cons hfeed, isBreak, Nat.add_right_comm offset distance 1, ih]
  | pair rest ih => simp [startsFrom, Nat.add_right_comm offset distance 2, ih]
  | unit u rest hu ih =>
    simp only [startsFrom_cons hu.2, Nat.add_right_comm offset distance 1, ih]
    split <;> rfl

theorem startsFrom_eq_map (t : Text) (distance : Nat) :
    startsFrom distance t = (startsFrom 0 t).map (· + distance) := by
  simpa using startsFrom_add t 0 distance

theorem ofText_eq_moved (t : Text) : ofText t = moved 0 (startsFrom 0 t) := by
  simp [ofText, moved]

theorem ofText_lineFeed_cons (rest : Text) :
    ofText (0x0A :: rest) = moved 1 (0 :: startsFrom 0 rest) := by
  have hfeed : ∀ more, (0x0A : UInt16) = 0x0D → rest ≠ 0x0A :: more := by simp
  simp [ofText, moved, startsFrom_cons hfeed, isBreak, startsFrom_eq_map rest 1]

theorem ofText_pair_cons (rest : Text) :
    ofText (0x0D :: 0x0A :: rest) = moved 2 (0 :: startsFrom 0 rest) := by
  simp [ofText, moved, startsFrom, startsFrom_eq_map rest 2]

theorem ofText_cons {u : UInt16} {rest : Text} (h : Text.NoEndAt u rest) : ofText (u :: rest) =
    moved 1 (if isBreak u then 0 :: startsFrom 0 rest else startsFrom 0 rest) := by
  by_cases hu : isBreak u = true <;>
    simp [ofText, moved, startsFrom_cons h.2, hu, startsFrom_eq_map rest 1]

/-- A place is numbered with some breaks too many: each of them counts as a line, and without any
the place is the right one. -/
def CountsBreaks (found place : Position) (breaks : Nat) : Prop :=
  found.line = place.line + breaks ∧ (breaks = 0 → found = place)

theorem CountsBreaks.afterLine {found place : Position} {breaks : Nat}
    (h : CountsBreaks found place breaks) :
    CountsBreaks found.afterLine place.afterLine breaks := by
  refine ⟨?_, fun hnone => by rw [h.2 hnone]⟩
  have := h.1
  simp only [Position.line_afterLine]
  omega

theorem CountsBreaks.afterUnit {found place : Position} {breaks : Nat}
    (h : CountsBreaks found place breaks) :
    CountsBreaks found.afterUnit place.afterUnit breaks :=
  ⟨by simpa using h.1, fun hnone => by rw [h.2 hnone]⟩

theorem CountsBreaks.afterBreak {found place : Position} {breaks : Nat}
    (h : CountsBreaks found place breaks) :
    CountsBreaks found.afterLine place.afterUnit (breaks + 1) := by
  refine ⟨?_, fun hnone => absurd hnone (Nat.succ_ne_zero breaks)⟩
  have := h.1
  simp only [Position.line_afterLine, Position.line_afterUnit]
  omega

theorem CountsBreaks.eq_iff {found place : Position} {breaks : Nat}
    (h : CountsBreaks found place breaks) : found = place ↔ breaks = 0 := by
  refine ⟨fun heq => ?_, h.2⟩
  have := h.1
  rw [heq] at this
  omega

theorem CountsBreaks.eq_afterUnit_iff {found place : Position} {breaks : Nat}
    (h : CountsBreaks found place breaks) :
    found = place.afterUnit ↔ breaks = 0 ∧ place.line ≠ 0 := by
  constructor
  · intro heq
    have hnone : breaks = 0 := by
      have := h.1
      rw [heq, Position.line_afterUnit] at this
      omega
    refine ⟨hnone, fun hline => ?_⟩
    rw [h.2 hnone, Position.afterUnit, if_pos hline] at heq
    have := congrArg Position.column heq
    simp at this
  · rintro ⟨hnone, hline⟩
    rw [h.2 hnone, Position.afterUnit, if_neg hline]

/-- A line table counts every lone break before an offset as one more line, and gives the offset its
place among the lines of the text when there is none. -/
theorem countsBreaks_position_ofText (t : Text) {offset : Nat} (hoffset : offset ≤ t.length) :
    CountsBreaks ((ofText t).position offset) (t.placeOf offset) (t.loneBreaks offset) := by
  have hstart : CountsBreaks ⟨0, 0⟩ ⟨0, 0⟩ 0 := ⟨rfl, fun _ => rfl⟩
  induction t using Text.lineInduction generalizing offset with
  | nil =>
    obtain rfl : offset = 0 := by simpa using hoffset
    exact hstart
  | lineFeed rest ih =>
    rw [ofText_lineFeed_cons]
    rcases offset with - | offset
    · rw [position_moved_of_lt _ _ Nat.one_pos, Text.placeOf_zero]
      exact hstart
    · rw [position_moved_line, ← ofText_eq_moved, Text.placeOf_lineFeed_cons, Text.loneBreaks_cons,
        if_neg (Text.not_loneBreakAt_lineFeed rest)]
      exact (ih (by simpa using hoffset)).afterLine
  | pair rest ih =>
    have hreturn : (0x0D : UInt16) ≠ 0x0A := by decide
    rw [ofText_pair_cons]
    rcases offset with - | - | offset
    · rw [position_moved_of_lt _ _ Nat.two_pos, Text.placeOf_zero]
      exact hstart
    · rw [position_moved_of_lt _ _ Nat.one_lt_two, Text.placeOf_cons hreturn, Text.placeOf_zero,
        Text.loneBreaks_cons, if_neg (Text.not_loneBreakAt_pair rest)]
      exact hstart.afterUnit
    · rw [position_moved_line, ← ofText_eq_moved, Text.placeOf_cons hreturn,
        Text.placeOf_lineFeed_cons, Position.afterUnit_afterLine, Text.loneBreaks_cons,
        if_neg (Text.not_loneBreakAt_pair rest), Text.loneBreaks_cons,
        if_neg (Text.not_loneBreakAt_lineFeed rest)]
      exact (ih (by simpa using hoffset)).afterLine
  | unit u rest hu ih =>
    rw [ofText_cons hu]
    rcases offset with - | offset
    · rw [position_moved_of_lt _ _ Nat.one_pos, Text.placeOf_zero]
      exact hstart
    · have hrest := @ih offset (by simpa using hoffset)
      rw [Text.placeOf_cons hu.1, Text.loneBreaks_cons]
      by_cases hbreak : isBreak u = true
      · rw [if_pos hbreak, if_pos (hu.loneBreakAt_iff.mpr hbreak), position_moved_line,
          ← ofText_eq_moved]
        exact hrest.afterBreak
      · rw [if_neg hbreak, if_neg (mt hu.loneBreakAt_iff.mp hbreak), position_moved_unit,
          ← ofText_eq_moved]
        exact hrest.afterUnit

end LineTable

end CloneScan
