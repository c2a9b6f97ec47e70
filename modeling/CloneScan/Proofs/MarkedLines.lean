import CloneScan.Proofs.DirectiveStarts
import CloneScan.Proofs.LinePlaces
import CloneScan.Proofs.SuppressedLines
import CloneScan.Scan

/-!
# Lines with a marker

The search for directives looks at a line only when the marker stands on it in small letters, while
the pattern of a directive reads capital and small letters alike.  So what is found are the
directives of the pattern on the lines that pass this check, and a directive is lost when no marker
on its line is written in small letters.  The same check on the whole file loses nothing: a file
without the marker has no line with it, and so no suppressed range.
-/

namespace CloneScan

namespace Text

theorem includes_iff {t part : Text} : t.includes part = true ↔ part <:+: t := by
  induction t with
  | nil => simp [includes]
  | cons u t ih => rw [includes, Bool.or_eq_true, ih, List.isPrefixOf_iff_prefix, List.infix_cons_iff]

theorem firstLine_isPrefix (t : Text) : t.firstLine <+: t := by
  induction t using lineInduction with
  | nil => simp
  | lineFeed rest _ => simp
  | pair rest _ => simp
  | unit u rest hu ih =>
      rw [firstLine_cons hu]
      exact (List.prefix_cons_inj u).mpr ih

theorem isInfix_of_mem_lines {t line : Text} (hline : line ∈ t.lines) : line <:+: t := by
  induction t using lineInduction with
  | nil => simpa [lines] using hline
  | lineFeed rest ih =>
      rcases List.mem_cons.mp hline with rfl | hline
      · exact List.nil_infix
      · exact (ih hline).trans (List.suffix_cons _ _).isInfix
  | pair rest ih =>
      rcases List.mem_cons.mp hline with rfl | hline
      · exact List.nil_infix
      · apply (ih hline).trans
        exact ((List.suffix_cons _ _).trans (List.suffix_cons _ _)).isInfix
  | unit u rest hu ih =>
      rw [lines_cons hu] at hline
      rcases List.mem_cons.mp hline with rfl | hline
      · exact ((List.prefix_cons_inj u).mpr (firstLine_isPrefix rest)).isInfix
      · exact (ih (List.mem_of_mem_tail hline)).trans (List.suffix_cons _ _).isInfix

end Text

namespace Suppression

variable {source line : Text} {d : SuppressionDirective} {number : Nat}

/-- The directives that the pattern finds on a line, whatever the line holds. -/
def patternDirectives (number : Nat) (line : Text) : List SuppressionDirective :=
  (matches? line.length line).filterMap fun m => directive? number m.1 m.2

/-- The directives that the pattern finds in a source text. -/
def allDirectives (source : Text) : List SuppressionDirective :=
  (source.lines.mapIdx fun i line => patternDirectives (i + 1) line).flatten

/-- Whether the marker stands in small letters on the line of a directive. -/
def isMarked (source : Text) (d : SuppressionDirective) : Bool :=
  (source.lines.getD (d.line - 1) []).includes marker

theorem line_of_mem_patternDirectives (hd : d ∈ patternDirectives number line) :
    d.line = number := by
  obtain ⟨m, -, hm⟩ := List.mem_filterMap.mp hd
  exact line_of_directive? hm

theorem exists_occurs_of_mem_patternDirectives (hd : d ∈ patternDirectives number line) :
    ∃ p, Occurs line p := by
  obtain ⟨m, hm, -⟩ := List.mem_filterMap.mp hd
  have hstarts : matches? line.length (line.drop 0) =
      (startsFrom line line.length 0).filterMap fun q =>
        (matchHere? (line.drop q)).map fun m => (m.1, m.2.1) := matches?_eq line.length 0
  rw [List.drop_zero] at hstarts
  rw [hstarts] at hm
  obtain ⟨p, hp, -⟩ := List.mem_filterMap.mp hm
  exact ⟨p, ((mem_startsFrom_iff (Nat.le_add_left _ 0)).mp hp).2.1⟩

theorem includes_of_marker_at {p : Nat} (hp : (line.drop p).take marker.length = marker) :
    line.includes marker = true := by
  rw [Text.includes_iff, ← hp]
  exact (List.take_prefix _ _).isInfix.trans (List.drop_suffix _ _).isInfix

theorem mem_allDirectives (hd : d ∈ allDirectives source) :
    ∃ line, source.lines[d.line - 1]? = some line ∧ d ∈ patternDirectives d.line line := by
  obtain ⟨ds, hds, hd⟩ := List.mem_flatten.mp hd
  obtain ⟨i, hi, rfl⟩ := List.mem_mapIdx.mp hds
  have hline : d.line = i + 1 := line_of_mem_patternDirectives hd
  refine ⟨source.lines[i], ?_, hline ▸ hd⟩
  rw [hline, Nat.add_sub_cancel, List.getElem?_eq_getElem hi]

theorem isMarked_of_mem {i : Nat} (hi : i < source.lines.length)
    (hd : d ∈ patternDirectives (i + 1) source.lines[i]) :
    isMarked source d = source.lines[i].includes marker := by
  rw [isMarked, line_of_mem_patternDirectives hd, Nat.add_sub_cancel,
    List.getD_eq_getElem?_getD, List.getElem?_eq_getElem hi, Option.getD_some]

theorem lineDirectives_eq_filter {i : Nat} (hi : i < source.lines.length) :
    lineDirectives (i + 1) source.lines[i] =
      (patternDirectives (i + 1) source.lines[i]).filter (isMarked source) := by
  symm
  rw [lineDirectives]
  split
  case isTrue hmarker =>
      apply List.filter_eq_self.mpr
      intro d hd
      rw [isMarked_of_mem hi hd, hmarker]
  case isFalse hmarker =>
      apply List.filter_eq_nil_iff.mpr
      intro d hd
      rwa [isMarked_of_mem hi hd]

theorem directives_eq_filter (source : Text) :
    directives source = (allDirectives source).filter (isMarked source) := by
  rw [directives, allDirectives, List.filter_flatten]
  congr 1
  apply List.ext_getElem
  · simp
  · intro i hi _
    rw [List.length_mapIdx] at hi
    simp only [List.getElem_mapIdx, List.getElem_map]
    exact lineDirectives_eq_filter hi

theorem ranges_of_not_includes (file rule : Text) (h : source.includes marker = false) :
    ranges file source rule = [] := by
  have hnone : directives source = [] := by
    apply List.flatten_eq_nil_iff.mpr
    intro ds hds
    obtain ⟨i, hi, rfl⟩ := List.mem_mapIdx.mp hds
    rw [lineDirectives, if_neg]
    intro hmarker
    have hsource := (Text.includes_iff.mp hmarker).trans
      (Text.isInfix_of_mem_lines (List.getElem_mem hi))
    rw [Text.includes_iff.mpr hsource] at h
    cases h
  rw [ranges, hnone, resolve]

/-- The check of a line keeps exactly the directives on lines with the marker in small letters, and
what it loses stands on a line on which every marker of a directive has a capital letter.  The check
of a whole file loses no range. -/
theorem directives_eq_allDirectives_iff (source : Text) :
    directives source = (allDirectives source).filter (isMarked source) ∧
      (directives source = allDirectives source ↔
        ∀ d ∈ allDirectives source, isMarked source d = true) ∧
      (∀ d ∈ allDirectives source, isMarked source d = false →
        ∃ line, source.lines[d.line - 1]? = some line ∧ (∃ p, Occurs line p) ∧
          ∀ p, Occurs line p → (line.drop p).take marker.length ≠ marker) ∧
      (∀ file rule, ranges file source rule ≠ [] → source.includes marker = true) ∧
      ∀ config path, FileTask.inlineSuppressed config path source =
        if config.scan.inlineSuppressions then ranges path source duplicateRule else [] := by
  refine ⟨directives_eq_filter source, ?_, ?_, ?_, ?_⟩
  · rw [directives_eq_filter]
    exact List.filter_eq_self
  · intro d hd hlost
    obtain ⟨line, hline, hfound⟩ := mem_allDirectives hd
    refine ⟨line, hline, exists_occurs_of_mem_patternDirectives hfound, fun p _ hp => ?_⟩
    rw [isMarked, List.getD_eq_getElem?_getD, hline, Option.getD_some,
      includes_of_marker_at hp] at hlost
    cases hlost
  · intro file rule hranges
    rw [← Bool.not_eq_false]
    exact fun hnone => hranges (ranges_of_not_includes file rule hnone)
  · intro config path
    rw [FileTask.inlineSuppressed]
    cases hmarker : source.includes marker with
    | true => rw [Bool.and_true]
    | false => simp [ranges_of_not_includes path duplicateRule hmarker]

/-- A directive in capital letters is found by the pattern and lost by the check of its line. -/
theorem directives_ne_allDirectives_capitals :
    let source := Text.ofString "// TWINSCAN-IGNORE-LINE ALL\n"
    directives source = [] ∧ allDirectives source = [⟨.line, true, [], 1⟩] ∧
      ranges [] source duplicateRule = [] := by
  decide +kernel

end Suppression

end CloneScan
