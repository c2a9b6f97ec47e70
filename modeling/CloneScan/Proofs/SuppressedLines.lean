import Mathlib.Data.List.Basic
import CloneScan.Suppression

/-!
# Suppressed lines

Which lines are suppressed can be read off the directives of a file without following the scan that
opens and closes blocks: a directive for the whole file suppresses every line, one for a line or the
next line suppresses that line, and the start of a block suppresses the lines from its own on up to
the first end behind it.  Directives stand in the order of their lines, so starts inside a block add
nothing to it and the first end closes all of them.
-/

namespace CloneScan.Suppression

variable {file rule : Text} {line last : Nat} {d : SuppressionDirective}
  {ds : List SuppressionDirective}

/-! ## What directives suppress -/

/-- A directive of a scope that is for a rule. -/
structure IsFor (d : SuppressionDirective) (scope : SuppressionScope) (rule : Text) : Prop where
  scope : d.scope = scope
  applies : appliesTo d rule = true

/-- No block ends in front of a line. -/
def NoEndBefore (line : Nat) (ds : List SuppressionDirective) : Prop :=
  ∀ d ∈ ds, d.scope = .stop → ¬ d.line < line

/-- A block starts no later than the line, and no later directive ends a block in front of it. -/
def InBlock (ds : List SuppressionDirective) (rule : Text) (line : Nat) : Prop :=
  ∃ before d after, ds = before ++ d :: after ∧ IsFor d .start rule ∧ d.line ≤ line ∧
    NoEndBefore line after

/-- A directive for the line, or one for the next line in front of it. -/
def OnLine (ds : List SuppressionDirective) (rule : Text) (line : Nat) : Prop :=
  (∃ d ∈ ds, IsFor d .line rule ∧ d.line = line) ∨
    ∃ d ∈ ds, IsFor d .nextLine rule ∧ d.line + 1 = line

/-- The directives of a file suppress a rule on a line. -/
def Suppresses (ds : List SuppressionDirective) (rule : Text) (line : Nat) : Prop :=
  (∃ d ∈ ds, IsFor d .file rule) ∨ OnLine ds rule line ∨ InBlock ds rule line

/-- A line lies in one of the ranges. -/
def Covers (ranges : List Location) (line : Nat) : Prop :=
  ∃ r ∈ ranges, r.startLine ≤ line ∧ line ≤ r.endLine

/-- A directive for a rule has one scope. -/
theorem IsFor.iff {scope other : SuppressionScope} (hd : IsFor d scope rule) :
    IsFor d other rule ↔ scope = other :=
  ⟨fun hother => hd.scope.symm.trans hother.scope, fun h => h ▸ hd⟩

theorem noEndBefore_cons :
    NoEndBefore line (d :: ds) ↔ (d.scope = .stop → ¬ d.line < line) ∧ NoEndBefore line ds :=
  List.forall_mem_cons

theorem onLine_cons :
    OnLine (d :: ds) rule line ↔
      IsFor d .line rule ∧ d.line = line ∨ IsFor d .nextLine rule ∧ d.line + 1 = line ∨
        OnLine ds rule line := by
  simp only [OnLine, List.mem_cons, or_and_right, exists_or, exists_eq_left, or_assoc, or_left_comm]

theorem inBlock_cons :
    InBlock (d :: ds) rule line ↔
      IsFor d .start rule ∧ d.line ≤ line ∧ NoEndBefore line ds ∨ InBlock ds rule line := by
  constructor
  · rintro ⟨_ | ⟨first, before⟩, start, after, hsplit, hfor, hline, hend⟩
    · obtain ⟨rfl, rfl⟩ := List.cons.inj hsplit
      exact .inl ⟨hfor, hline, hend⟩
    · obtain ⟨rfl, rfl⟩ := List.cons.inj hsplit
      exact .inr ⟨before, start, after, rfl, hfor, hline, hend⟩
  · rintro (⟨hfor, hline, hend⟩ | ⟨before, start, after, rfl, hfor, hline, hend⟩)
    · exact ⟨[], d, ds, rfl, hfor, hline, hend⟩
    · exact ⟨d :: before, start, after, rfl, hfor, hline, hend⟩

theorem covers_append {ranges more : List Location} :
    Covers (ranges ++ more) line ↔ Covers ranges line ∨ Covers more line := by
  simp only [Covers, List.mem_append, or_and_right, exists_or]

theorem covers_singleton {r : Location} :
    Covers [r] line ↔ r.startLine ≤ line ∧ line ≤ r.endLine := by
  simp [Covers]

theorem covers_line {n : Nat} : Covers [⟨file, n, n⟩] line ↔ n = line := by
  rw [covers_singleton]
  simp only [Int.ofNat_le]
  omega

/-! ## The scan over directives -/

section Scan

attribute [local simp] resolve

variable (opened : Option Nat) (found : List Location)

theorem resolve_stop (hd : d.scope = .stop) :
    resolve file rule last opened found (d :: ds) =
      resolve file rule last none (found ++ opened.toList.map fun start : Nat => ⟨file, start, d.line⟩) ds := by
  cases opened <;> simp [hd]

theorem resolve_skip (hd : d.scope ≠ .stop) (happlies : ¬ appliesTo d rule = true) :
    resolve file rule last opened found (d :: ds) = resolve file rule last opened found ds := by
  cases opened <;> simp [hd, happlies]

theorem resolve_file (hd : IsFor d .file rule) :
    resolve file rule last opened found (d :: ds) = [⟨file, 1, last⟩] := by
  cases opened <;> simp [hd.scope, hd.applies]

theorem resolve_line (hd : IsFor d .line rule) :
    resolve file rule last opened found (d :: ds) =
      resolve file rule last opened (found ++ [⟨file, d.line, d.line⟩]) ds := by
  cases opened <;> simp [hd.scope, hd.applies]

theorem resolve_nextLine (hd : IsFor d .nextLine rule) :
    resolve file rule last opened found (d :: ds) =
      resolve file rule last opened (found ++ [⟨file, (d.line + 1 : Nat), (d.line + 1 : Nat)⟩])
        ds := by
  cases opened <;> simp [hd.scope, hd.applies]

/-- A start inside a block leaves the block as it is. -/
theorem resolve_start (hd : IsFor d .start rule) :
    resolve file rule last opened found (d :: ds) =
      resolve file rule last (some (opened.getD d.line)) found ds := by
  cases opened <;> simp [hd.scope, hd.applies]

/-- A directive ends a block, is for something else than the rule, or is for the rule. -/
theorem stop_or_skip_or_isFor (d : SuppressionDirective) (rule : Text) :
    d.scope = .stop ∨ (d.scope ≠ .stop ∧ ¬ appliesTo d rule = true) ∨ IsFor d .file rule ∨
      IsFor d .line rule ∨ IsFor d .nextLine rule ∨ IsFor d .start rule := by
  by_cases happlies : appliesTo d rule = true
  · cases hscope : d.scope with
    | stop => exact .inl rfl
    | file => exact .inr (.inr (.inl ⟨hscope, happlies⟩))
    | line => exact .inr (.inr (.inr (.inl ⟨hscope, happlies⟩)))
    | nextLine => exact .inr (.inr (.inr (.inr (.inl ⟨hscope, happlies⟩))))
    | start => exact .inr (.inr (.inr (.inr (.inr ⟨hscope, happlies⟩))))
  · by_cases hstop : d.scope = .stop
    · exact .inl hstop
    · exact .inr (.inl ⟨hstop, happlies⟩)

/-- A directive for the file makes every other one superfluous. -/
theorem resolve_of_file (h : ∃ d ∈ ds, IsFor d .file rule) :
    resolve file rule last opened found ds = [⟨file, 1, last⟩] := by
  induction ds generalizing opened found with
  | nil => simp at h
  | cons d ds ih =>
      rw [List.exists_mem_cons_iff] at h
      have hrest (hd : ¬ IsFor d .file rule) (opened : Option Nat) (found : List Location) :
          resolve file rule last opened found ds = [⟨file, 1, last⟩] :=
        ih opened found (h.resolve_left hd)
      rcases stop_or_skip_or_isFor d rule with hd | ⟨hd, happlies⟩ | hd | hd | hd | hd
      · rw [resolve_stop opened found hd, hrest fun hfor => by simp [hfor.scope] at hd]
      · rw [resolve_skip opened found hd happlies, hrest fun hfor => happlies hfor.applies]
      · exact resolve_file opened found hd
      · rw [resolve_line opened found hd, hrest fun hfor => nomatch hd.iff.mp hfor]
      · rw [resolve_nextLine opened found hd, hrest fun hfor => nomatch hd.iff.mp hfor]
      · rw [resolve_start opened found hd, hrest fun hfor => nomatch hd.iff.mp hfor]

/-- An open block reaches a line when it starts no later and nothing ends it in front of it. -/
def OpenReaches (opened : Option Nat) (ds : List SuppressionDirective) (line : Nat) : Prop :=
  ∃ start ∈ opened, start ≤ line ∧ NoEndBefore line ds

/-- The first end decides: the ones behind it are on no earlier line. -/
theorem openReaches_stop (file : Text) (hd : d.scope = .stop) (hfirst : ∀ d' ∈ ds, d.line ≤ d'.line) :
    OpenReaches opened (d :: ds) line ↔
      Covers (opened.toList.map fun start : Nat => ⟨file, start, d.line⟩) line := by
  have hend : NoEndBefore line (d :: ds) ↔ line ≤ d.line := by
    rw [noEndBefore_cons]
    constructor
    · rintro ⟨hnot, -⟩
      exact Nat.le_of_not_lt (hnot hd)
    · intro hle
      refine ⟨fun _ => Nat.not_lt.mpr hle, fun d' hd' _ => ?_⟩
      exact Nat.not_lt.mpr (Nat.le_trans hle (hfirst d' hd'))
  simp [OpenReaches, Covers, hend]

theorem openReaches_cons (hd : d.scope ≠ .stop) :
    OpenReaches opened (d :: ds) line ↔ OpenReaches opened ds line := by
  simp [OpenReaches, noEndBefore_cons, hd]

/-- A start inside a block reaches no line that the block does not reach. -/
theorem openReaches_start (hopened : ∀ start ∈ opened, start ≤ d.line) :
    OpenReaches (some (opened.getD d.line)) ds line ↔
      OpenReaches opened ds line ∨ d.line ≤ line ∧ NoEndBefore line ds := by
  cases opened with
  | none => simp [OpenReaches]
  | some start =>
      have hstart : start ≤ d.line := hopened start rfl
      simp only [OpenReaches, Option.getD_some, Option.mem_def, Option.some.injEq,
        exists_eq_left', ← or_and_right]
      have : start ≤ line ↔ start ≤ line ∨ d.line ≤ line :=
        ⟨.inl, fun h => h.elim id (Nat.le_trans hstart)⟩
      rw [← this]

/-- The ranges that the scan is left with cover what it has found so far, the lines of single
directives, and what the open block and the blocks to come reach. -/
theorem covers_resolve (hlast : line ≤ last)
    (hsorted : ds.Pairwise (·.line ≤ ·.line)) (hfile : ∀ d ∈ ds, ¬ IsFor d .file rule)
    (hopened : ∀ start ∈ opened, ∀ d ∈ ds, start ≤ d.line) :
    Covers (resolve file rule last opened found ds) line ↔
      Covers found line ∨ OnLine ds rule line ∨ OpenReaches opened ds line ∨
        InBlock ds rule line := by
  induction ds generalizing opened found with
  | nil =>
      -- an open block runs to the last line
      cases opened with
      | none => simp [OnLine, OpenReaches, InBlock]
      | some start =>
          simp only [resolve, covers_append, covers_singleton]
          simp [OnLine, OpenReaches, InBlock, NoEndBefore, hlast]
  | cons d ds ih =>
      obtain ⟨hfirst, hsorted⟩ := List.pairwise_cons.mp hsorted
      obtain ⟨hnot, hfile⟩ := List.forall_mem_cons.mp hfile
      have hbehind : ∀ start ∈ opened, start ≤ d.line ∧ ∀ d' ∈ ds, start ≤ d'.line :=
        fun start hstart => List.forall_mem_cons.mp (hopened start hstart)
      have hrest := fun found => ih opened found hsorted hfile fun start h => (hbehind start h).2
      rcases stop_or_skip_or_isFor d rule with hd | ⟨hd, happlies⟩ | hd | hd | hd | hd
      · have hfor scope (hne : scope ≠ .stop) : ¬ IsFor d scope rule :=
          fun h => hne (h.scope.symm.trans hd)
        rw [resolve_stop opened found hd, ih none _ hsorted hfile (fun _ h => nomatch h),
          covers_append, onLine_cons, inBlock_cons, openReaches_stop opened file hd hfirst]
        simp [hfor, OpenReaches, or_assoc, or_left_comm]
      · have hfor scope : ¬ IsFor d scope rule := fun h => happlies h.applies
        rw [resolve_skip opened found hd happlies, hrest, openReaches_cons opened hd, onLine_cons,
          inBlock_cons]
        simp [hfor]
      · exact absurd hd hnot
      · rw [resolve_line opened found hd, hrest, openReaches_cons opened (by simp [hd.scope]),
          covers_append, covers_line, onLine_cons, inBlock_cons]
        simp [hd.iff, or_assoc]
      · rw [resolve_nextLine opened found hd, hrest, openReaches_cons opened (by simp [hd.scope]),
          covers_append, covers_line, onLine_cons, inBlock_cons]
        simp [hd.iff, or_assoc]
      · have hopened : ∀ start ∈ opened, start ≤ d.line := fun start h => (hbehind start h).1
        have hfirst : ∀ start ∈ some (opened.getD d.line), ∀ d' ∈ ds, start ≤ d'.line := by
          rintro _ ⟨⟩ d' hd'
          cases opened with
          | none => exact hfirst d' hd'
          | some start => exact (hbehind start rfl).2 d' hd'
        rw [resolve_start opened found hd, ih _ found hsorted hfile hfirst,
          openReaches_start opened hopened, openReaches_cons opened (by simp [hd.scope]),
          onLine_cons, inBlock_cons]
        simp [hd.iff, or_assoc]

end Scan

/-! ## The directives of a source text -/

theorem line_of_directive? {number : Nat} {scope : SuppressionScope} {listed : Text}
    (hd : directive? number scope listed = some d) : d.line = number := by
  grind [directive?]

theorem line_of_mem_lineDirectives {number : Nat} {text : Text}
    (hd : d ∈ lineDirectives number text) : d.line = number := by
  unfold lineDirectives at hd
  split at hd
  · obtain ⟨m, -, hm⟩ := List.mem_filterMap.mp hd
    exact line_of_directive? hm
  · simp at hd

/-- Directives are in the order of their lines. -/
theorem pairwise_directives (source : Text) :
    (directives source).Pairwise (·.line ≤ ·.line) := by
  refine List.pairwise_flatten.mpr ⟨fun ds hds => ?_, List.pairwise_iff_getElem.mpr ?_⟩
  · obtain ⟨i, hi, rfl⟩ := List.mem_mapIdx.mp hds
    apply List.pairwise_of_forall_mem_list
    intro d hd d' hd'
    have hsame := (line_of_mem_lineDirectives hd).trans (line_of_mem_lineDirectives hd').symm
    exact Nat.le_of_eq hsame
  · intro i j hi hj hij d hd d' hd'
    rw [List.getElem_mapIdx] at hd hd'
    have hline := line_of_mem_lineDirectives hd
    have hline' := line_of_mem_lineDirectives hd'
    omega

theorem covers_ranges (file : Text) {source : Text} (hstart : 1 ≤ line) (hlast : line ≤ last) :
    Covers (resolve file rule last none [] (directives source)) line ↔
      Suppresses (directives source) rule line := by
  by_cases hfile : ∃ d ∈ directives source, IsFor d .file rule
  · rw [resolve_of_file none [] hfile, covers_singleton]
    have : (1 : Int) ≤ line ∧ (line : Int) ≤ last := by omega
    exact iff_of_true this (.inl hfile)
  · have hnot : ∀ d ∈ directives source, ¬ IsFor d .file rule :=
      fun d hd hfor => hfile ⟨d, hd, hfor⟩
    rw [covers_resolve none [] hlast (pairwise_directives source) hnot (fun _ h => nomatch h)]
    simp [Suppresses, hfile, Covers, OpenReaches]

theorem isSuppressed_iff_covers {ds : List SuppressionDirective} :
    isSuppressed rule line ds = true ↔ Covers (resolve [] rule farLine none [] ds) line := by
  simp [isSuppressed, Covers]

/-- A line of a file is in a suppressed range, and is reported as suppressed, exactly when the
directives of the file say so.  The report takes `farLine` for the last line, so the second part
stops there. -/
theorem suppressed_iff (file source rule : Text) (line : Nat) (hstart : 1 ≤ line)
    (hlast : line ≤ source.lines.length) :
    (Covers (ranges file source rule) line ↔ Suppresses (directives source) rule line) ∧
      (line ≤ farLine →
        (isSuppressed rule line (directives source) = true ↔
          Suppresses (directives source) rule line)) := by
  constructor
  · exact covers_ranges file hstart hlast
  · intro hfar
    rw [isSuppressed_iff_covers]
    exact covers_ranges [] hstart hfar

/-- A stray end, and a block with a start inside it. -/
def nestedBlocks : Text :=
  Text.ofString "// twinscan-ignore-end\n// twinscan-ignore-start\na\n" ++
    Text.ofString "// twinscan-ignore-start\n// twinscan-ignore-end\nb\n"

theorem suppressed_iff_nested :
    1 ≤ 3 ∧ 3 ≤ nestedBlocks.lines.length ∧ 3 ≤ farLine ∧
      Covers (ranges [] nestedBlocks duplicateRule) 3 ∧
      isSuppressed duplicateRule 3 (directives nestedBlocks) = true ∧
      Suppresses (directives nestedBlocks) duplicateRule 3 := by
  have hlast : 3 ≤ nestedBlocks.lines.length := by decide +kernel
  have hfar : 3 ≤ farLine := by decide
  have hcovers : Covers (ranges [] nestedBlocks duplicateRule) 3 :=
    ⟨⟨[], 2, 5⟩, by decide +kernel, by decide, by decide⟩
  obtain ⟨hranges, hreport⟩ := suppressed_iff [] nestedBlocks duplicateRule 3 (by decide) hlast
  have hsuppresses := hranges.mp hcovers
  exact ⟨by decide, hlast, hfar, hcovers, (hreport hfar).mpr hsuppresses, hsuppresses⟩

end CloneScan.Suppression
