import CloneScan.Proofs.LinePlaces
import CloneScan.Report.Reporter

/-!
# What filters remember

A filter derives something from a file the first time it is asked about it, the lines of imports or
the spans of calls, and uses that for every later block of the path.  Its answer is therefore that of
a new filter as long as what it remembers shows the same of the file as its current text does.  Over
a history of contexts this holds for every session of calls exactly when no file that was seen before
comes to show something else.
-/

namespace CloneScan

theorem remembered_spec {α : Type} {P : Text → α → Prop} {memory : List (Text × α)} {path : Text}
    (compute : Unit → α) (hmemory : ∀ e ∈ memory, P e.1 e.2) (hcompute : P path (compute ())) :
    P path (remembered memory path compute).1 ∧
      ∀ e ∈ (remembered memory path compute).2, P e.1 e.2 := by
  unfold remembered
  split
  case h_1 e he =>
      have hpath : e.1 = path := by simpa using List.find?_some he
      exact ⟨hpath ▸ hmemory e (List.mem_of_find?_eq_some he), hmemory⟩
  case h_2 =>
      refine ⟨hcompute, fun e he => ?_⟩
      rcases List.mem_append.mp he with he | he
      · exact hmemory e he
      · rw [List.mem_singleton.mp he]
        exact hcompute

theorem onlyMarked_iff {span : LineSpan} {marks : List Bool} {lines : List Text} {k : Nat} :
    onlyMarked span marks (k + 1) lines = true ↔
      ∀ (i : Nat) (line : Text), lines[i]? = some line → span.startLine ≤ (k + i + 1 : Nat) →
        (k + i + 1 : Nat) ≤ span.endLine → line.allBlank = false →
          marks.getD (k + i) false = true := by
  induction lines generalizing k with
  | nil => simp [onlyMarked]
  | cons first lines ih =>
      have hnext : ((k : Int) + 1 + 1) = ((k + 1 : Nat) : Int) + 1 := by push_cast; rfl
      rw [onlyMarked, Bool.and_eq_true, hnext, ih]
      have hplace : ((k : Int) + 1 - 1).toNat = k := by omega
      simp only [hplace, Bool.or_eq_true, decide_eq_true_eq]
      constructor
      · rintro ⟨hfirst, hrest⟩ i line hline hstart hstop hblank
        cases i with
        | zero =>
            obtain rfl : first = line := by simpa using hline
            rw [hblank] at hfirst
            rcases hfirst with ((hbefore | hbehind) | hcase) | hmarked
            · omega
            · omega
            · cases hcase
            · exact hmarked
        | succ i =>
            have hplace : k + (i + 1) = k + 1 + i := by omega
            rw [hplace] at hstart hstop ⊢
            exact hrest i line (by simpa using hline) hstart hstop hblank
      · intro hall
        refine ⟨?_, fun i line hline hstart hstop hblank => ?_⟩
        · by_cases hspan : span.startLine ≤ (k + 1 : Nat) ∧ ((k + 1 : Nat) : Int) ≤ span.endLine
          · cases hblank : first.allBlank with
            | true => exact .inl (.inr rfl)
            | false => exact .inr (hall 0 first rfl hspan.1 hspan.2 hblank)
          · left
            left
            omega
        · have hplace : k + 1 + i = k + (i + 1) := by omega
          rw [hplace] at hstart hstop ⊢
          exact hall (i + 1) line (by simpa using hline) hstart hstop hblank

/-! ## One filter -/

/-- Whether some call covers the lines from `start` to `stop`. -/
def coveredBy (calls : List LineSpan) (start stop : Int) : Bool :=
  calls.any fun c => c.startLine ≤ start && stop ≤ c.endLine

namespace BlockFilter

/-- The filter without what it remembers. -/
def forget : BlockFilter → BlockFilter
  | .importGroup _ => .importGroup []
  | .keywordArgument share _ => .keywordArgument share []

/-- Everything that the filter remembers of a path satisfies `marks` or `calls`. -/
def Remembers (marks : Text → List Bool → Prop) (calls : Text → List LineSpan → Prop) :
    BlockFilter → Prop
  | .importGroup memory => ∀ e ∈ memory, marks e.1 e.2
  | .keywordArgument _ memory => ∀ e ∈ memory, calls e.1 e.2

/-- Whether so large a share of the lines look like keyword arguments. -/
def isKeywordList (share : Number) (lines : List Text) : Bool :=
  !(lines.isEmpty ||
    Number.lt (Number.round (mkRat (lines.filter isKeywordArgument).length lines.length)) share)

/-- What the filter says of a block of a source text when these are the marks and the calls of its
file. -/
def verdict (filter : BlockFilter) (primary : Location) (source : Text) (marks : List Bool)
    (calls : List LineSpan) : Bool :=
  match filter with
  | .importGroup _ => onlyMarked ⟨primary.startLine, primary.endLine⟩ marks 1 source.lines
  | .keywordArgument share _ =>
    isKeywordList share (sliceSigned source.lines (primary.startLine - 1) primary.endLine) &&
      coveredBy calls primary.startLine primary.endLine

@[simp] theorem name_forget (filter : BlockFilter) : filter.forget.name = filter.name := by
  cases filter <;> rfl

@[simp] theorem forget_forget (filter : BlockFilter) : filter.forget.forget = filter.forget := by
  cases filter <;> rfl

theorem verdict_forget (filter : BlockFilter) : filter.forget.verdict = filter.verdict := by
  cases filter <;> rfl

theorem remembers_forget (marks : Text → List Bool → Prop) (calls : Text → List LineSpan → Prop)
    (filter : BlockFilter) : filter.forget.Remembers marks calls := by
  cases filter <;> simp [forget, Remembers]

variable {marks marks' : Text → List Bool → Prop} {calls calls' : Text → List LineSpan → Prop}
  {filter : BlockFilter} {primary : Location} {ctx : FilterContext} {source : Text}

theorem Remembers.mono (hfilter : filter.Remembers marks calls)
    (hmarks : ∀ path x, marks path x → marks' path x)
    (hcalls : ∀ path x, calls path x → calls' path x) : filter.Remembers marks' calls' := by
  cases filter with
  | importGroup memory => exact fun e he => hmarks _ _ (hfilter e he)
  | keywordArgument share memory => exact fun e he => hcalls _ _ (hfilter e he)

theorem judge_of_none (hsource : ctx.source primary.file = none) :
    filter.judge primary ctx = (false, filter) := by
  simp [judge, hsource]

theorem forget_judge (filter : BlockFilter) (primary : Location) (ctx : FilterContext) :
    (filter.judge primary ctx).2.forget = filter.forget := by
  cases hsource : ctx.source primary.file with
  | none => rw [judge_of_none hsource]
  | some source =>
      cases filter with
      | importGroup memory => simp [judge, hsource, forget]
      | keywordArgument share memory =>
          simp only [judge, hsource]
          split <;> rfl

/-- A filter gives its verdict on what it remembers, or else on what it derives from the file, and
remembers nothing besides. -/
theorem exists_verdict (hsource : ctx.source primary.file = some source)
    (hfilter : filter.Remembers marks calls)
    (hmarks : marks primary.file (importLines source ctx.language))
    (hcalls : calls primary.file (multiLineCalls ((ctx.tokens primary.file).getD []))) :
    ∃ x y, marks primary.file x ∧ calls primary.file y ∧
      (filter.judge primary ctx).1 = filter.verdict primary source x y ∧
      (filter.judge primary ctx).2.Remembers marks calls := by
  cases filter with
  | importGroup memory =>
      obtain ⟨hvalue, hmemory⟩ :=
        remembered_spec (fun _ => importLines source ctx.language) hfilter hmarks
      refine ⟨_, _, hvalue, hcalls, ?_⟩
      simp only [judge, hsource]
      exact ⟨rfl, hmemory⟩
  | keywordArgument share memory =>
      obtain ⟨hvalue, hmemory⟩ := remembered_spec
        (fun _ => multiLineCalls ((ctx.tokens primary.file).getD [])) hfilter hcalls
      refine ⟨_, _, hmarks, hvalue, ?_⟩
      simp only [judge, hsource, verdict, isKeywordList]
      split
      case isTrue hfew => exact ⟨by rw [hfew]; rfl, hfilter⟩
      case isFalse hmany =>
          rw [Bool.eq_false_iff.mpr hmany]
          exact ⟨rfl, hmemory⟩

theorem judge_forget (hsource : ctx.source primary.file = some source) :
    (filter.forget.judge primary ctx).1 = filter.verdict primary source
      (importLines source ctx.language) (multiLineCalls ((ctx.tokens primary.file).getD [])) := by
  obtain ⟨x, y, rfl, rfl, hanswer, -⟩ := exists_verdict hsource
    (remembers_forget (fun path x => importLines source ctx.language = x)
      (fun path y => multiLineCalls ((ctx.tokens primary.file).getD []) = y) filter) rfl rfl
  rw [hanswer, verdict_forget]

end BlockFilter

/-! ## A registry -/

namespace FilterRegistry

def forget (r : FilterRegistry) : FilterRegistry :=
  { r with filters := r.filters.map BlockFilter.forget }

@[simp] theorem forget_forget (r : FilterRegistry) : r.forget.forget = r.forget := by
  simp [forget]

theorem judgeAll_spec {primary : Location} {ctx : FilterContext} {K : BlockFilter → Prop}
    {v : BlockFilter → Bool}
    (hjudge : ∀ filter, K filter →
      (filter.judge primary ctx).1 = v filter ∧ K (filter.judge primary ctx).2)
    (enabled : List FilterName) {filters : List BlockFilter}
    (hfilters : ∀ filter ∈ filters, K filter) :
    (judgeAll enabled primary ctx filters).1 =
        (filters.any fun filter => enabled.contains filter.name && v filter) ∧
      (judgeAll enabled primary ctx filters).2.map BlockFilter.forget =
        filters.map BlockFilter.forget ∧
      ∀ filter ∈ (judgeAll enabled primary ctx filters).2, K filter := by
  induction filters with
  | nil => simp [judgeAll]
  | cons filter rest ih =>
      obtain ⟨hfilter, hrest⟩ := List.forall_mem_cons.mp hfilters
      obtain ⟨hanswer, hforget, hkept⟩ := ih hrest
      obtain ⟨hanswer', hkeeps⟩ := hjudge filter hfilter
      have hsame := filter.forget_judge primary ctx
      rw [judgeAll]
      by_cases henabled : enabled.contains filter.name = true
      · rw [if_pos henabled, List.any_cons, henabled, ← hanswer']
        rcases hrun : filter.judge primary ctx with ⟨answer, filter'⟩
        rw [hrun] at hsame hkeeps
        cases answer with
        | true =>
            -- the filters behind it are not asked and keep what they have
            refine ⟨rfl, by simp [hsame], ?_⟩
            exact List.forall_mem_cons.mpr ⟨hkeeps, hrest⟩
        | false =>
            refine ⟨by simpa using hanswer, by simp [hsame, hforget], ?_⟩
            exact List.forall_mem_cons.mpr ⟨hkeeps, hkept⟩
      · rw [if_neg henabled]
        refine ⟨?_, by simp [hforget], List.forall_mem_cons.mpr ⟨hfilter, hkept⟩⟩
        have hoff : enabled.contains filter.name = false := by simpa using henabled
        rw [List.any_cons, hoff, Bool.false_and, Bool.false_or]
        exact hanswer

theorem shouldFilter_forget (r : FilterRegistry) (primary : Location) (others : List Location)
    (ctx : FilterContext) :
    (r.forget.shouldFilter (primary :: others) ctx).1 = r.filters.any fun filter =>
      r.enabled.contains filter.name && (filter.forget.judge primary ctx).1 := by
  have hanswer := (judgeAll_spec (K := fun _ => True)
    (v := fun filter => (filter.judge primary ctx).1) (fun _ _ => ⟨rfl, trivial⟩) r.enabled
    (fun _ _ => trivial : ∀ filter ∈ r.forget.filters, True)).1
  simpa [shouldFilter, forget, List.any_map, Function.comp_def] using hanswer

end FilterRegistry

/-! ## Contexts that show the same -/

namespace FilterContext

def marksOf (ctx : FilterContext) (path : Text) : List Bool :=
  importLines ((ctx.source path).getD []) ctx.language

def callsOf (ctx : FilterContext) (path : Text) : List LineSpan :=
  multiLineCalls ((ctx.tokens path).getD [])

/-- A text with the marks and the calls of an earlier one shows the same: the marks are alike on every
line that is not blank, and the calls cover the same of its spans. -/
structure Alike (source : Text) (marks marks' : List Bool) (calls calls' : List LineSpan) :
    Prop where
  marks_eq : ∀ (i : Nat) (line : Text), source.lines[i]? = some line → line.allBlank = false →
    marks.getD i false = marks'.getD i false
  covered_eq : ∀ start stop : Int, sliceSigned source.lines (start - 1) stop ≠ [] →
    coveredBy calls start stop = coveredBy calls' start stop

/-- Every file that has a text in both contexts shows in the later one what it showed before. -/
def SameView (past ctx : FilterContext) : Prop :=
  ∀ path source, past.source path ≠ none → ctx.source path = some source →
    Alike source (past.marksOf path) (ctx.marksOf path) (past.callsOf path) (ctx.callsOf path)

theorem SameView.refl (ctx : FilterContext) : SameView ctx ctx :=
  fun _ _ _ _ => ⟨fun _ _ _ _ => rfl, fun _ _ _ => rfl⟩

theorem Alike.verdict_eq {source : Text} {marks marks' : List Bool} {calls calls' : List LineSpan}
    (h : Alike source marks marks' calls calls') (filter : BlockFilter) (primary : Location) :
    filter.verdict primary source marks calls = filter.verdict primary source marks' calls' := by
  cases filter with
  | importGroup memory =>
      rw [BlockFilter.verdict, BlockFilter.verdict, Bool.eq_iff_iff]
      have hfirst : (1 : Int) = (0 : Nat) + 1 := rfl
      rw [hfirst, onlyMarked_iff, onlyMarked_iff]
      have heq (i : Nat) (line : Text) (hline : source.lines[i]? = some line)
          (hblank : line.allBlank = false) :
          marks.getD (0 + i) false = marks'.getD (0 + i) false := by
        rw [Nat.zero_add]
        exact h.marks_eq i line hline hblank
      constructor
      · intro hall i line hline hstart hstop hblank
        rw [← heq i line hline hblank]
        exact hall i line hline hstart hstop hblank
      · intro hall i line hline hstart hstop hblank
        rw [heq i line hline hblank]
        exact hall i line hline hstart hstop hblank
  | keywordArgument share memory =>
      rw [BlockFilter.verdict, BlockFilter.verdict]
      by_cases hlines : sliceSigned source.lines (primary.startLine - 1) primary.endLine = []
      · rw [hlines]
        rfl
      · rw [h.covered_eq _ _ hlines]

end FilterContext

/-! ## What was shown -/

namespace BlockFilter

/-- Everything that the filter remembers was shown in one of the contexts. -/
def RemembersFrom (seen : List FilterContext) (filter : BlockFilter) : Prop :=
  filter.Remembers
    (fun path marks => ∃ past ∈ seen, past.source path ≠ none ∧ past.marksOf path = marks)
    (fun path calls => ∃ past ∈ seen, past.source path ≠ none ∧ past.callsOf path = calls)

variable {filter : BlockFilter} {seen : List FilterContext} {ctx : FilterContext}

theorem RemembersFrom.append (h : filter.RemembersFrom seen) (ctx : FilterContext) :
    filter.RemembersFrom (seen ++ [ctx]) := by
  apply h.mono
  · rintro path x ⟨past, hpast, hshown⟩
    exact ⟨past, List.mem_append_left _ hpast, hshown⟩
  · rintro path x ⟨past, hpast, hshown⟩
    exact ⟨past, List.mem_append_left _ hpast, hshown⟩

/-- In a context that shows what the earlier ones showed, a filter says what a new one says. -/
theorem RemembersFrom.judge (h : filter.RemembersFrom seen) (hctx : ctx ∈ seen)
    (hviews : ∀ past ∈ seen, FilterContext.SameView past ctx) (primary : Location) :
    (filter.judge primary ctx).1 = (filter.forget.judge primary ctx).1 ∧
      (filter.judge primary ctx).2.RemembersFrom seen := by
  cases hsource : ctx.source primary.file with
  | none =>
      rw [judge_of_none hsource, judge_of_none hsource]
      exact ⟨rfl, h⟩
  | some source =>
      have hmarks : ctx.marksOf primary.file = importLines source ctx.language := by
        rw [FilterContext.marksOf, hsource]
        rfl
      have hshown : ctx.source primary.file ≠ none := by simp [hsource]
      obtain ⟨x, y, ⟨past, hpast, hsome, rfl⟩, ⟨past', hpast', hsome', rfl⟩, hjudge, hkept⟩ :=
        exists_verdict hsource h ⟨ctx, hctx, hshown, hmarks⟩ ⟨ctx, hctx, hshown, rfl⟩
      -- the marks and the calls may stem from two contexts
      have hview := hviews past hpast primary.file source hsome hsource
      have hview' := hviews past' hpast' primary.file source hsome' hsource
      have halike : FilterContext.Alike source (past.marksOf primary.file)
          (ctx.marksOf primary.file) (past'.callsOf primary.file)
          (ctx.callsOf primary.file) := ⟨hview.marks_eq, hview'.covered_eq⟩
      refine ⟨?_, hkept⟩
      rw [hjudge, judge_forget hsource, halike.verdict_eq, hmarks]
      rfl

end BlockFilter

/-! ## Sessions -/

/-- A call of a registry; a registered filter is a new one. -/
inductive FilterCall where
  | register (filter : BlockFilter)
  | enable (name : FilterName)
  | disable (name : FilterName)
  | judge (places : List Location) (ctx : FilterContext)

namespace FilterCall

/-- The context of a call that asks about a block. -/
def context? : FilterCall → Option FilterContext
  | .judge _ ctx => some ctx
  | _ => none

def contexts (calls : List FilterCall) : List FilterContext :=
  calls.filterMap context?

end FilterCall

namespace FilterRegistry

/-- The registry after a call that asks nothing. -/
def switch (r : FilterRegistry) : FilterCall → FilterRegistry
  | .register filter => r.register filter.forget
  | .enable name => r.enable name
  | .disable name => r.disable name
  | .judge .. => r

def answers (r : FilterRegistry) : List FilterCall → List Bool
  | [] => []
  | .judge places ctx :: rest =>
    (r.shouldFilter places ctx).1 :: answers (r.shouldFilter places ctx).2 rest
  | call :: rest => answers (r.switch call) rest

/-- The answers when every question is asked of new filters. -/
def freshAnswers (r : FilterRegistry) : List FilterCall → List Bool
  | [] => []
  | .judge places ctx :: rest => (r.forget.shouldFilter places ctx).1 :: freshAnswers r rest
  | call :: rest => freshAnswers (r.switch call) rest

/-- Everything that the filters remember was shown in one of the contexts. -/
def RemembersFrom (seen : List FilterContext) (r : FilterRegistry) : Prop :=
  ∀ filter ∈ r.filters, filter.RemembersFrom seen

variable {r : FilterRegistry} {seen : List FilterContext} {ctx : FilterContext}

theorem RemembersFrom.append (h : r.RemembersFrom seen) (ctx : FilterContext) :
    r.RemembersFrom (seen ++ [ctx]) := by
  intro filter hfilter
  exact (h filter hfilter).append ctx

theorem remembersFrom_register (h : r.RemembersFrom seen) (filter : BlockFilter) :
    (r.register filter.forget).RemembersFrom seen := by
  have hfilters : (r.register filter.forget).filters = r.filters ++ [filter.forget] := by
    unfold register enable
    split <;> rfl
  intro other hother
  rw [hfilters] at hother
  rcases List.mem_append.mp hother with hother | hother
  · exact h other hother
  · rw [List.mem_singleton.mp hother]
    exact BlockFilter.remembers_forget _ _ filter

theorem remembersFrom_enable (h : r.RemembersFrom seen) (name : FilterName) :
    (r.enable name).RemembersFrom seen := by
  unfold enable
  split <;> exact h

theorem RemembersFrom.switch (h : r.RemembersFrom seen) (call : FilterCall) :
    (r.switch call).RemembersFrom seen := by
  cases call with
  | register filter => exact remembersFrom_register h filter
  | enable name => exact remembersFrom_enable h name
  | disable name => exact h
  | judge places ctx => exact h

theorem forget_switch (r : FilterRegistry) (call : FilterCall) :
    (r.switch call).forget = r.forget.switch call := by
  cases call with
  | register filter =>
      unfold switch register enable forget
      simp only [BlockFilter.name_forget]
      split <;> simp
  | enable name =>
      unfold switch enable forget
      simp only
      split <;> rfl
  | disable name => rfl
  | judge places ctx => rfl

/-- A question in a context that shows what the earlier ones showed is answered as by new filters. -/
theorem RemembersFrom.shouldFilter (h : r.RemembersFrom seen)
    (hviews : ∀ past ∈ seen, FilterContext.SameView past ctx) (places : List Location) :
    (r.shouldFilter places ctx).1 = (r.forget.shouldFilter places ctx).1 ∧
      (r.shouldFilter places ctx).2.forget = r.forget ∧
      (r.shouldFilter places ctx).2.RemembersFrom (seen ++ [ctx]) := by
  cases places with
  | nil => exact ⟨rfl, rfl, h.append ctx⟩
  | cons primary others =>
      have hviews : ∀ past ∈ seen ++ [ctx], FilterContext.SameView past ctx := by
        intro past hpast
        rcases List.mem_append.mp hpast with hpast | hpast
        · exact hviews past hpast
        · rw [List.mem_singleton.mp hpast]
          exact FilterContext.SameView.refl ctx
      have hctx : ctx ∈ seen ++ [ctx] := List.mem_append_right _ List.mem_cons_self
      obtain ⟨hanswer, hforget, hkept⟩ := judgeAll_spec
        (fun filter hfilter => BlockFilter.RemembersFrom.judge hfilter hctx hviews primary)
        r.enabled (h.append ctx)
      rw [shouldFilter_forget]
      exact ⟨hanswer, by simp [FilterRegistry.shouldFilter, forget, hforget], hkept⟩

theorem answers_eq_freshAnswers (h : r.RemembersFrom seen) {calls : List FilterCall}
    (hviews : (seen ++ FilterCall.contexts calls).Pairwise FilterContext.SameView) :
    r.answers calls = r.forget.freshAnswers calls := by
  induction calls generalizing r seen with
  | nil => rfl
  | cons call rest ih =>
      have hswitch (hcall : call.context? = none) :
          (r.switch call).answers rest = (r.forget.switch call).freshAnswers rest := by
        rw [← forget_switch]
        apply ih (h.switch call)
        rwa [FilterCall.contexts, List.filterMap_cons_none hcall] at hviews
      cases call with
      | register filter => exact hswitch rfl
      | enable name => exact hswitch rfl
      | disable name => exact hswitch rfl
      | judge places ctx =>
          have hnow : FilterCall.contexts (.judge places ctx :: rest) =
              ctx :: FilterCall.contexts rest := rfl
          rw [hnow] at hviews
          have hpast : ∀ past ∈ seen, FilterContext.SameView past ctx := by
            intro past hpast
            exact (List.pairwise_append.mp hviews).2.2 past hpast ctx List.mem_cons_self
          obtain ⟨hanswer, hforget, hkept⟩ := h.shouldFilter hpast places
          rw [List.append_cons] at hviews
          rw [answers, freshAnswers, hanswer, ih hkept hviews, hforget, forget_forget]

/-! ## What a session can tell -/

def askTwice (filter : BlockFilter) (first second : Location) (past ctx : FilterContext) :
    List FilterCall :=
  [.register filter, .judge [first] past, .judge [second] ctx]

variable {past : FilterContext} {path source : Text}

theorem shouldFilter_alone {filter : BlockFilter} {name : FilterName} (hname : filter.name = name)
    (primary : Location) (ctx : FilterContext) :
    FilterRegistry.shouldFilter ⟨[filter], [name]⟩ [primary] ctx =
      ((filter.judge primary ctx).1, ⟨[(filter.judge primary ctx).2], [name]⟩) := by
  have henabled : [name].contains filter.name = true := by simp [hname]
  simp only [FilterRegistry.shouldFilter, judgeAll, if_pos henabled]
  rcases filter.judge primary ctx with ⟨answer, filter'⟩
  cases answer <;> rfl

theorem answers_askTwice (filter : BlockFilter) (first second : Location)
    (past ctx : FilterContext) : empty.answers (askTwice filter first second past ctx) =
      [(filter.forget.judge first past).1,
        ((filter.forget.judge first past).2.judge second ctx).1] := by
  have hregister : empty.switch (.register filter) = ⟨[filter.forget], [filter.forget.name]⟩ := rfl
  have hname : (filter.forget.judge first past).2.name = filter.forget.name := by
    rw [← BlockFilter.name_forget, BlockFilter.forget_judge, BlockFilter.name_forget]
  rw [askTwice, answers, hregister]
  · rw [answers, shouldFilter_alone rfl, answers, shouldFilter_alone hname, answers]
  · simp

theorem freshAnswers_askTwice (filter : BlockFilter) (first second : Location)
    (past ctx : FilterContext) : empty.freshAnswers (askTwice filter first second past ctx) =
      [(filter.forget.judge first past).1, (filter.forget.judge second ctx).1] := by
  have hregister : (empty.switch (.register filter)).forget =
      ⟨[filter.forget], [filter.forget.name]⟩ := by
    rw [forget_switch]
    simp [switch, register, enable, empty, forget]
  rw [askTwice, freshAnswers]
  · rw [freshAnswers, freshAnswers, hregister, shouldFilter_alone rfl, shouldFilter_alone rfl,
      freshAnswers]
  · simp

theorem onlyMarked_line {marks : List Bool} {lines : List Text} {i : Nat} {line : Text}
    (hline : lines[i]? = some line) (hblank : line.allBlank = false) :
    onlyMarked ⟨i + 1, i + 1⟩ marks 1 lines = marks.getD i false := by
  have hfirst : (1 : Int) = (0 : Nat) + 1 := rfl
  rw [Bool.eq_iff_iff, hfirst, onlyMarked_iff]
  constructor
  · intro hall
    simpa using hall i line hline (by simp) (by simp) hblank
  · intro hmarked j other hother hstart hstop hother'
    obtain rfl : j = i := by
      simp only [Nat.zero_add] at hstart hstop
      omega
    simpa using hmarked

/-- A filter of imports tells whether a line was marked the first time. -/
theorem marks_eq_of_answers (hpast : past.source path ≠ none) (hctx : ctx.source path = some source)
    {i : Nat} {line : Text} (hline : source.lines[i]? = some line) (hblank : line.allBlank = false)
    (hanswers : empty.answers (askTwice (.importGroup []) ⟨path, 1, 1⟩ ⟨path, i + 1, i + 1⟩ past ctx) =
      empty.freshAnswers
        (askTwice (.importGroup []) ⟨path, 1, 1⟩ ⟨path, i + 1, i + 1⟩ past ctx)) :
    (past.marksOf path).getD i false = (ctx.marksOf path).getD i false := by
  obtain ⟨before, hbefore⟩ := Option.ne_none_iff_exists'.mp hpast
  rw [answers_askTwice, freshAnswers_askTwice] at hanswers
  have hagain : (((BlockFilter.importGroup []).judge ⟨path, 1, 1⟩ past).2.judge
      ⟨path, i + 1, i + 1⟩ ctx).1 = (past.marksOf path).getD i false := by
    rw [← onlyMarked_line hline hblank]
    simp [BlockFilter.judge, hbefore, hctx, remembered, FilterContext.marksOf]
  have hnew : ((BlockFilter.importGroup []).judge ⟨path, i + 1, i + 1⟩ ctx).1 =
      (ctx.marksOf path).getD i false := by
    rw [← onlyMarked_line hline hblank]
    simp [BlockFilter.judge, hctx, remembered, FilterContext.marksOf]
  rw [← hagain, ← hnew]
  exact (List.cons.inj (List.cons.inj hanswers).2).1

theorem judge_keywordArgument (primary : Location) (memory : List (Text × List LineSpan))
    (hctx : ctx.source primary.file = some source)
    (hlines : sliceSigned source.lines (primary.startLine - 1) primary.endLine ≠ []) :
    (BlockFilter.keywordArgument (.infinite true) memory).judge primary ctx =
      (coveredBy (remembered memory primary.file fun _ => ctx.callsOf primary.file).1
          primary.startLine primary.endLine,
        .keywordArgument (.infinite true)
          (remembered memory primary.file fun _ => ctx.callsOf primary.file).2) := by
  have hleast (x : Number) : Number.lt x (.infinite true) = false := by
    cases x <;> simp [Number.lt]
  simp [BlockFilter.judge, hctx, hlines, hleast, coveredBy, FilterContext.callsOf]

/-- A filter that takes every line for a keyword argument tells which spans the calls covered the
first time. -/
theorem covered_eq_of_answers (hpast : past.source path ≠ none)
    (hctx : ctx.source path = some source) {start stop : Int}
    (hlines : sliceSigned source.lines (start - 1) stop ≠ [])
    (hanswers : empty.answers (askTwice (.keywordArgument (.infinite true) []) ⟨path, 1, 1⟩
        ⟨path, start, stop⟩ past ctx) =
      empty.freshAnswers (askTwice (.keywordArgument (.infinite true) []) ⟨path, 1, 1⟩
        ⟨path, start, stop⟩ past ctx)) :
    coveredBy (past.callsOf path) start stop = coveredBy (ctx.callsOf path) start stop := by
  obtain ⟨before, hbefore⟩ := Option.ne_none_iff_exists'.mp hpast
  have hfirst : sliceSigned before.lines (1 - 1) 1 ≠ [] := by
    have hcount : 0 < before.lines.length := List.length_pos_iff.mpr before.lines_ne_nil
    simp only [sliceSigned, ← List.length_pos_iff, List.length_take, List.length_drop]
    split <;> split <;> omega
  rw [answers_askTwice, freshAnswers_askTwice] at hanswers
  simp only [BlockFilter.forget, judge_keywordArgument ⟨path, 1, 1⟩ [] hbefore hfirst,
    judge_keywordArgument ⟨path, start, stop⟩ _ hctx hlines] at hanswers
  simpa [remembered] using hanswers

theorem sameView_of_answers
    (h : ∀ filter first second, empty.answers (askTwice filter first second past ctx) =
      empty.freshAnswers (askTwice filter first second past ctx)) :
    FilterContext.SameView past ctx := by
  intro path source hpast hctx
  constructor
  · intro i line hline hblank
    exact marks_eq_of_answers hpast hctx hline hblank (h _ _ _)
  · intro start stop hlines
    exact covered_eq_of_answers hpast hctx hlines (h _ _ _)

/-- Memory does not show in a history of contexts, whatever the filters and the calls, exactly when
every file that was seen before shows the same each time. -/
theorem memory_invisible_iff (history : List FilterContext) :
    (∀ calls : List FilterCall, (FilterCall.contexts calls).Sublist history →
      empty.answers calls = empty.freshAnswers calls) ↔
      history.Pairwise FilterContext.SameView := by
  constructor
  · intro h
    rw [List.pairwise_iff_forall_sublist]
    intro past ctx hsublist
    apply sameView_of_answers
    intro filter first second
    exact h (askTwice filter first second past ctx) hsublist
  · intro hviews calls hsublist
    have hempty : empty.RemembersFrom [] := fun filter hfilter => absurd hfilter (by simp [empty])
    exact answers_eq_freshAnswers hempty (hviews.sublist hsublist)

/-- A context of one Python file. -/
def pythonContext (source : String) : FilterContext where
  language := some .python
  source _ := some (Text.ofString source)
  tokens _ := none

/-- The second line of a file is no import at first, and becomes one. -/
theorem memory_visible_edited :
    let calls := askTwice (.importGroup []) ⟨Text.ofString "a.py", 1, 2⟩
      ⟨Text.ofString "a.py", 1, 2⟩ (pythonContext "import a\nb = 1")
      (pythonContext "import a\nimport b")
    empty.answers calls = [false, false] ∧ empty.freshAnswers calls = [false, true] := by
  decide

end FilterRegistry

end CloneScan
