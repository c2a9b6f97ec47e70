import CloneScan.Proofs.BlankMarkup
import CloneScan.Proofs.LinePlaces

/-!
# Tokens and the lines of their source

Every token is a part of its source text and starts where the numbering of its language has the
first unit of that part.  The rows of the grammars are the lines of the text, so their tokens are
found on the lines that they name.  Scripts count their lines in a line table of the text without a
byte order mark: their tokens have their place among the lines exactly when no lone break comes
before them and no byte order mark is in front of them on the first line.
-/

namespace CloneScan

namespace Token

/-- The place at which a token starts, counted from zero. -/
def start (t : Token) : Position :=
  ⟨t.startLine - 1, t.startColumn - 1⟩

/-- A token is the part of a source between two offsets and has the position of the first in a line
table. -/
structure IsAt (t : Token) (source : Text) (table : LineTable) (start stop : Nat) : Prop where
  text : t.text = source.slice start stop
  start_lt_stop : start < stop
  start_lt_length : start < source.length
  startLine : t.startLine = (table.position start).line + 1
  startColumn : t.startColumn = (table.position start).column + 1

theorem IsAt.start_eq {t : Token} {source : Text} {table : LineTable} {first stop : Nat}
    (h : t.IsAt source table first stop) : t.start = table.position first := by
  rw [Token.start, h.startLine, h.startColumn]
  rfl

theorem isAt_make {source : Text} (table : LineTable) {start stop : Nat} (c : TokenClass)
    (last : Position) (hwidth : start < stop)
    (hblank : ¬ Text.allBlank (source.toArray.extract start stop).toList = true) :
    (Token.make (source.toArray.extract start stop).toList c (table.position start) last).IsAt source
      table start stop := by
  refine ⟨Text.toList_extract source start stop, hwidth, ?_, rfl, rfl⟩
  by_contra hbeyond
  apply hblank
  rw [Text.toList_extract, Text.slice, List.drop_eq_nil_of_le (Nat.le_of_not_lt hbeyond), List.take_nil]
  rfl

end Token

/-! ## Tokens of grammars -/

/-- What a node of a parse tree gives: nothing, the tokens of its children or one token. -/
theorem ParseTree.collect_cases {g : GrammarClasses} {content : Array UInt16}
    {above : Option Above} {type : String} {start stop : TreePoint} {children : List ParseTree}
    {ts : List Token} (h : collect g content above (.node type start stop children) = .ok ts) :
    ts = [] ∨ (∃ above', collectAll g content above' children = .ok ts) ∨
      (start.index < stop.index ∧
        ¬ Text.allBlank (content.extract start.index stop.index).toList = true ∧
        ∃ c, ts = [Token.make (content.extract start.index stop.index).toList c start.position
          stop.position]) := by
  rw [collect] at h
  split at h
  · cases h
  · split at h
    · exact .inl (Except.ok.inj h).symm
    · split at h
      · exact .inr (.inl ⟨_, h⟩)
      · split at h
        · exact .inl (Except.ok.inj h).symm
        · rename_i hwidth
          dsimp only at h
          split at h
          · exact .inl (Except.ok.inj h).symm
          · rename_i hblank
            exact .inr (.inr ⟨Nat.lt_of_not_le hwidth, hblank, _, (Except.ok.inj h).symm⟩)

theorem ParseTree.collectAll_cons_eq_ok {g : GrammarClasses} {content : Array UInt16}
    {above : Option Above} {t : ParseTree} {rest : List ParseTree} {ts : List Token}
    (h : collectAll g content above (t :: rest) = .ok ts) :
    ∃ tokens more, collect g content above t = .ok tokens ∧
      collectAll g content above rest = .ok more ∧ ts = tokens ++ more := by
  rw [collectAll] at h
  split at h
  · cases h
  · rename_i tokens htokens
    split at h
    · cases h
    · rename_i more hmore
      exact ⟨tokens, more, htokens, hmore, (Except.ok.inj h).symm⟩

mutual

theorem ParseTree.exists_isAt {g : GrammarClasses} {source : Text} {above : Option Above}
    {ts : List Token} : ∀ tree : ParseTree, tree.Follows (LineTable.ofRows source) →
      collect g source.toArray above tree = .ok ts →
      ∀ t ∈ ts, ∃ start stop, t.IsAt source (LineTable.ofRows source) start stop
  | .node type start stop children, .node hstart _ hfollows, h => by
    rcases collect_cases h with rfl | ⟨above', hchildren⟩ | ⟨hwidth, hblank, c, rfl⟩
    · simp
    · exact exists_isAt_all children hfollows hchildren
    · intro t ht
      obtain rfl := List.mem_singleton.mp ht
      rw [hstart]
      exact ⟨start.index, stop.index, Token.isAt_make _ c _ hwidth hblank⟩

theorem ParseTree.exists_isAt_all {g : GrammarClasses} {source : Text} {above : Option Above}
    {ts : List Token} : ∀ trees : List ParseTree,
      (∀ tree ∈ trees, tree.Follows (LineTable.ofRows source)) →
      collectAll g source.toArray above trees = .ok ts →
      ∀ t ∈ ts, ∃ start stop, t.IsAt source (LineTable.ofRows source) start stop
  | [], _, h => by
    cases h
    simp
  | tree :: trees, hfollows, h => by
    obtain ⟨htree, htrees⟩ := List.forall_mem_cons.mp hfollows
    obtain ⟨tokens, more, hfirst, hmore, rfl⟩ := collectAll_cons_eq_ok h
    intro t ht
    rcases List.mem_append.mp ht with ht | ht
    · exact exists_isAt tree htree hfirst t ht
    · exact exists_isAt_all trees htrees hmore t ht

end

/-- The tokens of a parser are parts of the source at their rows and columns. -/
theorem TreeParser.exists_isAt {p : TreeParser} {g : GrammarClasses} {source : Text}
    {ts : List Token} (h : p.tokens g source = .ok ts) {t : Token} (ht : t ∈ ts) :
    ∃ start stop, t.IsAt source (LineTable.ofRows source) start stop := by
  unfold tokens at h
  split at h
  · cases h
  · rename_i tree htree
    exact tree.exists_isAt (p.follows htree) h t ht

/-! ## Tokens of scripts -/

namespace ScriptTree

theorem exists_isAt_of_leaf {source : Text} {table : LineTable} {leaf : Leaf} {ts : List Token}
    (h : leaf.tokens source.toArray table = .ok ts) {t : Token} (ht : t ∈ ts) :
    ∃ start stop, t.IsAt source table start stop := by
  have hnone : Except.ok [] ≠ (Except.ok ts : Except Failure (List Token)) := by
    rintro ⟨⟩
    simp at ht
  unfold Leaf.tokens leafTokens at h
  split at h
  · exact absurd h hnone
  · split at h
    · split at h
      · cases h
      · exact absurd h hnone
    · rename_i hwidth
      dsimp only at h
      split at h
      · exact absurd h hnone
      · rename_i hblank
        cases h
        obtain rfl := List.mem_singleton.mp ht
        exact ⟨leaf.start, leaf.stop, Token.isAt_make _ _ _ (Nat.lt_of_not_le hwidth) hblank⟩

theorem walk_cons {content : Array UInt16} {table : LineTable} (leaf : Leaf) (leaves : List Leaf) :
    walk content table (leaf :: leaves) = do
      return (← leaf.tokens content table) ++ (← walk content table leaves) := by
  simp [walk]

theorem exists_leaf_of_walk {content : Array UInt16} {table : LineTable} {leaves : List Leaf}
    {ts : List Token} (h : walk content table leaves = .ok ts) {t : Token} (ht : t ∈ ts) :
    ∃ leaf ∈ leaves, ∃ tokens, leaf.tokens content table = .ok tokens ∧ t ∈ tokens := by
  induction leaves generalizing ts with
  | nil =>
    cases h
    simp at ht
  | cons leaf leaves ih =>
    rw [walk_cons] at h
    cases htokens : leaf.tokens content table with
    | error f => simp [htokens, bind, Except.bind] at h
    | ok tokens =>
      cases hmore : walk content table leaves with
      | error f => simp [htokens, hmore, bind, Except.bind] at h
      | ok more =>
        obtain rfl : tokens ++ more = ts := by
          simpa [htokens, hmore, bind, Except.bind, pure, Except.pure] using h
        rcases List.mem_append.mp ht with ht | ht
        · exact ⟨leaf, List.mem_cons_self, tokens, htokens, ht⟩
        · obtain ⟨other, hother, rest⟩ := ih hmore ht
          exact ⟨other, List.mem_cons_of_mem _ hother, rest⟩

/-- The tokens of a script are parts of its text at the lines and columns of its line table. -/
theorem exists_isAt_of_tokens {trees : List ScriptTree} {source : Text} {ts : List Token}
    (h : tokens trees source = .ok ts) {t : Token} (ht : t ∈ ts) :
    ∃ start stop, t.IsAt source (LineTable.ofText source) start stop := by
  rw [tokens, collectAll_eq_walk] at h
  obtain ⟨leaf, -, tokens, htokens, hmem⟩ := exists_leaf_of_walk h ht
  exact exists_isAt_of_leaf htokens hmem

end ScriptTree

/-! ## Tokens on lines -/

namespace Token

/-- The line that a token names, of some lines, has the token's text from the token's column on, up
to the first line end in that text. -/
def MatchesLine (t : Token) (lines : List Text) : Prop :=
  ∃ line, lines[t.startLine - 1]? = some line ∧
    t.text.firstLine <+: line.drop (t.startColumn - 1)

instance (t : Token) (lines : List Text) : Decidable (t.MatchesLine lines) :=
  decidable_of_iff
    (lines[t.startLine - 1]?.any fun line =>
      decide (t.text.firstLine <+: line.drop (t.startColumn - 1)))
    (by simp [MatchesLine, Option.any_eq_true])

/-- A token is the rest of the line that it names and the first of the two units that end it. -/
def CutsLineEnd (t : Token) (source : Text) (stop : Nat) : Prop :=
  ∃ line, source.lines[t.startLine - 1]? = some line ∧
    t.text = line.drop (t.startColumn - 1) ++ [0x0D] ∧ source[stop]? = some 0x0A

/-- A part of a source that starts at its place among the lines is found there. -/
theorem matchesLine_of_start {t : Token} {source : Text} {start stop : Nat}
    (htext : t.text = source.slice start stop) (hstop : start < stop)
    (hlength : start < source.length) (hstart : t.start = source.placeOf start) :
    t.MatchesLine source.lines ∨ t.CutsLineEnd source stop := by
  obtain ⟨line, hline, hdrop⟩ := source.exists_line_placeOf hlength.le
  rw [← hstart] at hline hdrop
  rw [Text.slice] at htext
  rcases Text.firstLine_take (source.drop start) (stop - start) with hfirst | ⟨htake, hnext⟩
  · refine .inl ⟨line, hline, ?_⟩
    rw [htext, show line.drop (t.startColumn - 1) = _ from hdrop]
    exact hfirst
  · refine .inr ⟨line, hline, ?_, ?_⟩
    · rw [htext, htake, ← hdrop]
      rfl
    · rwa [List.getElem?_drop, Nat.add_sub_cancel' hstop.le] at hnext

end Token

namespace Language

/-- The number of lone breaks before an offset that a language counts as line ends. -/
def countedBreaks : Language → Text → Nat → Nat
  | .typescript, source, offset | .javascript, source, offset => source.loneBreaks offset
  | .python, _, _ | .go, _, _ | .ruby, _, _ => 0

/-- A language leaves a byte order mark out of the column of an offset. -/
def SkipsMark : Language → Text → Nat → Prop
  | .typescript, source, offset | .javascript, source, offset =>
    source.head? = some 0xFEFF ∧ (source.placeOf offset).line = 0
  | .python, _, _ | .go, _, _ | .ruby, _, _ => False

end Language

/-- A token is the part of a source between two offsets, and starts where a language numbers the
first of them.  It has its place among the lines of the source exactly when the language counts no
lone break and leaves out no byte order mark; a mark that is left out makes the column one less. -/
structure Token.Lies (t : Token) (language : Language) (source : Text) (start stop : Nat) :
    Prop where
  text : t.text = source.slice start stop
  start_lt_stop : start < stop
  start_lt_length : start < source.length
  startLine : t.startLine = (source.placeOf start).line + language.countedBreaks source start + 1
  start_eq_iff : t.start = source.placeOf start ↔
    language.countedBreaks source start = 0 ∧ ¬ language.SkipsMark source start
  startColumn_of_mark : language.countedBreaks source start = 0 →
    language.SkipsMark source start → t.startColumn = (source.placeOf start).column

theorem Token.IsAt.lies_of_rows {t : Token} {language : Language} {source : Text}
    {start stop : Nat} (hbreaks : language.countedBreaks source start = 0)
    (hmark : ¬ language.SkipsMark source start)
    (h : t.IsAt source (LineTable.ofRows source) start stop) :
    t.Lies language source start stop := by
  have hplace := LineTable.position_ofRows source h.start_lt_length.le
  refine ⟨h.text, h.start_lt_stop, h.start_lt_length, ?_, ?_, fun _ hskips => absurd hskips hmark⟩
  · rw [h.startLine, hplace, hbreaks]
  · rw [h.start_eq, hplace]
    simp [hbreaks, hmark]

namespace Parsers

variable {parsers : Parsers}

theorem exists_lies_of_scriptTokens {language : Language}
    (hscript : language = .typescript ∨ language = .javascript) {source : Text} {dialect : Dialect}
    {ts : List Token} (h : parsers.scriptTokens source dialect = .ok ts) {t : Token} (ht : t ∈ ts) :
    ∃ start stop, t.Lies language source start stop := by
  have hbreaks (start : Nat) : language.countedBreaks source start = source.loneBreaks start := by
    rcases hscript with rfl | rfl <;> rfl
  have hmark (start : Nat) : language.SkipsMark source start ↔
      source.head? = some 0xFEFF ∧ (source.placeOf start).line = 0 := by
    rcases hscript with rfl | rfl <;> rfl
  unfold scriptTokens at h
  split at h
  · rename_i rest
    obtain ⟨start, stop, hat⟩ := ScriptTree.exists_isAt_of_tokens h ht
    have hcounts := LineTable.countsBreaks_position_ofText rest hat.start_lt_length.le
    have hplace : Text.placeOf (0xFEFF :: rest) (start + 1) =
        (Text.placeOf rest start).afterUnit :=
      Text.placeOf_cons (by decide) rest start
    have hlone : Text.loneBreaks (0xFEFF :: rest) (start + 1) = Text.loneBreaks rest start := by
      simp [Text.loneBreaks_cons, Text.LoneBreakAt]
    refine ⟨start + 1, stop + 1, ?_, Nat.succ_lt_succ hat.start_lt_stop,
      Nat.succ_lt_succ hat.start_lt_length, ?_, ?_, ?_⟩
    · rw [hat.text]
      simp [Text.slice]
    · rw [hat.startLine, hcounts.1, hbreaks, hlone, hplace, Position.line_afterUnit]
    · rw [hat.start_eq, hplace, hcounts.eq_afterUnit_iff, hbreaks, hlone, hmark, hplace]
      simp
    · intro hnone hskips
      rw [hbreaks, hlone] at hnone
      have hfirst := ((hmark _).mp hskips).2
      rw [hplace, Position.line_afterUnit] at hfirst
      rw [hat.startColumn, hcounts.2 hnone, hplace, Position.afterUnit, if_pos hfirst]
  · rename_i hnomark
    obtain ⟨start, stop, hat⟩ := ScriptTree.exists_isAt_of_tokens h ht
    have hcounts := LineTable.countsBreaks_position_ofText source hat.start_lt_length.le
    have hhead : source.head? ≠ some 0xFEFF := by
      intro hhead
      obtain ⟨rest, rfl⟩ := List.head?_eq_some_iff.mp hhead
      exact hnomark rest rfl
    refine ⟨start, stop, hat.text, hat.start_lt_stop, hat.start_lt_length, ?_, ?_, ?_⟩
    · rw [hat.startLine, hcounts.1, hbreaks]
    · rw [hat.start_eq, hcounts.eq_iff, hbreaks, hmark]
      simp [hhead]
    · intro _ hskips
      exact absurd ((hmark _).mp hskips).1 hhead

theorem exists_lies_of_tokenizeAs {source path : Text} {language : Language} {ts : List Token}
    (h : parsers.tokenizeAs source language path = .ok ts) {t : Token} (ht : t ∈ ts) :
    ∃ start stop, t.Lies language source start stop := by
  unfold Parsers.tokenizeAs at h
  split at h
  · cases h
  · cases language with
    | typescript => exact exists_lies_of_scriptTokens (.inl rfl) h ht
    | javascript => exact exists_lies_of_scriptTokens (.inr rfl) h ht
    | python | go | ruby =>
      obtain ⟨start, stop, hat⟩ := TreeParser.exists_isAt h ht
      exact ⟨start, stop, hat.lies_of_rows rfl id⟩

end Parsers

/-- Whatever parses the languages, every token of a source is a part of it at the place that its
language numbers.  When no lone break is counted and no byte order mark is left out, the line that
the token names exists and has the token at its column. -/
theorem tokens_match_lines {parsers : Parsers} {source tag path : Text} {ts : List Token}
    (h : parsers.tokenize source tag path = .ok ts) :
    ∃ language, Language.ofTag? tag = some language ∧ ∀ t ∈ ts, ∃ start stop,
      t.Lies language source start stop ∧
      (language.countedBreaks source start = 0 → ¬ language.SkipsMark source start →
        t.MatchesLine source.lines ∨ t.CutsLineEnd source stop) := by
  unfold Parsers.tokenize at h
  split at h
  · cases h
  · rename_i language hlanguage
    refine ⟨language, hlanguage, fun t ht => ?_⟩
    obtain ⟨start, stop, hlies⟩ := Parsers.exists_lies_of_tokenizeAs h ht
    refine ⟨start, stop, hlies, fun hbreaks hmark => ?_⟩
    have hstart := hlies.start_eq_iff.mpr ⟨hbreaks, hmark⟩
    exact Token.matchesLine_of_start hlies.text hlies.start_lt_stop hlies.start_lt_length hstart

/-- A script with a byte order mark, and a template that crosses a line end on its second line. -/
def crossedLines : Text :=
  0xFEFF :: Text.ofString "a;\r\nb = `c\r\nd`;"

theorem tokens_match_crossedLines :
    ∃ ts, tokenize crossedLines (Text.ofString "typescript") (Text.ofString "v.ts") = .ok ts ∧
      (∃ t ∈ ts, t.text = Text.ofString "`c\r\nd`" ∧ t.MatchesLine crossedLines.lines) ∧
      ∃ language, Language.ofTag? (Text.ofString "typescript") = some language ∧ ∀ t ∈ ts,
        ∃ start stop, t.Lies language crossedLines start stop ∧
          (language.countedBreaks crossedLines start = 0 →
            ¬ language.SkipsMark crossedLines start →
            t.MatchesLine crossedLines.lines ∨ t.CutsLineEnd crossedLines stop) := by
  have hfound : (tokenize crossedLines (Text.ofString "typescript")
      (Text.ofString "v.ts")).toOption.any (fun ts => ts.any fun t =>
        decide (t.text = Text.ofString "`c\r\nd`" ∧ t.MatchesLine crossedLines.lines)) = true := by
    decide +kernel
  cases hts : tokenize crossedLines (Text.ofString "typescript") (Text.ofString "v.ts") with
  | error f => simp [hts, Except.toOption] at hfound
  | ok ts =>
    refine ⟨ts, rfl, ?_, tokens_match_lines hts⟩
    simpa [hts, Except.toOption] using hfound

/-- A byte order mark or a lone carriage return moves the tokens of a script away from their lines. -/
theorem tokens_miss_lines :
    (∃ t, (tokenize (0xFEFF :: Text.ofString "a") (Text.ofString "typescript")
        (Text.ofString "v.ts")).toOption = some [t] ∧
      ¬ t.MatchesLine (Text.lines (0xFEFF :: Text.ofString "a"))) ∧
    (∃ s t, (tokenize (Text.ofString "a\rb") (Text.ofString "typescript")
        (Text.ofString "v.ts")).toOption = some [s, t] ∧
      ¬ t.MatchesLine (Text.ofString "a\rb").lines) := by
  refine ⟨⟨⟨Text.ofString "a", Text.ofString "$id", .identifier, 1, 1, 1, 2⟩, ?_⟩,
    ⟨⟨Text.ofString "a", Text.ofString "$id", .identifier, 1, 1, 1, 2⟩,
      ⟨Text.ofString "b", Text.ofString "$id", .identifier, 2, 1, 2, 2⟩, ?_⟩⟩
  all_goals decide +kernel

end CloneScan
