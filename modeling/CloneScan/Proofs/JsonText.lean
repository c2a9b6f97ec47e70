import CloneScan.Json.Printer
import CloneScan.Proofs.NumberText

/-!
# The text of a JSON value reads back

Reading undoes printing, whatever stands behind the printed value.  A value can be printed when its
numbers are finite and their own roundings and the fields of its objects stand in the order that
reading gives them.  The induction is on the bound of the reader: a value takes two steps for each
unit of its text, and the rest of an array or an object one more.
-/

namespace CloneScan

namespace Json

/-! ## Strings -/

theorem hexValue?_hexDigit {n : Nat} (h : n < 16) : hexValue? (hexDigit n) = some n := by
  interval_cases n <;> rfl

theorem readHexUnit?_hexUnit (u : UInt16) :
    readHexUnit? (hexDigit (u.toNat / 4096)) (hexDigit (u.toNat / 256 % 16))
      (hexDigit (u.toNat / 16 % 16)) (hexDigit (u.toNat % 16)) = some u := by
  have hlt : u.toNat < 65536 := u.toNat_lt
  have hsum : u.toNat / 4096 * 4096 + u.toNat / 256 % 16 * 256 + u.toNat / 16 % 16 * 16 +
      u.toNat % 16 = u.toNat := by omega
  simp only [readHexUnit?, hexValue?_hexDigit (show u.toNat / 4096 < 16 by omega),
    hexValue?_hexDigit (show u.toNat / 256 % 16 < 16 by omega),
    hexValue?_hexDigit (show u.toNat / 16 % 16 < 16 by omega),
    hexValue?_hexDigit (show u.toNat % 16 < 16 by omega), Option.bind_eq_bind, Option.bind_some,
    hsum]
  simp

/-- A unit that stands for itself. -/
theorem readStringBody?_plain {u : UInt16} (hquote : u ≠ 0x22) (hslash : u ≠ 0x5C)
    (hlow : ¬ u < 0x20) (rest : Text) :
    readStringBody? (u :: rest) = (readStringBody? rest).map fun p => (u :: p.1, p.2) := by
  rw [readStringBody?.eq_def]
  split
  case h_1 h => cases h
  case h_2 h => exact absurd (List.cons.inj h).1 hquote
  case h_3 h => exact absurd (List.cons.inj h).1 hslash
  case h_4 h => exact absurd (List.cons.inj h).1 hslash
  case h_5 v after _ _ _ h =>
      obtain ⟨rfl, rfl⟩ := List.cons.inj h
      have hslash' : (u == 0x5C) = false := by simpa using hslash
      rw [if_neg (by simp [hlow, hslash])]
      cases readStringBody? rest <;> rfl

theorem readStringBody?_escapeUnit (u : UInt16) (rest : Text) :
    readStringBody? (escapeUnit u ++ rest) =
      (readStringBody? rest).map fun p => (u :: p.1, p.2) := by
  simp only [escapeUnit, hexUnit, List.cons_append, List.nil_append, readStringBody?,
    readHexUnit?_hexUnit]
  cases readStringBody? rest <;> rfl

theorem readStringBody?_letter {e u : UInt16} (he : simpleEscape? e = some u) (hletter : e ≠ 0x75)
    (rest : Text) :
    readStringBody? (0x5C :: e :: rest) =
      (readStringBody? rest).map fun p => (u :: p.1, p.2) := by
  rw [readStringBody?.eq_def]
  split
  case h_1 h => cases h
  case h_2 h => exact absurd (List.cons.inj h).1 (by decide)
  case h_3 h => exact absurd (List.cons.inj (List.cons.inj h).2).1 hletter
  case h_4 h =>
      obtain ⟨rfl, rfl⟩ := List.cons.inj (List.cons.inj h).2
      rw [he]
      cases readStringBody? rest <;> rfl
  case h_5 hno h =>
      obtain ⟨rfl, rfl⟩ := List.cons.inj h
      exact absurd rfl (hno _ _ rfl)

theorem readStringBody?_quotedUnit (u : UInt16) (rest : Text) :
    readStringBody? (quotedUnit u ++ rest) =
      (readStringBody? rest).map fun p => (u :: p.1, p.2) := by
  unfold quotedUnit
  split_ifs with h1 h2 h3 h4 h5 h6 h7 h8
  · rw [eq_of_beq h1]
    exact readStringBody?_letter (by decide) (by decide) rest
  · rw [eq_of_beq h2]
    exact readStringBody?_letter (by decide) (by decide) rest
  · rw [eq_of_beq h3]
    exact readStringBody?_letter (by decide) (by decide) rest
  · rw [eq_of_beq h4]
    exact readStringBody?_letter (by decide) (by decide) rest
  · rw [eq_of_beq h5]
    exact readStringBody?_letter (by decide) (by decide) rest
  · rw [eq_of_beq h6]
    exact readStringBody?_letter (by decide) (by decide) rest
  · rw [eq_of_beq h7]
    exact readStringBody?_letter (by decide) (by decide) rest
  · exact readStringBody?_escapeUnit u rest
  · apply readStringBody?_plain
    · simpa using h1
    · simpa using h2
    · simp_all

theorem readStringBody?_surrogate {u : UInt16}
    (hu : Text.isHighSurrogate u = true ∨ Text.isLowSurrogate u = true) (rest : Text) :
    readStringBody? (u :: rest) = (readStringBody? rest).map fun p => (u :: p.1, p.2) := by
  have hbig : 0xD800 ≤ u.toNat := by
    rcases hu with hu | hu
    · simp only [Text.isHighSurrogate, Bool.and_eq_true, decide_eq_true_eq,
        UInt16.le_iff_toNat_le] at hu
      exact hu.1
    · simp only [Text.isLowSurrogate, Bool.and_eq_true, decide_eq_true_eq,
        UInt16.le_iff_toNat_le] at hu
      exact Nat.le_trans (by decide) hu.1
  have hlow : ¬ u < 0x20 := by
    rw [UInt16.lt_iff_toNat_lt]
    exact fun h => absurd (Nat.lt_of_le_of_lt hbig h) (by decide)
  apply readStringBody?_plain _ _ hlow
  · rintro rfl
    exact absurd hbig (by decide)
  · rintro rfl
    exact absurd hbig (by decide)

/-- The inside of a quoted string reads back up to its closing quote. -/
theorem readStringBody?_quotedBody (t rest : Text) :
    readStringBody? (quotedBody t ++ 0x22 :: rest) = some (t, rest) := by
  induction t using quotedBody.induct with
  | case1 => rfl
  | case2 u => rw [quotedBody, readStringBody?_quotedUnit]; rfl
  | case3 u v more hpair ih =>
      obtain ⟨hhigh, hlow⟩ := Bool.and_eq_true_iff.mp hpair
      rw [quotedBody, if_pos hpair, List.cons_append, List.cons_append,
        readStringBody?_surrogate (.inl hhigh), readStringBody?_surrogate (.inr hlow), ih]
      rfl
  | case4 u v more hpair ih =>
      rw [quotedBody, if_neg hpair, List.append_assoc, readStringBody?_quotedUnit, ih]
      rfl

/-! ## Values -/

/-- A value whose text reads back as the value itself. -/
inductive Faithful : Json → Prop where
  | null : Faithful .null
  | bool (b : Bool) : Faithful (.bool b)
  | number {q : ℚ} (hround : Number.round q = .finite q) : Faithful (.number (.finite q))
  | string (t : Text) : Faithful (.string t)
  | array {items : List Json} (hitems : ∀ v ∈ items, Faithful v) : Faithful (.array items)
  | object {fields : Fields} (hplaces : fieldsOf fields = fields)
      (hfields : ∀ f ∈ fields, Faithful f.2) : Faithful (.object fields)

theorem skipSpace_cons {u : UInt16} (hu : isSpace u = false) (rest : Text) :
    skipSpace (u :: rest) = u :: rest := by
  simp [skipSpace, hu]

theorem endsNumber_cons {u : UInt16} (hu : u = 0x2C ∨ u = 0x5D ∨ u = 0x7D) (rest : Text) :
    EndsNumber (u :: rest) := by
  intro v hv
  obtain rfl : u = v := by simpa using hv
  rcases hu with rfl | rfl | rfl <;> decide

/-- What starts a number starts nothing else. -/
theorem ne_of_startsNumber {u v : UInt16} (hu : Text.isDigit u = true ∨ u = 0x2D)
    (hdigit : Text.isDigit v = false) (hsign : v ≠ 0x2D) : u ≠ v := by
  rintro rfl
  rcases hu with hu | hu
  · rw [hdigit] at hu
    cases hu
  · exact hsign hu

theorem isSpace_of_startsNumber {u : UInt16} (hu : Text.isDigit u = true ∨ u = 0x2D) :
    isSpace u = false := by
  simp [isSpace, ne_of_startsNumber hu (v := 0x20) (by decide) (by decide),
    ne_of_startsNumber hu (v := 0x09) (by decide) (by decide),
    ne_of_startsNumber hu (v := 0x0A) (by decide) (by decide),
    ne_of_startsNumber hu (v := 0x0D) (by decide) (by decide)]

/-- The text of a value starts with a unit that is no blank and does not end an array. -/
theorem exists_render_cons {v : Json} (hv : Faithful v) :
    ∃ u more, render v = u :: more ∧ isSpace u = false ∧ u ≠ 0x5D := by
  cases hv with
  | null => exact ⟨_, _, rfl, by decide, by decide⟩
  | bool b => cases b <;> exact ⟨_, _, rfl, by decide, by decide⟩
  | @number q hround =>
      have hread := readNumber?_numberText hround endsNumber_nil
      rw [List.append_nil] at hread
      obtain ⟨u, more, htext, hu⟩ := head_of_readNumber? hread
      exact ⟨u, more, by rw [render, htext], isSpace_of_startsNumber hu,
        ne_of_startsNumber hu (by decide) (by decide)⟩
  | string t => exact ⟨_, _, rfl, by decide, by decide⟩
  | array => exact ⟨_, _, rfl, by decide, by decide⟩
  | object => exact ⟨_, _, rfl, by decide, by decide⟩

theorem exists_renderItems_cons {v : Json} (hv : Faithful v) (items : List Json) :
    ∃ u more, renderItems (v :: items) = u :: more ∧ isSpace u = false ∧ u ≠ 0x5D := by
  obtain ⟨u, more, htext, hu⟩ := exists_render_cons hv
  cases items with
  | nil => exact ⟨u, more, by rw [renderItems, htext], hu⟩
  | cons w items => exact ⟨u, _, by rw [renderItems, htext, List.cons_append], hu⟩

theorem exists_renderFields_cons (f : Text × Json) (fields : Fields) :
    ∃ more, renderFields (f :: fields) = 0x22 :: more := by
  cases fields with
  | nil => exact ⟨_, by rw [renderFields, quoted, List.cons_append, List.cons_append]⟩
  | cons g fields =>
      exact ⟨_, by
        rw [renderFields, quoted, List.cons_append, List.cons_append, List.cons_append]⟩

theorem readGoal?_number {fuel : Nat} {t : Text} {x : Number × Text}
    (h : readNumber? t = some x) :
    readGoal? (fuel + 1) .value t = some (.number x.1, x.2) := by
  obtain ⟨u, rest, rfl, hu⟩ := head_of_readNumber? h
  have hne : ∀ v : UInt16, Text.isDigit v = false → v ≠ 0x2D → u ≠ v := fun v =>
    ne_of_startsNumber hu
  have hnull : (u == 0x6E) = false := by simpa using hne 0x6E (by decide) (by decide)
  have htrue : (u == 0x74) = false := by simpa using hne 0x74 (by decide) (by decide)
  have hfalse : (u == 0x66) = false := by simpa using hne 0x66 (by decide) (by decide)
  rw [readGoal?, skipSpace_cons (isSpace_of_startsNumber hu)]
  split
  case h_1 heq => cases heq
  case h_2 heq => exact absurd (List.cons.inj heq).1 (hne 0x22 (by decide) (by decide))
  case h_3 heq => exact absurd (List.cons.inj heq).1 (hne 0x5B (by decide) (by decide))
  case h_4 heq => exact absurd (List.cons.inj heq).1 (hne 0x7B (by decide) (by decide))
  case h_5 heq =>
      obtain ⟨rfl, rfl⟩ := List.cons.inj heq
      rw [hnull, htrue, hfalse, h]
      rfl

/-! ## Reading undoes printing -/

/-- With this bound the reader reads every value that fits it. -/
def ReadsValues (fuel : Nat) : Prop :=
  ∀ v rest, Faithful v → EndsNumber rest → 2 * (render v).length ≤ fuel →
    readGoal? fuel .value (render v ++ rest) = some (v, rest)

/-- With this bound the reader reads the rest of every array that fits it. -/
def ReadsItems (fuel : Nat) : Prop :=
  ∀ before v items rest, (∀ w ∈ v :: items, Faithful w) →
    2 * (renderItems (v :: items)).length + 1 ≤ fuel →
    readGoal? fuel (.items before) (renderItems (v :: items) ++ 0x5D :: rest) =
      some (.array (before.reverse ++ v :: items), rest)

/-- With this bound the reader reads the rest of every object that fits it. -/
def ReadsFields (fuel : Nat) : Prop :=
  ∀ before f fields rest, (∀ g ∈ f :: fields, Faithful (Prod.snd g)) →
    2 * (renderFields (f :: fields)).length + 1 ≤ fuel →
    readGoal? fuel (.fields before) (renderFields (f :: fields) ++ 0x7D :: rest) =
      some (.object ((f :: fields).foldl (fun acc g => setField acc g.1 g.2) before), rest)

theorem readsItems_succ {fuel : Nat} (hvalues : ReadsValues fuel) (hitems : ReadsItems fuel) :
    ReadsItems (fuel + 1) := by
  intro before v items rest hfaithful hfuel
  cases items with
  | nil =>
      rw [renderItems] at hfuel ⊢
      rw [readGoal?,
        hvalues v _ (hfaithful v (by simp)) (endsNumber_cons (by simp) rest) (by omega)]
      simp [skipSpace_cons (show isSpace 0x5D = false by decide)]
  | cons w items =>
      rw [renderItems, List.length_append, List.length_cons] at hfuel
      rw [renderItems, List.append_assoc, List.cons_append, readGoal?,
        hvalues v _ (hfaithful v (by simp)) (endsNumber_cons (by simp) _) (by omega)]
      have hrest := hitems (v :: before) w items rest
        (fun x hx => hfaithful x (List.mem_cons_of_mem v hx)) (by omega)
      simpa [skipSpace_cons (show isSpace 0x2C = false by decide)] using hrest

theorem readGoal?_field {fuel : Nat} (hvalues : ReadsValues fuel) {before : Fields} {key : Text}
    {v : Json} {rest : Text} (hv : Faithful v) (hrest : EndsNumber rest)
    (hfuel : 2 * (render v).length ≤ fuel) :
    readGoal? (fuel + 1) (.fields before) (quoted key ++ 0x3A :: (render v ++ rest)) =
      match skipSpace rest with
      | 0x2C :: rest => readGoal? fuel (.fields (setField before key v)) rest
      | 0x7D :: after => some (.object (setField before key v), after)
      | _ => none := by
  have hkey := readStringBody?_quotedBody key (0x3A :: (render v ++ rest))
  have hquote : isSpace 0x22 = false := by decide
  have hcolon : isSpace 0x3A = false := by decide
  rw [readGoal?, quoted, List.cons_append, List.cons_append, List.append_assoc,
    List.singleton_append, skipSpace_cons hquote]
  simp only [hkey, skipSpace_cons hcolon, Option.bind_eq_bind, Option.bind_some]
  rw [hvalues v rest hv hrest hfuel]
  rfl

theorem readsFields_succ {fuel : Nat} (hvalues : ReadsValues fuel) (hfields : ReadsFields fuel) :
    ReadsFields (fuel + 1) := by
  intro before f fields rest hfaithful hfuel
  obtain ⟨key, v⟩ := f
  have hv : Faithful v := hfaithful (key, v) (by simp)
  cases fields with
  | nil =>
      simp only [renderFields, List.length_append, List.length_cons] at hfuel
      rw [renderFields, List.append_assoc, List.cons_append,
        readGoal?_field hvalues hv (endsNumber_cons (by simp) rest) (by omega),
        skipSpace_cons (by decide)]
      rfl
  | cons g fields =>
      simp only [renderFields, List.length_append, List.length_cons] at hfuel
      rw [renderFields, List.append_assoc, List.append_assoc, List.cons_append, List.cons_append,
        readGoal?_field hvalues hv (endsNumber_cons (by simp) _) (by omega),
        skipSpace_cons (by decide)]
      exact hfields (setField before key v) g fields rest
        (fun x hx => hfaithful x (List.mem_cons_of_mem _ hx)) (by omega)

theorem readsValues_succ {fuel : Nat} (hitems : ReadsItems fuel) (hfields : ReadsFields fuel) :
    ReadsValues (fuel + 1) := by
  intro v rest hv hrest hfuel
  cases hv with
  | null => rfl
  | bool b => cases b <;> rfl
  | number hround =>
      rw [render]
      exact readGoal?_number (readNumber?_numberText hround hrest)
  | string t =>
      have hquote : isSpace 0x22 = false := by decide
      rw [render, quoted, readGoal?, List.cons_append, List.cons_append, List.append_assoc,
        skipSpace_cons hquote]
      simp [readStringBody?_quotedBody]
  | @array items hfaithful =>
      have hbracket : isSpace 0x5B = false := by decide
      rw [render, List.length_append, List.length_cons, List.length_singleton] at hfuel
      rw [render, readGoal?, List.cons_append, List.cons_append, List.append_assoc,
        skipSpace_cons hbracket]
      cases items with
      | nil => rfl
      | cons w items =>
          have hread := hitems [] w items rest hfaithful (by omega)
          obtain ⟨u, more, htext, hspace, hend⟩ :=
            exists_renderItems_cons (hfaithful w (by simp)) items
          rw [htext, List.cons_append] at hread
          rw [htext, List.cons_append]
          simp only [List.singleton_append, skipSpace_cons hspace]
          split
          case h_1 heq => exact absurd (List.cons.inj heq).1 hend
          case h_2 => exact hread
  | @object fields hplaces hfaithful =>
      have hbrace : isSpace 0x7B = false := by decide
      rw [render, List.length_append, List.length_cons, List.length_singleton] at hfuel
      rw [render, readGoal?, List.cons_append, List.cons_append, List.append_assoc,
        skipSpace_cons hbrace]
      cases fields with
      | nil => rfl
      | cons f fields =>
          have hread := hfields [] f fields rest hfaithful (by omega)
          obtain ⟨more, htext⟩ := exists_renderFields_cons f fields
          rw [htext, List.cons_append] at hread
          rw [htext, List.cons_append]
          simp only [List.singleton_append, skipSpace_cons (show isSpace 0x22 = false by decide)]
          exact hread.trans (congrArg (fun l => some (Json.object l, rest)) hplaces)

theorem reads (fuel : Nat) : ReadsValues fuel ∧ ReadsItems fuel ∧ ReadsFields fuel := by
  induction fuel with
  | zero =>
      refine ⟨?_, ?_, ?_⟩
      · intro v rest hv _ hfuel
        obtain ⟨u, more, htext, -⟩ := exists_render_cons hv
        rw [htext, List.length_cons] at hfuel
        omega
      · intro before v items rest _ hfuel
        omega
      · intro before f fields rest _ hfuel
        omega
  | succ fuel ih =>
      obtain ⟨hvalues, hitems, hfields⟩ := ih
      exact ⟨readsValues_succ hitems hfields, readsItems_succ hvalues hitems,
        readsFields_succ hvalues hfields⟩

/-- The text of a value reads back as the value. -/
theorem parse?_render {v : Json} (hv : Faithful v) : parse? (render v) = some v := by
  have hread := (reads (2 * (render v).length + 2)).1 v [] hv endsNumber_nil (by omega)
  rw [List.append_nil] at hread
  unfold parse?
  rw [hread, Option.bind_eq_bind, Option.bind_some]
  rfl

end Json

end CloneScan
