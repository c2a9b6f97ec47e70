import Mathlib.Data.List.Nodup
import CloneScan.Json.Reader

/-!
# What the JSON reader reads

A property of values that passes from the parts of a value to the value holds of everything that is
read.  Of an object it may use that no two fields have one key: a field that is set again takes the
place of the old one.
-/

namespace CloneScan

namespace Json

/-! ## Setting fields -/

theorem placeField_perm (fields : Fields) (key : Text) (value : Json) :
    (placeField fields key value).Perm ((key, value) :: fields) := by
  induction fields with
  | nil => exact List.Perm.refl _
  | cons f fields ih =>
      obtain ⟨k, v⟩ := f
      rw [placeField]
      split
      · exact List.Perm.refl _
      · exact (ih.cons _).trans (List.Perm.swap _ _ _)

/-- Setting a field leaves the keys as they are, or puts the new one among them. -/
theorem keys_setField (fields : Fields) (key : Text) (value : Json) :
    (setField fields key value).map (·.1) = fields.map (·.1) ∨
      key ∉ fields.map (·.1) ∧
        (setField fields key value).Perm ((key, value) :: fields) := by
  unfold setField
  split
  · left
    rw [List.map_map]
    apply List.map_congr_left
    intro f _
    by_cases hkey : f.1 = key <;> simp [hkey]
  case isFalse hfield =>
    right
    refine ⟨fun hmem => hfield ?_, placeField_perm fields key value⟩
    obtain ⟨f, hf, rfl⟩ := List.mem_map.mp hmem
    exact List.any_eq_true.mpr ⟨f, hf, beq_self_eq_true f.1⟩

theorem mem_setField {fields : Fields} {key : Text} {value : Json} {f : Text × Json}
    (h : f ∈ setField fields key value) : f = (key, value) ∨ f ∈ fields := by
  unfold setField at h
  split at h
  · obtain ⟨g, hg, rfl⟩ := List.mem_map.mp h
    split
    · exact .inl rfl
    · exact .inr hg
  · exact List.mem_cons.mp ((placeField_perm fields key value).mem_iff.mp h)

/-! ## Properties of what is read -/

/-- A property of values that passes from their parts to them. -/
structure IsHereditary (P : Json → Prop) : Prop where
  null : P .null
  bool : ∀ b, P (.bool b)
  number : ∀ t x, readNumber? t = some x → P (.number x.1)
  string : ∀ t, P (.string t)
  array : ∀ items, (∀ v ∈ items, P v) → P (.array items)
  object : ∀ fields : Fields, (∀ f ∈ fields, P f.2) → (fields.map (·.1)).Nodup → P (.object fields)

/-- What a reader has read so far has the property. -/
def Goal.Has (P : Json → Prop) : Goal → Prop
  | .value => True
  | .items before => ∀ v ∈ before, P v
  | .fields before => (∀ f ∈ before, P f.2) ∧ (before.map (·.1)).Nodup

/-- With this bound the reader gives values that have the property. -/
def Gives (P : Json → Prop) (fuel : Nat) : Prop :=
  ∀ goal t v rest, goal.Has P → readGoal? fuel goal t = some (v, rest) → P v

section

variable {P : Json → Prop} {fuel : Nat} {t rest : Text} {v : Json}

theorem Goal.has_setField {before : Fields} (h : (Goal.fields before).Has P) (key : Text)
    (hv : P v) : (Goal.fields (setField before key v)).Has P := by
  obtain ⟨hbefore, hkeys⟩ := h
  constructor
  · intro f hf
    rcases mem_setField hf with rfl | hf
    · exact hv
    · exact hbefore f hf
  · rcases keys_setField before key v with heq | ⟨hnew, hperm⟩
    · exact heq ▸ hkeys
    · rw [(hperm.map _).nodup_iff]
      exact List.nodup_cons.mpr ⟨hnew, hkeys⟩

variable (hP : IsHereditary P) (ih : Gives P fuel)

include hP ih

theorem IsHereditary.value_succ (h : readGoal? (fuel + 1) .value t = some (v, rest)) : P v := by
  rw [readGoal?] at h
  split at h
  · cases h
  · obtain ⟨s, -, heq⟩ := Option.map_eq_some_iff.mp h
    obtain ⟨rfl, -⟩ := Prod.mk.inj heq
    exact hP.string _
  · split at h
    · obtain ⟨rfl, -⟩ := Prod.mk.inj (Option.some.inj h)
      exact hP.array [] (by simp)
    · exact ih (.items []) _ v rest (by simp [Goal.Has]) h
  · split at h
    · obtain ⟨rfl, -⟩ := Prod.mk.inj (Option.some.inj h)
      exact hP.object [] (by simp) (by simp)
    · exact ih (.fields []) _ v rest (by simp [Goal.Has]) h
  · split_ifs at h
    · obtain ⟨s, -, heq⟩ := Option.map_eq_some_iff.mp h
      obtain ⟨rfl, -⟩ := Prod.mk.inj heq
      exact hP.null
    · obtain ⟨s, -, heq⟩ := Option.map_eq_some_iff.mp h
      obtain ⟨rfl, -⟩ := Prod.mk.inj heq
      exact hP.bool true
    · obtain ⟨s, -, heq⟩ := Option.map_eq_some_iff.mp h
      obtain ⟨rfl, -⟩ := Prod.mk.inj heq
      exact hP.bool false
    · obtain ⟨x, hx, heq⟩ := Option.map_eq_some_iff.mp h
      obtain ⟨rfl, -⟩ := Prod.mk.inj heq
      exact hP.number _ x hx

theorem IsHereditary.items_succ {before : List Json} (hbefore : ∀ w ∈ before, P w)
    (h : readGoal? (fuel + 1) (.items before) t = some (v, rest)) : P v := by
  rw [readGoal?] at h
  obtain ⟨⟨item, after⟩, hitem, h⟩ := Option.bind_eq_some_iff.mp h
  have hbefore' : ∀ w ∈ item :: before, P w :=
    List.forall_mem_cons.mpr ⟨ih .value t item after trivial hitem, hbefore⟩
  dsimp only at h
  split at h
  · exact ih (.items (item :: before)) _ v rest hbefore' h
  · obtain ⟨rfl, -⟩ := Prod.mk.inj (Option.some.inj h)
    exact hP.array _ fun w hw => hbefore' w (List.mem_reverse.mp hw)
  · cases h

theorem IsHereditary.fields_succ {before : Fields} (hbefore : (Goal.fields before).Has P)
    (h : readGoal? (fuel + 1) (.fields before) t = some (v, rest)) : P v := by
  rw [readGoal?] at h
  split at h
  · obtain ⟨⟨key, after⟩, -, h⟩ := Option.bind_eq_some_iff.mp h
    dsimp only at h
    split at h
    · obtain ⟨⟨value, after'⟩, hvalue, h⟩ := Option.bind_eq_some_iff.mp h
      have hbefore' : (Goal.fields (setField before key value)).Has P :=
        Goal.has_setField hbefore key (ih .value _ value after' trivial hvalue)
      dsimp only at h
      split at h
      · exact ih (.fields (setField before key value)) _ v rest hbefore' h
      · obtain ⟨rfl, -⟩ := Prod.mk.inj (Option.some.inj h)
        exact hP.object _ hbefore'.1 hbefore'.2
      · cases h
    · cases h
  · cases h

end

/-- The induction is on the bound of the reader, with one case for each goal. -/
theorem IsHereditary.gives {P : Json → Prop} (hP : IsHereditary P) (fuel : Nat) : Gives P fuel := by
  induction fuel with
  | zero =>
      intro goal t v rest _ h
      cases h
  | succ fuel ih =>
      intro goal t v rest hgoal h
      cases goal with
      | value => exact hP.value_succ ih h
      | items before => exact hP.items_succ ih hgoal h
      | fields before => exact hP.fields_succ ih hgoal h

theorem IsHereditary.of_parse? {P : Json → Prop} (hP : IsHereditary P) {t : Text} {v : Json}
    (h : parse? t = some v) : P v := by
  obtain ⟨⟨w, rest⟩, hread, h⟩ := Option.bind_eq_some_iff.mp h
  dsimp only at h
  split at h
  · obtain rfl := Option.some.inj h
    exact hP.gives _ .value t w rest trivial hread
  · cases h

/-! ## Keys -/

/-- No two fields of an object anywhere in a value have one key. -/
inductive DistinctKeys : Json → Prop where
  | null : DistinctKeys .null
  | bool (b : Bool) : DistinctKeys (.bool b)
  | number (x : Number) : DistinctKeys (.number x)
  | string (t : Text) : DistinctKeys (.string t)
  | array (items : List Json) (hitems : ∀ v ∈ items, DistinctKeys v) : DistinctKeys (.array items)
  | object (fields : Fields) (hfields : ∀ f ∈ fields, DistinctKeys f.2)
      (hkeys : (fields.map (·.1)).Nodup) : DistinctKeys (.object fields)

theorem isHereditary_distinctKeys : IsHereditary DistinctKeys where
  null := .null
  bool := .bool
  number _ x _ := .number x.1
  string := .string
  array := .array
  object := .object

/-- The fields of an object that stands in a field of an object. -/
theorem DistinctKeys.nodup_of_getField {fields inner : Fields} (h : DistinctKeys (.object fields))
    {key : Text} {v : Json} (hv : getField fields key = some v) (hinner : v.object? = some inner) :
    (inner.map (·.1)).Nodup := by
  obtain ⟨f, hf, rfl⟩ := Option.map_eq_some_iff.mp hv
  cases h with
  | object _ hfields _ =>
      have hdistinct := hfields f (List.mem_of_find?_eq_some hf)
      generalize f.2 = w at hdistinct hinner
      cases hdistinct with
      | object _ _ hkeys =>
          cases hinner
          exact hkeys
      | _ => cases hinner

end Json

end CloneScan
