import CloneScan.Proofs.JsonReading
import CloneScan.Proofs.PlainNumber
import CloneScan.Proofs.StoreView
import CloneScan.Proofs.Utf8Text

/-!
# The stored text of a path index

The maps of an index are stored as objects, whose fields stand in an order of their own: those that
spell an array index first.  Putting fields with different keys in that order only moves them, and
moves nothing when it is done again.  So the stored text of an index reads back as an index that
differs from it in order alone, and neither from outside nor in its text.
-/

namespace CloneScan

namespace Json

/-! ## The order of fields -/

theorem standsBefore_iff {a b : Text} :
    standsBefore a b = true ↔
      ∃ i, arrayIndex? a = some i ∧ ∀ j, arrayIndex? b = some j → i < j := by
  unfold standsBefore
  cases arrayIndex? a <;> cases arrayIndex? b <;> simp

theorem standsBefore_trans {a b c : Text} (hab : standsBefore a b = true)
    (hbc : standsBefore b c = true) : standsBefore a c = true := by
  rw [standsBefore_iff] at *
  obtain ⟨i, hi, hij⟩ := hab
  obtain ⟨j, hj, hjk⟩ := hbc
  exact ⟨i, hi, fun k hk => (hij j hj).trans (hjk k hk)⟩

theorem standsBefore_asymm {a b : Text} (h : standsBefore a b = true) :
    standsBefore b a = false := by
  rw [← Bool.not_eq_true, standsBefore_iff]
  rintro ⟨j, hj, hji⟩
  obtain ⟨i, hi, hij⟩ := standsBefore_iff.mp h
  exact absurd (hij j hj) (hji i hi).asymm

/-- No field stands before an earlier one. -/
def IsOrdered (fields : Fields) : Prop :=
  fields.Pairwise fun f g => standsBefore g.1 f.1 = false

variable {fields : Fields}

theorem IsOrdered.placeField (h : IsOrdered fields) (key : Text) (value : Json) :
    IsOrdered (placeField fields key value) := by
  induction fields with
  | nil => exact List.pairwise_singleton _ _
  | cons f fields ih =>
      obtain ⟨k, v⟩ := f
      obtain ⟨hfirst, hrest⟩ := List.pairwise_cons.mp h
      rw [Json.placeField]
      split
      case isTrue hbefore =>
          -- what does not stand before `k` does not stand before what stands before `k`
          refine List.pairwise_cons.mpr ⟨fun g hg => ?_, h⟩
          rcases List.mem_cons.mp hg with rfl | hg
          · exact standsBefore_asymm hbefore
          · by_contra hcontra
            rw [Bool.not_eq_false] at hcontra
            exact absurd (standsBefore_trans hcontra hbefore) (by simp [hfirst g hg])
      case isFalse hbefore =>
          refine List.pairwise_cons.mpr ⟨fun g hg => ?_, ih hrest⟩
          rcases List.mem_cons.mp ((placeField_perm fields key value).mem_iff.mp hg) with rfl | hg
          · simpa using hbefore
          · exact hfirst g hg

theorem placeField_of_forall {key : Text} (h : ∀ f ∈ fields, standsBefore key f.1 = false)
    (value : Json) : placeField fields key value = fields ++ [(key, value)] := by
  induction fields with
  | nil => rfl
  | cons f fields ih =>
      obtain ⟨hfirst, hrest⟩ := List.forall_mem_cons.mp h
      rw [placeField, if_neg (by simp [hfirst]), ih hrest]
      rfl

theorem setField_of_notMem {key : Text} (h : key ∉ fields.map (·.1)) (value : Json) :
    setField fields key value = placeField fields key value := by
  have hfield : hasField fields key = false := by
    rw [hasField, List.any_eq_false]
    intro f hf hkey
    exact h (List.mem_map.mpr ⟨f, hf, by simpa using hkey⟩)
  rw [setField, hfield]
  rfl

/-- Setting new fields in turn moves them to their places. -/
theorem foldl_setField {acc entries : Fields} (hkeys : ((acc ++ entries).map (·.1)).Nodup)
    (hacc : IsOrdered acc) :
    (entries.foldl (fun acc f => setField acc f.1 f.2) acc).Perm (acc ++ entries) ∧
      IsOrdered (entries.foldl (fun acc f => setField acc f.1 f.2) acc) := by
  induction entries generalizing acc with
  | nil => simpa using hacc
  | cons f entries ih =>
      have hmoved : (placeField acc f.1 f.2 ++ entries).Perm (acc ++ f :: entries) :=
        ((placeField_perm acc f.1 f.2).append_right entries).trans List.perm_middle.symm
      have hkey : f.1 ∉ acc.map (·.1) := by
        rw [List.map_append, List.map_cons] at hkeys
        exact fun hmem => (List.disjoint_of_nodup_append hkeys) hmem List.mem_cons_self
      have hnodup : ((placeField acc f.1 f.2 ++ entries).map (·.1)).Nodup :=
        (hmoved.map _).nodup_iff.mpr hkeys
      obtain ⟨hperm, hordered⟩ := ih hnodup (hacc.placeField f.1 f.2)
      rw [List.foldl_cons, setField_of_notMem hkey]
      exact ⟨hperm.trans hmoved, hordered⟩

/-- Setting ordered fields in turn puts each of them at the end. -/
theorem foldl_setField_of_isOrdered {acc entries : Fields}
    (hkeys : ((acc ++ entries).map (·.1)).Nodup) (hordered : IsOrdered (acc ++ entries)) :
    entries.foldl (fun acc f => setField acc f.1 f.2) acc = acc ++ entries := by
  induction entries generalizing acc with
  | nil => simp
  | cons f entries ih =>
      have hkey : f.1 ∉ acc.map (·.1) := by
        rw [List.map_append, List.map_cons] at hkeys
        exact fun hmem => (List.disjoint_of_nodup_append hkeys) hmem List.mem_cons_self
      have hlast : ∀ g ∈ acc, standsBefore f.1 g.1 = false := fun g hg =>
        (List.pairwise_append.mp hordered).2.2 g hg f List.mem_cons_self
      rw [List.foldl_cons, setField_of_notMem hkey, placeField_of_forall hlast,
        ih (by simpa using hkeys) (by simpa using hordered)]
      simp

theorem fieldsOf_perm {entries : Fields} (hkeys : (entries.map (·.1)).Nodup) :
    (fieldsOf entries).Perm entries :=
  (@foldl_setField [] entries hkeys List.Pairwise.nil).1

theorem fieldsOf_fieldsOf {entries : Fields} (hkeys : (entries.map (·.1)).Nodup) :
    fieldsOf (fieldsOf entries) = fieldsOf entries :=
  @foldl_setField_of_isOrdered [] _ (((fieldsOf_perm hkeys).map _).nodup_iff.mpr hkeys)
    (@foldl_setField [] entries hkeys List.Pairwise.nil).2

end Json

/-! ## Maps -/

namespace TextMap

variable {α : Type} {m l : TextMap α}

theorem Unique.perm (hm : Unique m) (h : List.Perm l m) : Unique l :=
  (h.map _).nodup_iff.mpr hm

/-- The order of a map with unique keys does not show. -/
theorem Unique.get?_eq_of_perm (hm : Unique m) (h : List.Perm l m) : l.get? = m.get? := by
  funext key
  ext a
  rw [← (hm.perm h).mem_iff, ← hm.mem_iff, h.mem_iff]

theorem Unique.nodup_fields (hm : Unique m) (write : α → Json) :
    ((m.map fun e => (e.1, write e.2)).map (·.1)).Nodup := by
  rw [List.map_map]
  exact hm

end TextMap

namespace PathIndex

open Json

theorem mapOf?_of_perm {α : Type} {read : Json → Option α} {write : α → Json} {m : TextMap α}
    (hread : ∀ a, read (write a) = some a) {fields : Fields}
    (h : fields.Perm (m.map fun e => (e.1, write e.2))) :
    ∃ l : TextMap α, mapOf? read fields = some l ∧ List.Perm l m := by
  induction fields generalizing m with
  | nil =>
      have hnil : m = [] := by simpa using h.length_eq.symm
      exact ⟨[], rfl, hnil ▸ List.Perm.nil⟩
  | cons f fields ih =>
      obtain ⟨e, he, rfl⟩ := List.mem_map.mp (h.mem_iff.mp List.mem_cons_self)
      obtain ⟨before, after, rfl⟩ := List.append_of_mem he
      have hmiddle : (before ++ e :: after).Perm (e :: (before ++ after)) := List.perm_middle
      obtain ⟨l, hl, hperm⟩ := ih (h.trans (hmiddle.map _)).cons_inv
      refine ⟨e :: l, ?_, (hperm.cons e).trans hmiddle.symm⟩
      rw [mapOf?, hread, hl]
      rfl

/-- The fields of a stored map read back as the map in another order. -/
theorem mapOf?_fieldsOf {α : Type} {read : Json → Option α} {write : α → Json} {m : TextMap α}
    (hread : ∀ a, read (write a) = some a) (hm : m.Unique) :
    ∃ l : TextMap α, mapOf? read (Json.fieldsOf (m.map fun e => (e.1, write e.2))) = some l ∧
      List.Perm l m := by
  apply mapOf?_of_perm hread
  exact fieldsOf_perm (hm.nodup_fields write)

theorem map_of_mapOf? {α : Type} {read : Json → Option α} {write : α → Json}
    (hwrite : ∀ v a, read v = some a → write a = v) {fields : Fields} {m : TextMap α}
    (h : mapOf? read fields = some m) : m.map (fun e => (e.1, write e.2)) = fields := by
  induction fields generalizing m with
  | nil =>
      cases h
      rfl
  | cons f fields ih =>
      obtain ⟨x, hx, h⟩ := Option.bind_eq_some_iff.mp h
      obtain ⟨more, hmore, h⟩ := Option.bind_eq_some_iff.mp h
      cases h
      rw [List.map_cons, ih hmore, hwrite f.2 x hx]

/-- What is read from the fields of a stored map is stored as the same fields. -/
theorem fieldsOf_of_mapOf? {α : Type} {read : Json → Option α} {write : α → Json}
    (hwrite : ∀ v a, read v = some a → write a = v) {m l : TextMap α} (hm : m.Unique)
    (hl : mapOf? read (Json.fieldsOf (m.map fun e => (e.1, write e.2))) = some l) :
    fieldsOf write l = fieldsOf write m := by
  rw [fieldsOf, fieldsOf, map_of_mapOf? hwrite hl, fieldsOf_fieldsOf (hm.nodup_fields write)]

theorem faithful_fieldsOf {α : Type} {write : α → Json} {m : TextMap α} (hm : m.Unique)
    (hfaithful : ∀ e ∈ m, Faithful (write e.2)) : Faithful (fieldsOf write m) := by
  have hkeys := hm.nodup_fields write
  apply Faithful.object (fieldsOf_fieldsOf hkeys)
  intro f hf
  obtain ⟨e, he, rfl⟩ := List.mem_map.mp ((fieldsOf_perm hkeys).mem_iff.mp hf)
  exact hfaithful e he

variable {i : PathIndex}

theorem faithful_toJson (hi : i.Unique) (htimes : ∀ e ∈ i.seen, e.2.IsFinite) :
    Faithful i.toJson := by
  have hpaths : Faithful (fieldsOf Json.string i.paths) :=
    faithful_fieldsOf hi.paths fun e _ => Faithful.string e.2
  have hseen : Faithful (fieldsOf Json.number i.seen) := by
    apply faithful_fieldsOf hi.seen
    intro e he
    obtain ⟨q, hq, hround⟩ := htimes e he
    rw [hq]
    exact Faithful.number hround
  have hversion : Faithful (.count schemaVersion) :=
    Faithful.number (Number.isExact_of_lt (by decide))
  apply Faithful.object rfl
  simp [hpaths, hseen, hversion]

theorem string_of_string? {v : Json} {t : Text} (h : v.string? = some t) : .string t = v := by
  cases v with
  | string u => exact congrArg Json.string (Option.some.inj h).symm
  | _ => cases h

theorem number_of_number? {v : Json} {x : Number} (h : v.number? = some x) : .number x = v := by
  cases v with
  | number y => exact congrArg Json.number (Option.some.inj h).symm
  | _ => cases h

/-- The index in the stored form of an index looks the same from outside, and has that form too. -/
theorem exists_ofJson?_toJson (hi : i.Unique) :
    ∃ j, ofJson? i.toJson = some j ∧ j.view = i.view ∧ j.Unique ∧ j.toJson = i.toJson := by
  obtain ⟨paths, hpaths, hpathsPerm⟩ :=
    mapOf?_fieldsOf (show ∀ t, Json.string? (.string t) = some t from fun _ => rfl) hi.paths
  obtain ⟨seen, hseen, hseenPerm⟩ :=
    mapOf?_fieldsOf (show ∀ x, Json.number? (.number x) = some x from fun _ => rfl) hi.seen
  refine ⟨⟨paths, seen⟩, ?_, ?_, ⟨hi.paths.perm hpathsPerm, hi.seen.perm hseenPerm⟩, ?_⟩
  · change ((mapOf? Json.string? _).bind fun paths =>
      (mapOf? Json.number? _).bind fun seen => some (PathIndex.mk paths seen)) = _
    rw [hpaths, hseen]
    rfl
  · exact congrArg₂ IndexView.mk (hi.paths.get?_eq_of_perm hpathsPerm)
      (hi.seen.get?_eq_of_perm hseenPerm)
  · rw [toJson, toJson, fieldsOf_of_mapOf? (fun _ _ => string_of_string?) hi.paths hpaths,
      fieldsOf_of_mapOf? (fun _ _ => number_of_number?) hi.seen hseen]

/-- The text of an index reads back, as it is and from its bytes, as an index that looks the same
from outside and has the same text. -/
theorem decode?_encode (hi : i.Unique) (htimes : ∀ e ∈ i.seen, e.2.IsFinite) :
    ∃ j, decode? i.encode = some j ∧ decode? (Text.ofUtf8 (Text.toUtf8 i.encode)) = some j ∧
      j.view = i.view ∧ j.Unique ∧ j.encode = i.encode := by
  have hfaithful := faithful_toJson hi htimes
  obtain ⟨j, hj, hview, hunique, hjson⟩ := exists_ofJson?_toJson hi
  refine ⟨j, ?_, ?_, hview, hunique, congrArg render hjson⟩
  · rw [decode?, encode, parse?_render hfaithful, Option.bind_some, hj]
  · rw [decode?, encode, parse?_ofUtf8_toUtf8_render hfaithful, Option.bind_some, hj]

/-! ### Indexes that were read -/

theorem keys_of_mapOf? {α : Type} {read : Json → Option α} {fields : Fields} {m : TextMap α}
    (h : mapOf? read fields = some m) : m.keys = fields.map (·.1) := by
  induction fields generalizing m with
  | nil =>
      cases h
      rfl
  | cons f fields ih =>
      obtain ⟨x, -, h⟩ := Option.bind_eq_some_iff.mp h
      obtain ⟨more, hmore, h⟩ := Option.bind_eq_some_iff.mp h
      cases h
      exact congrArg (f.1 :: ·) (ih hmore)

/-- Nothing stands twice in an index that was read. -/
theorem unique_of_decode? {t : Text} (h : decode? t = some i) : i.Unique := by
  obtain ⟨v, hv, h⟩ := Option.bind_eq_some_iff.mp h
  have hdistinct := isHereditary_distinctKeys.of_parse? hv
  cases v with
  | object fields =>
      simp only [ofJson?, Option.bind_eq_bind, Option.bind_eq_some_iff] at h
      obtain ⟨_, -, _, -, h⟩ := h
      split at h
      · cases h
      · simp only [Option.bind_eq_some_iff, Option.some.injEq] at h
        obtain ⟨v, hv, paths, hpaths, w, hw, seen, hseen, m, hm, l, hl, rfl⟩ := h
        constructor
        · rw [TextMap.Unique, keys_of_mapOf? hm]
          exact hdistinct.nodup_of_getField hv hpaths
        · rw [TextMap.Unique, keys_of_mapOf? hl]
          exact hdistinct.nodup_of_getField hw hseen
  | _ => cases h

end PathIndex

end CloneScan
