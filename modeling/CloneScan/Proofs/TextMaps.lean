import Mathlib.Data.Set.Card
import CloneScan.Proofs.StoreRun

/-!
# Maps with unique keys

A map of texts in which no key stands twice is determined by the values of its keys: its entries
are the keys with their values, and dropping entries drops the values of their keys.
-/

namespace CloneScan

/-- A list without repetitions counts the elements of the set that it lists. -/
theorem ncard_eq_length {α : Type} {l : List α} (hl : l.Nodup) {s : Set α}
    (hs : ∀ a, a ∈ s ↔ a ∈ l) : s.ncard = l.length := by
  classical
  have hset : s = ↑l.toFinset := by
    ext a
    simp [hs]
  rw [hset, Set.ncard_coe_finset, List.toFinset_card_of_nodup hl]

theorem eraseDups_of_nodup {α : Type} [BEq α] [LawfulBEq α] {l : List α} (hl : l.Nodup) :
    l.eraseDups = l := by
  induction l with
  | nil => rfl
  | cons a l ih =>
      obtain ⟨ha, hl⟩ := List.nodup_cons.mp hl
      have hother : l.filter (fun b => !b == a) = l := by
        rw [List.filter_eq_self]
        intro b hb
        simpa using ne_of_mem_of_not_mem hb ha
      rw [List.eraseDups_cons, hother, ih hl]

namespace TextMap

variable {α : Type} {m : TextMap α}

/-- No key stands twice. -/
def Unique (m : TextMap α) : Prop :=
  m.keys.Nodup

theorem unique_nil : Unique ([] : TextMap α) :=
  List.nodup_nil

@[simp] theorem get?_nil (k : Text) : TextMap.get? ([] : TextMap α) k = none :=
  rfl

theorem has_eq_isSome (m : TextMap α) (k : Text) : m.has k = (m.get? k).isSome := by
  rw [Bool.eq_iff_iff]
  simp [has, get?]

theorem mem_of_get? {k : Text} {a : α} (h : m.get? k = some a) : (k, a) ∈ m := by
  obtain ⟨⟨k', a'⟩, he, rfl⟩ := Option.map_eq_some_iff.mp h
  have hkey : k' = k := by simpa using List.find?_some he
  exact hkey ▸ List.mem_of_find?_eq_some he

/-- The entries of a map with unique keys are its keys with their values. -/
theorem Unique.mem_iff (hm : Unique m) {k : Text} {a : α} : (k, a) ∈ m ↔ m.get? k = some a := by
  refine ⟨fun hmem => ?_, mem_of_get?⟩
  have hhas : m.has k = true := List.any_eq_true.mpr ⟨(k, a), hmem, by simp⟩
  rw [has_eq_isSome] at hhas
  obtain ⟨b, hb⟩ := Option.isSome_iff_exists.mp hhas
  have heq := List.inj_on_of_nodup_map hm hmem (mem_of_get? hb) rfl
  rw [hb, (Prod.mk.inj heq).2]

theorem mem_keys_iff {k : Text} : k ∈ m.keys ↔ (m.get? k).isSome = true := by
  rw [← has_eq_isSome]
  simp [keys, has]

theorem Unique.any_iff [BEq α] [LawfulBEq α] (hm : Unique m) (a : α) :
    (m.any fun e => e.2 == a) = true ↔ ∃ k, m.get? k = some a := by
  rw [List.any_eq_true]
  constructor
  · rintro ⟨⟨k, b⟩, hmem, hb⟩
    obtain rfl : b = a := by simpa using hb
    exact ⟨k, hm.mem_iff.mp hmem⟩
  · rintro ⟨k, hk⟩
    exact ⟨(k, a), mem_of_get? hk, by simp⟩

/-! ## Changes -/

theorem Unique.filter (hm : Unique m) (p : Text × α → Bool) : Unique (List.filter p m) :=
  List.Nodup.sublist ((List.filter_sublist).map _) hm

theorem Unique.erase (hm : Unique m) (key : Text) : Unique (m.erase key) :=
  hm.filter _

theorem Unique.set (hm : Unique m) (key : Text) (value : α) : Unique (m.set key value) := by
  unfold Unique TextMap.set
  split
  · -- replacing a value leaves the keys as they are
    have hkeys : TextMap.keys (m.map fun e => if e.1 == key then (key, value) else e) = m.keys := by
      unfold keys
      rw [List.map_map]
      apply List.map_congr_left
      intro e _
      by_cases he : e.1 = key <;> simp [he]
    rwa [hkeys]
  · rename_i hhas
    have hkey : key ∉ m.keys := by
      rw [mem_keys_iff, ← has_eq_isSome]
      exact hhas
    unfold keys at hkey ⊢
    rw [List.map_append]
    exact hm.append (List.nodup_singleton _) (List.disjoint_singleton.mpr hkey)

theorem get?_filter_key (m : TextMap α) (keep : Text → Bool) (q : Text) :
    TextMap.get? (m.filter fun e => keep e.1) q = if keep q then m.get? q else none := by
  unfold get?
  rw [find?_filter_key]
  split <;> rfl

theorem get?_erase (m : TextMap α) (key q : Text) :
    (m.erase key).get? q = if q = key then none else m.get? q := by
  refine (get?_filter_key m (fun k => k != key) q).trans ?_
  by_cases hq : q = key <;> simp [hq]

/-- Dropping entries drops the values that go with them. -/
theorem Unique.get?_filter (hm : Unique m) (p : Text × α → Bool) (q : Text) :
    TextMap.get? (List.filter p m) q = (m.get? q).filter fun a => p (q, a) := by
  ext a
  rw [← (hm.filter p).mem_iff, List.mem_filter, hm.mem_iff, Option.filter_eq_some_iff]

/-- Changing values, each by its key, changes what the keys have. -/
theorem get?_map_value {β : Type} (m : TextMap α) (f : Text → α → β) (q : Text) :
    TextMap.get? (m.map fun e => (e.1, f e.1 e.2)) q = (m.get? q).map (f q) := by
  induction m with
  | nil => rfl
  | cons e m ih =>
      by_cases he : e.1 = q
      · simp [get?, he]
      · simpa [get?, he] using ih

theorem get?_set_eq_update (m : TextMap α) (key : Text) (value : α) :
    (m.set key value).get? = Function.update m.get? key (some value) := by
  funext q
  rw [get?_set]
  by_cases hq : q = key <;> simp [hq]

theorem get?_erase_eq_update (m : TextMap α) (key : Text) :
    (m.erase key).get? = Function.update m.get? key none := by
  funext q
  rw [get?_erase]
  by_cases hq : q = key <;> simp [hq]

end TextMap

end CloneScan
