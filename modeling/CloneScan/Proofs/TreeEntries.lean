import Mathlib.Data.List.Infix
import CloneScan.Proofs.DiskFiles

/-!
# The entries of a file tree

In a tree where everything lies in a directory, an operation along paths without files in the way
reads and changes the entries of single paths: what it finds is what stands under the path, and
each change says which entry every path has afterwards.
-/

namespace CloneScan

namespace FileTree

variable {t : FileTree} {path q : List Text}

/-- Everything in the tree lies in a directory. -/
def IsRooted (t : FileTree) : Prop :=
  ∀ path e, t.entry? path = some e → t.entry? path.dropLast = some .directory

/-- No file stands under the path. -/
def IsClear (t : FileTree) (path : List Text) : Prop :=
  ∀ bytes time, t.entry? path ≠ some (.file bytes time)

@[simp] theorem entry?_nil (t : FileTree) : t.entry? [] = some .directory :=
  rfl

theorem isRooted_empty : IsRooted .empty := by
  intro path e h
  cases path with
  | nil => rfl
  | cons s path => cases h

/-! ## Finding -/

theorem IsRooted.entry?_of_append (ht : t.IsRooted) {rest : List Text} {e : FileEntry}
    (hrest : rest ≠ []) (h : t.entry? (path ++ rest) = some e) :
    t.entry? path = some .directory := by
  induction rest using List.reverseRecOn generalizing e with
  | nil => exact absurd rfl hrest
  | append_singleton rest s ih =>
      have hparent := ht _ _ h
      rw [← List.append_assoc, List.dropLast_concat] at hparent
      by_cases hnil : rest = []
      · rwa [hnil, List.append_nil] at hparent
      · exact ih hnil hparent

theorem IsRooted.entry?_of_prefix (ht : t.IsRooted) {e : FileEntry} (habove : q <+: path)
    (hne : q ≠ path) (h : t.entry? path = some e) : t.entry? q = some .directory := by
  obtain ⟨rest, rfl⟩ := habove
  exact ht.entry?_of_append (fun hrest => hne (by rw [hrest, List.append_nil])) h

theorem IsRooted.find_of_some (ht : t.IsRooted) {e : FileEntry} (h : t.entry? path = some e) :
    t.find path = .ok e := by
  have hdescend : ∀ rest here, t.entry? (here ++ rest) = some e → t.descend here rest = .ok e := by
    intro rest
    induction rest with
    | nil =>
        intro here h
        rw [List.append_nil] at h
        simp [descend, h]
    | cons s rest ih =>
        intro here h
        rw [descend, ht.entry?_of_append (by simp) h]
        exact ih _ (by simpa using h)
  exact hdescend path [] h

/-- Nothing is missed for a file that stands in the way. -/
theorem find_of_none (hclear : ∀ q, q <+: path → t.IsClear q) (h : t.entry? path = none) :
    t.find path = .error .missing := by
  have hdescend : ∀ rest here, here ++ rest = path → t.descend here rest = .error .missing := by
    intro rest
    induction rest with
    | nil =>
        intro here hpath
        rw [List.append_nil] at hpath
        simp [descend, hpath, h]
    | cons s rest ih =>
        intro here hpath
        cases hentry : t.entry? here with
        | none => simp [descend, hentry]
        | some e =>
            cases e with
            | file bytes time => exact absurd hentry (hclear here ⟨_, hpath⟩ bytes time)
            | directory =>
                simp only [descend, hentry]
                exact ih _ (by simpa using hpath)
  exact hdescend path [] rfl

/-! ## Removing -/

theorem entry?_filter (t : FileTree) (keep : List Text → Bool) (hq : q ≠ []) :
    FileTree.entry? ⟨t.entries.filter fun e => keep e.1⟩ q =
      if keep q then t.entry? q else none := by
  have hempty : q.isEmpty = false := by simpa using hq
  simp only [ entry?, hempty, Bool.false_eq_true, if_false, find?_filter_key]
  split <;> rfl

/-- The tree without the entry of a path. -/
def without (t : FileTree) (path : List Text) : FileTree :=
  ⟨t.entries.filter fun e => e.1 != path⟩

theorem entry?_without (t : FileTree) (hpath : path ≠ []) (q : List Text) :
    FileTree.entry? (t.without path) q = if q = path then none else t.entry? q := by
  by_cases hq : q = []
  · rw [hq, if_neg (Ne.symm hpath)]
    rfl
  · refine (entry?_filter t (fun p => p != path) hq).trans ?_
    by_cases heq : q = path <;> simp [heq]

theorem without_of_none (hpath : path ≠ []) (h : t.entry? path = none) : t.without path = t := by
  unfold without
  congr
  rw [List.filter_eq_self]
  intro e he
  unfold entry? at h
  rw [if_neg (by simpa using hpath), Option.map_eq_none_iff, List.find?_eq_none] at h
  simpa [bne] using h e he

/-- A file can go without anything losing its directory. -/
theorem IsRooted.without (ht : t.IsRooted) (hpath : path ≠ [])
    (hfile : t.entry? path ≠ some .directory) : (t.without path).IsRooted := by
  intro q e h
  rw [entry?_without t hpath] at h ⊢
  split at h
  case isTrue => cases h
  case isFalse =>
      have hparent := ht q e h
      rw [if_neg]
      · exact hparent
      · intro heq
        exact hfile (heq ▸ hparent)

theorem IsRooted.remove_of_file (ht : t.IsRooted) {bytes : List UInt8} {time : Option Number}
    (h : t.entry? path = some (.file bytes time)) : t.remove path = .ok (t.without path) := by
  rw [remove, ht.find_of_some h]
  rfl

/-- Everything under a path goes, and nothing else. -/
theorem IsRooted.removeAll (ht : t.IsRooted) (hclear : ∀ q, q <+: path → t.IsClear q) :
    ∃ t', t.removeAll path = .ok t' ∧ t'.IsRooted ∧
      ∀ q, t'.entry? q = if path <+: q ∧ q ≠ [] then none else t.entry? q := by
  cases h : t.entry? path with
  | none =>
      refine ⟨t, by rw [FileTree.removeAll, find_of_none hclear h], ht, fun q => ?_⟩
      split
      case isFalse => rfl
      case isTrue hbelow =>
          cases hq : t.entry? q with
          | none => rfl
          | some e =>
              by_cases heq : path = q
              · rw [heq, hq] at h
                cases h
              · rw [ht.entry?_of_prefix hbelow.1 heq hq] at h
                cases h
  | some e =>
      have hentry (q : List Text) :
          FileTree.entry? ⟨t.entries.filter fun e => !path.isPrefixOf e.1⟩ q =
            if path <+: q ∧ q ≠ [] then none else t.entry? q := by
        by_cases hq : q = []
        · simp [hq]
        · refine (entry?_filter t (fun p => !path.isPrefixOf p) hq).trans ?_
          by_cases hbelow : path <+: q
          · simp [hbelow, hq, List.isPrefixOf_iff_prefix.mpr hbelow]
          · simp [hbelow, Bool.eq_false_iff.mpr (mt List.isPrefixOf_iff_prefix.mp hbelow)]
      refine ⟨_, by rw [FileTree.removeAll, ht.find_of_some h], ?_, hentry⟩
      intro q e' hq
      rw [hentry] at hq ⊢
      split at hq
      case isTrue => cases hq
      case isFalse habove =>
          rw [if_neg, ht q e' hq]
          rintro ⟨hbelow, hne⟩
          refine habove ⟨hbelow.trans (List.dropLast_prefix q), fun hnil => hne ?_⟩
          rw [hnil]
          rfl

/-! ## Making directories and writing -/

theorem between_cons_iff (here rest q : List Text) (s : Text) :
    here <+: q ∧ q <+: here ++ s :: rest ↔
      q = here ∨ here ++ [s] <+: q ∧ q <+: here ++ [s] ++ rest := by
  constructor
  · rintro ⟨⟨r, rfl⟩, h⟩
    rw [List.prefix_append_right_inj, List.prefix_cons_iff] at h
    rcases h with rfl | ⟨r, rfl, hr⟩
    · exact .inl (List.append_nil here)
    · refine .inr ⟨⟨r, by simp⟩, ?_⟩
      rw [List.append_cons, List.prefix_append_right_inj]
      exact hr
  · rintro (rfl | ⟨h, h'⟩)
    · exact ⟨List.prefix_rfl, List.prefix_append _ _⟩
    · exact ⟨(List.prefix_append here [s]).trans h, by simpa using h'⟩

theorem makeFrom_spec (here rest : List Text) (t : FileTree)
    (hhere : t.entry? here = some .directory)
    (hclear : ∀ q, here <+: q → q <+: here ++ rest → t.IsClear q) :
    ∃ t', t.makeFrom here rest = .ok t' ∧
      ∀ q, t'.entry? q =
        if here <+: q ∧ q <+: here ++ rest then some .directory else t.entry? q := by
  induction rest generalizing t here with
  | nil =>
      refine ⟨t, rfl, fun q => ?_⟩
      split
      case isFalse => rfl
      case isTrue h =>
          rw [List.append_nil] at h
          rw [h.2.eq_of_length (le_antisymm h.2.length_le h.1.length_le), hhere]
  | cons s rest ih =>
      have hbelow (q : List Text) (h : here ++ [s] <+: q) (h' : q <+: here ++ [s] ++ rest) :
          t.IsClear q := by
        obtain ⟨hq, hq'⟩ := (between_cons_iff here rest q s).mpr (.inr ⟨h, h'⟩)
        exact hclear q hq hq'
      -- either way the next directory is there, and nothing else changed
      obtain ⟨t₁, hmake, hentry⟩ : ∃ t₁ : FileTree,
          t.makeFrom here (s :: rest) = t₁.makeFrom (here ++ [s]) rest ∧
          ∀ q, t₁.entry? q = if q = here ++ [s] then some .directory else t.entry? q := by
        cases hnext : t.entry? (here ++ [s]) with
        | none =>
            refine ⟨t.setEntry (here ++ [s]) .directory, by simp [makeFrom, hnext], fun q => ?_⟩
            rw [setEntry_spec t (by simp)]
            simp
        | some e =>
            cases e with
            | file bytes time =>
                exact absurd hnext (hbelow _ List.prefix_rfl (List.prefix_append _ _) bytes time)
            | directory =>
                refine ⟨t, by simp [makeFrom, hnext], fun q => ?_⟩
                split
                case isTrue hq => rw [hq, hnext]
                case isFalse => rfl
      obtain ⟨t', hrest, hentry'⟩ := ih (here ++ [s]) t₁ (by simp [hentry]) (by
        intro q h h' bytes time hq
        rw [hentry] at hq
        split at hq
        · cases hq
        · exact hbelow q h h' bytes time hq)
      refine ⟨t', hmake.trans hrest, fun q => ?_⟩
      rw [hentry', hentry]
      by_cases h : here ++ [s] <+: q ∧ q <+: here ++ [s] ++ rest
      · rw [if_pos h, if_pos ((between_cons_iff here rest q s).mpr (.inr h))]
      · rw [if_neg h]
        have hne : q ≠ here ++ [s] := by
          rintro rfl
          exact h ⟨List.prefix_rfl, List.prefix_append _ _⟩
        rw [if_neg hne]
        by_cases hq : q = here
        · rw [if_pos ((between_cons_iff here rest q s).mpr (.inl hq)), hq, hhere]
        · rw [if_neg]
          exact fun hbetween => ((between_cons_iff here rest q s).mp hbetween).elim hq h

/-- A file is saved in a directory that is made for it. -/
theorem IsRooted.save (ht : t.IsRooted) {directory : List Text} {name : Text} (bytes : List UInt8)
    (now : Number) (hpath : path = directory ++ [name])
    (hclear : ∀ q, q <+: directory → t.IsClear q) (hfile : t.entry? path ≠ some .directory) :
    ∃ t₁ t', t.makeDirectory directory = .ok t₁ ∧ t₁.write path bytes now = .ok t' ∧ t'.IsRooted ∧
      ∀ q, t'.entry? q =
        if q = path then some (.file bytes (some now))
        else if q <+: directory then some .directory else t.entry? q := by
  subst hpath
  obtain ⟨t₁, hmake, hmade⟩ := makeFrom_spec [] directory t rfl fun q _ hq => hclear q hq
  simp only [List.nil_append, List.nil_prefix, true_and] at hmade
  have hname : ¬ directory ++ [name] <+: directory := by
    intro h
    have hlength := h.length_le
    rw [List.length_append, List.length_singleton] at hlength
    omega
  have hrooted : t₁.IsRooted := by
    intro q e hq
    rw [hmade] at hq ⊢
    split at hq
    case isTrue habove => rw [if_pos ((List.dropLast_prefix q).trans habove)]
    case isFalse => rw [ht q e hq, ite_self]
  have hparent : t₁.find directory = .ok .directory :=
    hrooted.find_of_some (by rw [hmade, if_pos List.prefix_rfl])
  have hwrite : t₁.write (directory ++ [name]) bytes now =
      .ok (t₁.setEntry (directory ++ [name]) (.file bytes (some now))) := by
    have hfile' : t₁.entry? (directory ++ [name]) = t.entry? (directory ++ [name]) := by
      rw [hmade, if_neg hname]
    cases hentry : t₁.entry? (directory ++ [name]) with
    | none =>
        have hway (q : List Text) (hq : q <+: directory ++ [name]) : t₁.IsClear q := by
          intro bytes time hbytes
          rw [List.prefix_concat_iff] at hq
          rcases hq with rfl | hq
          · rw [hentry] at hbytes
            cases hbytes
          · rw [hmade, if_pos hq] at hbytes
            cases hbytes
        simp [write, find_of_none hway hentry, hparent]
    | some e =>
        cases e with
        | directory => exact absurd (hfile'.symm.trans hentry) hfile
        | file old time => simp [write, hrooted.find_of_some hentry]
  refine ⟨t₁, _, hmake, hwrite, ?_, fun q => ?_⟩
  · intro q e hq
    simp only [setEntry_spec t₁ (show directory ++ [name] ≠ [] by simp), beq_iff_eq] at hq ⊢
    split at hq
    case isTrue heq =>
        have hne : directory ≠ directory ++ [name] := by simp
        rw [heq, List.dropLast_concat, if_neg hne, hmade, if_pos List.prefix_rfl]
    case isFalse =>
        have hq := hrooted q e hq
        rw [if_neg, hq]
        intro heq
        rw [heq, hmade, if_neg hname] at hq
        exact hfile hq
  · rw [setEntry_spec t₁ (by simp), hmade]
    simp

/-! ## Listing -/

theorem IsRooted.mem_list (ht : t.IsRooted) (h : t.entry? path = some .directory) :
    ∃ names, t.list path = .ok names ∧
      ∀ name, name ∈ names ↔ ( t.entry? (path ++ [name])).isSome = true := by
  refine ⟨_, by rw [list, ht.find_of_some h], fun name => ?_⟩
  have hentry : t.entry? (path ++ [name]) =
      (t.entries.find? fun e => e.1 == path ++ [name]).map (·.2) := by
    simp [ entry?]
  rw [hentry, Option.isSome_map, List.find?_isSome, List.mem_filterMap]
  apply exists_congr
  intro e
  refine and_congr_right fun _ => ?_
  constructor
  · intro hname
    split at hname
    case isFalse => cases hname
    case isTrue hparent =>
        rw [beq_iff_eq, ← eq_of_beq hparent]
        exact (List.dropLast_append_getLast? name hname).symm
  · intro he
    rw [eq_of_beq he]
    simp

end FileTree

end CloneScan
