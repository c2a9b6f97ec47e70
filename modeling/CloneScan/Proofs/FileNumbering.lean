import CloneScan.Proofs.ClusterContainment

/-!
# Files under other numbers

The search knows a file by its number, and the numbers decide which member of a class comes first,
in which order classes are grown and which of several equal blocks is kept.  None of that changes
what is found: when the same files come in another order, classes, growth, thinning and containment
give the same blocks with the numbers replaced.
-/

namespace CloneScan

/-! ## Numbers in another order -/

/-- A renumbering of all but the first item. -/
def renumberTail (σ : Equiv.Perm Nat) : Equiv.Perm Nat where
  toFun
    | 0 => 0
    | i + 1 => σ i + 1
  invFun
    | 0 => 0
    | i + 1 => σ.symm i + 1
  left_inv i := by cases i <;> simp
  right_inv i := by cases i <;> simp

theorem exists_renumbering {α : Type} {l l' : List α} (h : l.Perm l') :
    ∃ σ : Equiv.Perm Nat, ∀ i, l'[σ i]? = l[i]? := by
  induction h with
  | nil => exact ⟨1, fun i => rfl⟩
  | cons a h ih =>
      obtain ⟨σ, hσ⟩ := ih
      refine ⟨renumberTail σ, fun i => ?_⟩
      cases i with
      | zero => rfl
      | succ i => simpa [renumberTail] using hσ i
  | swap a b l =>
      refine ⟨Equiv.swap 0 1, fun i => ?_⟩
      match i with
      | 0 => simp
      | 1 => simp
      | i + 2 => rw [Equiv.swap_apply_of_ne_of_ne (by omega) (by omega)]; rfl
  | trans h h' ih ih' =>
      obtain ⟨σ, hσ⟩ := ih
      obtain ⟨τ, hτ⟩ := ih'
      exact ⟨σ.trans τ, fun i => (hτ (σ i)).trans (hσ i)⟩

/-! ## Windows and members -/

/-- The window of the file with the new number. -/
def Window.renumber (σ : Equiv.Perm Nat) (w : Window) : Window :=
  ⟨σ w.file, w.start⟩

/-- The member in the file with the new number. -/
def Member.renumber (σ : Equiv.Perm Nat) (m : Member) : Member :=
  ⟨σ m.file, m.start, m.stop⟩

@[simp] theorem Window.renumber_file (σ : Equiv.Perm Nat) (w : Window) :
    (w.renumber σ).file = σ w.file := rfl

@[simp] theorem Window.renumber_start (σ : Equiv.Perm Nat) (w : Window) :
    (w.renumber σ).start = w.start := rfl

@[simp] theorem Member.renumber_file (σ : Equiv.Perm Nat) (m : Member) :
    (m.renumber σ).file = σ m.file := rfl

@[simp] theorem Member.renumber_start (σ : Equiv.Perm Nat) (m : Member) :
    (m.renumber σ).start = m.start := rfl

@[simp] theorem Member.renumber_stop (σ : Equiv.Perm Nat) (m : Member) :
    (m.renumber σ).stop = m.stop := rfl

theorem Window.renumber_symm (σ : Equiv.Perm Nat) (w : Window) :
    (w.renumber σ).renumber σ.symm = w := by
  simp [renumber]

theorem Member.renumber_symm (σ : Equiv.Perm Nat) (m : Member) :
    (m.renumber σ).renumber σ.symm = m := by
  simp [renumber]

theorem Window.renumber_injective (σ : Equiv.Perm Nat) : Function.Injective (renumber σ) :=
  Function.LeftInverse.injective (renumber_symm σ)

theorem Member.renumber_injective (σ : Equiv.Perm Nat) : Function.Injective (renumber σ) :=
  Function.LeftInverse.injective (renumber_symm σ)

theorem Member.keep_renumber_symm {σ : Equiv.Perm Nat} {keep keep' : Member → Bool}
    (hkeep : ∀ m : Member, keep' (m.renumber σ) = keep m) (m : Member) :
    keep (m.renumber σ.symm) = keep' m := by
  rw [← hkeep]
  exact congrArg keep' (renumber_symm σ.symm m)

namespace Clone

variable {files files' : Array KeyedFile} {length : Nat} {σ : Equiv.Perm Nat}

/-- The second array holds the keys of the first one under new numbers. -/
structure Renumbers (σ : Equiv.Perm Nat) (files files' : Array KeyedFile) : Prop where
  keyAt_eq : ∀ i k, keyAt files' (σ i) k = keyAt files i k
  keyCount_eq : ∀ i, keyCount files' (σ i) = keyCount files i

namespace Renumbers

theorem symm (h : Renumbers σ files files') : Renumbers σ.symm files' files := by
  constructor
  · intro i k
    rw [← h.keyAt_eq (σ.symm i) k, Equiv.apply_symm_apply]
  · intro i
    rw [← h.keyCount_eq (σ.symm i), Equiv.apply_symm_apply]

theorem windowKeys_eq (h : Renumbers σ files files') (w : Window) :
    windowKeys files' length (w.renumber σ) = windowKeys files length w := by
  simp only [windowKeys, Window.renumber, h.keyAt_eq]

/-! ## Growth

Whether all members agree on a key does not depend on the member that they are compared with. -/

variable {members members' : List Window} {first first' : Window}

theorem agreeBefore_eq (h : Renumbers σ files files')
    (hmembers : members'.Perm (members.map (Window.renumber σ))) (hfirst : first ∈ members)
    (hfirst' : first' ∈ members') (back : Nat) :
    agreeBefore files' first' members' back = agreeBefore files first members back := by
  obtain ⟨other, hother, rfl⟩ := List.mem_map.mp (hmembers.mem_iff.mp hfirst')
  have hin (w : Window) (hw : w ∈ members) : w.renumber σ ∈ members' :=
    hmembers.mem_iff.mpr (List.mem_map_of_mem hw)
  rw [Bool.eq_iff_iff, agreeBefore_iff, agreeBefore_iff]
  constructor
  · intro hagree m hm
    obtain ⟨hback, -, hkey⟩ := hagree _ (hin m hm)
    obtain ⟨hback', -, hkey'⟩ := hagree _ (hin first hfirst)
    simp only [Window.renumber, h.keyAt_eq] at hback hback' hkey hkey'
    exact ⟨hback, hback', hkey.trans hkey'.symm⟩
  · intro hagree m' hm'
    obtain ⟨m, hm, rfl⟩ := List.mem_map.mp (hmembers.mem_iff.mp hm')
    obtain ⟨hback, -, hkey⟩ := hagree m hm
    obtain ⟨hback', -, hkey'⟩ := hagree other hother
    simp only [Window.renumber, h.keyAt_eq]
    exact ⟨hback, hback', hkey.trans hkey'.symm⟩

theorem agreeAfter_eq (h : Renumbers σ files files')
    (hmembers : members'.Perm (members.map (Window.renumber σ))) (hfirst : first ∈ members)
    (hfirst' : first' ∈ members') (ahead : Nat) :
    agreeAfter files' first' members' ahead = agreeAfter files first members ahead := by
  obtain ⟨other, hother, rfl⟩ := List.mem_map.mp (hmembers.mem_iff.mp hfirst')
  have hin (w : Window) (hw : w ∈ members) : w.renumber σ ∈ members' :=
    hmembers.mem_iff.mpr (List.mem_map_of_mem hw)
  rw [Bool.eq_iff_iff, agreeAfter_iff, agreeAfter_iff]
  constructor
  · intro hagree m hm
    obtain ⟨hbound, hkey⟩ := hagree _ (hin m hm)
    obtain ⟨-, hkey'⟩ := hagree _ (hin first hfirst)
    simp only [Window.renumber, h.keyAt_eq, h.keyCount_eq] at hbound hkey hkey'
    exact ⟨hbound, hkey.trans hkey'.symm⟩
  · intro hagree m' hm'
    obtain ⟨m, hm, rfl⟩ := List.mem_map.mp (hmembers.mem_iff.mp hm')
    obtain ⟨hbound, hkey⟩ := hagree m hm
    obtain ⟨-, hkey'⟩ := hagree other hother
    simp only [Window.renumber, h.keyAt_eq, h.keyCount_eq]
    exact ⟨hbound, hkey.trans hkey'.symm⟩

theorem leftGrowth_renumber (h : Renumbers σ files files')
    (hmembers : members'.Perm (members.map (Window.renumber σ))) (hfirst : first ∈ members)
    (hfirst' : first' ∈ members') :
    leftGrowth files' first' members' = leftGrowth files first members := by
  apply leftGrowth_eq hfirst'
  · intro back hpos hback
    rw [h.agreeBefore_eq hmembers hfirst hfirst']
    exact agreeBefore_of_le_leftGrowth hpos hback
  · rw [h.agreeBefore_eq hmembers hfirst hfirst']
    exact not_agreeBefore_leftGrowth hfirst

theorem rightGrowth_renumber (h : Renumbers σ files files')
    (hmembers : members'.Perm (members.map (Window.renumber σ))) (hfirst : first ∈ members)
    (hfirst' : first' ∈ members') :
    rightGrowth files' length first' members' = rightGrowth files length first members := by
  apply rightGrowth_eq hfirst'
  · intro k hk
    rw [h.agreeAfter_eq hmembers hfirst hfirst']
    exact agreeAfter_of_lt_rightGrowth length (by omega) (by omega)
  · rw [h.agreeAfter_eq hmembers hfirst hfirst']
    exact not_agreeAfter_rightGrowth hfirst

end Renumbers

/-! ## Thinning file by file -/

theorem thin_filter (i : Nat) {last : Option Member} {l : List Member}
    (hsorted : l.Pairwise fun a b => Member.le a b = true)
    (hlast : ∀ k ∈ last, ∀ m ∈ l, Member.le k m = true) :
    (thin last l).filter (·.file = i) =
      thin (last.filter (·.file = i)) (l.filter (·.file = i)) := by
  fun_induction thin last l with
  | case1 last => simp [thin]
  | case2 m rest ih =>
      obtain ⟨hle, hrest⟩ := List.pairwise_cons.mp hsorted
      have ih' := ih hrest (by simpa using hle)
      by_cases hm : m.file = i
      · simp_all [thin, Option.filter]
      · simp_all [Option.filter]
  | case3 last m rest h ih =>
      obtain ⟨-, hrest⟩ := List.pairwise_cons.mp hsorted
      have ih' := ih hrest fun k hk a ha => hlast k hk a (by simp [ha])
      obtain ⟨hfile, hstart⟩ : last.file = m.file ∧ m.start ≤ last.stop := by simpa using h
      by_cases hm : m.file = i
      · have hk : last.file = i := hfile.trans hm
        simp [Option.filter, thin, hm, hk, hstart, ih']
      · simp [hm, ih']
  | case4 last m rest h ih =>
      obtain ⟨hle, hrest⟩ := List.pairwise_cons.mp hsorted
      have ih' := ih hrest (by simpa using hle)
      have hapart : last.file = m.file → ¬ m.start ≤ last.stop := by simpa using h
      by_cases hm : m.file = i
      · by_cases hk : last.file = i
        · have hstart := hapart (hk.trans hm.symm)
          simp [Option.filter, thin, hm, hk, hstart, ih']
        · simp [Option.filter, thin, hm, hk, ih']
      · by_cases hk : last.file = i
        · -- the file of `last` is over
          have hover : rest.filter (·.file = i) = [] := by
            rw [List.filter_eq_nil_iff]
            intro a ha
            have hlastm := Member.le_iff.mp (hlast last rfl m (by simp))
            have hma := Member.le_iff.mp (hle a ha)
            simp only [decide_eq_true_eq]
            omega
          simp [hm, ih', hover, thin]
        · simp [Option.filter, hm, hk, ih']

theorem thin_map_renumber (σ : Equiv.Perm Nat) (last : Option Member) (l : List Member) :
    thin (last.map (Member.renumber σ)) (l.map (Member.renumber σ)) =
      (thin last l).map (Member.renumber σ) := by
  fun_induction thin last l with
  | case1 last => cases last <;> rfl
  | case2 m rest ih => simpa [thin] using ih
  | case3 last m rest h ih =>
      have hfile : last.file = m.file ∧ m.start ≤ last.stop := by simpa using h
      simpa [thin, hfile] using ih
  | case4 last m rest h ih =>
      have hapart : ¬ ((last.renumber σ).file == (m.renumber σ).file &&
          (m.renumber σ).start ≤ (last.renumber σ).stop) = true := by
        change ¬ (σ last.file == σ m.file && m.start ≤ last.stop) = true
        simpa using h
      simp only [List.map_cons, Option.map_some, thin] at ih ⊢
      rw [if_neg hapart, ih]

theorem filter_file_renumber {members members' : List Window}
    (hordered : members.Pairwise Window.Before) (hordered' : members'.Pairwise Window.Before)
    (hperm : members'.Perm (members.map (Window.renumber σ))) (i : Nat) :
    members'.filter (·.file = σ i) = (members.filter (·.file = i)).map (Window.renumber σ) := by
  have hfilter : (members.map (Window.renumber σ)).filter (·.file = σ i) =
      (members.filter (·.file = i)).map (Window.renumber σ) := by
    simp [List.filter_map, Function.comp_def]
  have hsorted : ((members.filter (·.file = i)).map (Window.renumber σ)).Pairwise
      Window.Before := by
    refine List.pairwise_map.mpr ((hordered.filter _).imp_of_mem ?_)
    intro a b ha hb hab
    have hfileA : a.file = i := by simpa using (List.mem_filter.mp ha).2
    have hfileB : b.file = i := by simpa using (List.mem_filter.mp hb).2
    simp only [Window.Before, Window.renumber, hfileA, hfileB, Nat.lt_irrefl, false_or] at hab ⊢
    exact hab
  have hfiltered := hperm.filter (·.file = σ i)
  rw [hfilter] at hfiltered
  exact hfiltered.eq_of_pairwise (fun a b _ _ hab hba => absurd hba hab.asymm)
    (hordered'.filter _) hsorted

theorem perm_of_filter_file {l l' : List Member}
    (h : ∀ i, l.filter (·.file = i) = l'.filter (·.file = i)) : l.Perm l' := by
  rw [List.perm_iff_count]
  intro m
  have hcount (l : List Member) : (l.filter (·.file = m.file)).count m = l.count m :=
    List.count_filter (by simp)
  rw [← hcount l, ← hcount l', h]

/-- The ranges of the same windows under new numbers are thinned alike. -/
theorem thin_ranges_perm {members members' : List Window} {left total : Nat}
    (hordered : members.Pairwise Window.Before) (hordered' : members'.Pairwise Window.Before)
    (hperm : members'.Perm (members.map (Window.renumber σ)))
    (hsorted : (members.map (rangeOf left total)).Pairwise fun a b => Member.le a b = true)
    (hsorted' : (members'.map (rangeOf left total)).Pairwise fun a b => Member.le a b = true) :
    (thin none (members'.map (rangeOf left total))).Perm
      ((thin none (members.map (rangeOf left total))).map (Member.renumber σ)) := by
  apply perm_of_filter_file
  intro j
  obtain ⟨i, rfl⟩ := σ.surjective j
  have hranges (i : Nat) (ws : List Window) : (ws.map (rangeOf left total)).filter (·.file = i) =
      (ws.filter (·.file = i)).map (rangeOf left total) := by
    rw [List.filter_map]
    rfl
  calc
    (thin none (members'.map (rangeOf left total))).filter (·.file = σ i)
    _ = thin none ((members'.filter (·.file = σ i)).map (rangeOf left total)) := by
      rw [thin_filter _ hsorted' (by simp), hranges, Option.filter_none]
    _ = thin none (((members.filter (·.file = i)).map (rangeOf left total)).map
          (Member.renumber σ)) := by
      rw [filter_file_renumber hordered hordered' hperm, List.map_map, List.map_map]
      rfl
    _ = (thin none ((members.filter (·.file = i)).map (rangeOf left total))).map
          (Member.renumber σ) := thin_map_renumber σ none _
    _ = ((thin none (members.map (rangeOf left total))).filter (·.file = i)).map
          (Member.renumber σ) := by
      rw [thin_filter _ hsorted (by simp), hranges, Option.filter_none]
    _ = ((thin none (members.map (rangeOf left total))).map (Member.renumber σ)).filter
          (·.file = σ i) := by
      simp [List.filter_map, Function.comp_def]

/-! ## Blocks -/

/-- The second block has the members of the first one in the files with the new numbers. -/
structure IsRenumbered (σ : Equiv.Perm Nat) (b b' : Block) : Prop where
  length_eq : b'.length = b.length
  members_perm : b'.members.Perm (b.members.map (Member.renumber σ))

namespace IsRenumbered

variable {a a' b b' : Block}

theorem symm (h : IsRenumbered σ b b') : IsRenumbered σ.symm b' b := by
  refine ⟨h.length_eq.symm, ?_⟩
  have hperm := h.members_perm.map (Member.renumber σ.symm)
  rw [List.map_map, (funext (Member.renumber_symm σ) :
    Member.renumber σ.symm ∘ Member.renumber σ = id), List.map_id] at hperm
  exact hperm.symm

theorem filter (h : IsRenumbered σ b b') {keep keep' : Member → Bool}
    (hkeep : ∀ m, keep' (m.renumber σ) = keep m) :
    IsRenumbered σ { b with members := b.members.filter keep }
      { b' with members := b'.members.filter keep' } := by
  refine ⟨h.length_eq, ?_⟩
  have hperm := h.members_perm.filter keep'
  rw [List.filter_map, (funext hkeep : keep' ∘ Member.renumber σ = keep)] at hperm
  exact hperm

theorem inside_of_inside (ha : IsRenumbered σ a a') (hb : IsRenumbered σ b b')
    (hab : Block.inside a b = true) : Block.inside a' b' = true := by
  obtain ⟨hcount, hmembers⟩ := Block.inside_iff.mp hab
  have hcountA := ha.members_perm.length_eq
  have hcountB := hb.members_perm.length_eq
  rw [List.length_map] at hcountA hcountB
  refine Block.inside_iff.mpr ⟨by omega, ?_⟩
  intro m' hm'
  obtain ⟨m, hm, rfl⟩ := List.mem_map.mp (ha.members_perm.mem_iff.mp hm')
  obtain ⟨n, hn, hmn⟩ := hmembers m hm
  obtain ⟨hfile, hstart, hstop⟩ := Member.inside_iff.mp hmn
  refine ⟨n.renumber σ, hb.members_perm.mem_iff.mpr (List.mem_map_of_mem hn), ?_⟩
  exact Member.inside_iff.mpr ⟨congrArg σ hfile, hstart, hstop⟩

theorem perm_of_common (h : IsRenumbered σ a b) (h' : IsRenumbered σ a' b) :
    a.members.Perm a'.members := by
  have hperm := h.members_perm.symm.trans h'.members_perm
  exact (List.map_perm_map_iff (Member.renumber_injective σ)).mp hperm

end IsRenumbered

namespace Renumbers

theorem grownBlock_renumbered (h : Renumbers σ files files') {members members' : List Window}
    (halike : Alike files length members) (halike' : Alike files' length members')
    (hmembers : members'.Perm (members.map (Window.renumber σ))) :
    IsRenumbered σ (grownBlock files length members) (grownBlock files' length members') := by
  cases members with
  | nil =>
      obtain rfl := List.perm_nil.mp hmembers
      exact ⟨rfl, List.Perm.nil⟩
  | cons first more =>
      cases members' with
      | nil => exact absurd hmembers.nil_eq.symm (by simp)
      | cons first' more' =>
          have hleft := h.leftGrowth_renumber hmembers List.mem_cons_self List.mem_cons_self
          have hright : rightGrowth files' length first' (first' :: more') =
              rightGrowth files length first (first :: more) :=
            h.rightGrowth_renumber hmembers List.mem_cons_self List.mem_cons_self
          have hsorted := halike.ranges_pairwise_le (grownLength files length first (first :: more))
          have hsorted' :=
            halike'.ranges_pairwise_le (grownLength files length first (first :: more))
          have htotal : grownLength files' length first' (first' :: more') =
              grownLength files length first (first :: more) := by
            rw [grownLength, grownLength, hleft, hright]
          simp only [grownBlock, halike.grow_block, halike'.grow_block, htotal]
          rw [hleft] at hsorted' ⊢
          exact ⟨rfl, thin_ranges_perm halike.ordered halike'.ordered hmembers hsorted hsorted'⟩

section Search

variable (h : Renumbers σ files files') (hhash : HasWindowHashes files length)
  (hkeys : HashesFollowKeys files length) (hhash' : HasWindowHashes files' length)
  (hkeys' : HashesFollowKeys files' length) (hlength : 0 < length)

include h hhash hkeys hhash' hkeys' hlength

theorem exists_class {members : List Window} (hmembers : members ∈ classes files length) :
    ∃ members' ∈ classes files' length, members'.Perm (members.map (Window.renumber σ)) := by
  obtain ⟨htwo, p, hp, rfl⟩ := mem_classes_iff.mp hmembers
  have hbound := windows_start_bounded hhash hlength hp
  rw [← h.keyCount_eq] at hbound
  obtain ⟨hash, hp'⟩ := (exists_mem_windows_iff (w := p.1.renumber σ) hhash' hlength).mpr hbound
  have hmem (w : Window) : w.renumber σ ∈ windowClass files' length (p.1.renumber σ, hash) ↔
      w ∈ windowClass files length p := by
    rw [mem_windowClass_iff_keys hhash hkeys hlength hp,
      mem_windowClass_iff_keys hhash' hkeys' hlength hp', h.windowKeys_eq, h.windowKeys_eq]
    simp only [Window.renumber, h.keyCount_eq]
  have hnodup {files : Array KeyedFile} (q : Window × Nat) : (windowClass files length q).Nodup :=
    (windowClass_pairwise_before files length q).imp fun hab heq => (heq ▸ hab).irrefl
  have hperm : (windowClass files' length (p.1.renumber σ, hash)).Perm
      ((windowClass files length p).map (Window.renumber σ)) := by
    refine (List.perm_ext_iff_of_nodup (hnodup _)
      ((hnodup p).map (Window.renumber_injective σ))).mpr fun w => ?_
    obtain ⟨v, rfl⟩ : ∃ v : Window, v.renumber σ = w := ⟨_, Window.renumber_symm σ.symm w⟩
    rw [hmem, List.mem_map_of_injective (Window.renumber_injective σ)]
  refine ⟨_, mem_classes_iff.mpr ⟨?_, _, hp', rfl⟩, hperm⟩
  rw [hperm.length_eq, List.length_map]
  exact htwo

theorem exists_grownBlock {b : Block} (hb : b ∈ grownBlocks files length) :
    ∃ b' ∈ grownBlocks files' length, IsRenumbered σ b b' := by
  obtain ⟨htwo, members, hmembers, rfl⟩ := (mem_grownBlocks_iff hhash hkeys hlength).mp hb
  obtain ⟨members', hmembers', hperm⟩ :=
    h.exists_class hhash hkeys hhash' hkeys' hlength hmembers
  have hblock := h.grownBlock_renumbered (alike_of_mem_classes hhash hlength hmembers)
    (alike_of_mem_classes hhash' hlength hmembers') hperm
  refine ⟨_, (mem_grownBlocks_iff hhash' hkeys' hlength).mpr ⟨?_, members', hmembers', rfl⟩, hblock⟩
  rw [hblock.members_perm.length_eq, List.length_map]
  exact htwo

theorem exists_acceptedBlock {keep keep' : Member → Bool}
    (hkeep : ∀ m, keep' (m.renumber σ) = keep m) {b : Block}
    (hb : b ∈ acceptedBlocks files length keep) :
    ∃ b' ∈ acceptedBlocks files' length keep', IsRenumbered σ b b' := by
  obtain ⟨htwo, g, hg, rfl⟩ := mem_acceptedBlocks hb
  obtain ⟨g', hg', hblock⟩ := h.exists_grownBlock hhash hkeys hhash' hkeys' hlength hg
  have haccepted := hblock.filter hkeep
  have htwo' : 2 ≤ (g'.members.filter keep').length := by
    have hcount := haccepted.members_perm.length_eq
    rw [List.length_map] at hcount
    exact hcount ▸ htwo
  exact ⟨_, List.mem_filterMap.mpr ⟨g', hg', by simp [htwo']⟩, haccepted⟩

/-- What is found does not depend on the numbers of the files. -/
theorem exists_findBlocks {keep keep' : Member → Bool}
    (hkeep : ∀ m, keep' (m.renumber σ) = keep m) {b : Block}
    (hb : b ∈ findBlocks files length keep) :
    ∃ b' ∈ findBlocks files' length keep', IsRenumbered σ b b' := by
  rw [findBlocks_eq hlength] at hb ⊢
  have hproper : ∀ c ∈ acceptedBlocks files length keep, c.IsProper :=
    fun c hc => acceptedBlocks_isProper hlength hc
  have hmem := mem_of_mem_dropContained hb
  obtain ⟨c', hc', hbc⟩ :=
    h.exists_acceptedBlock hhash hkeys hhash' hkeys' hlength hkeep hmem
  -- the kept container of `c'` comes from a block with the members of `b`
  obtain ⟨d', hd', hinside'⟩ := exists_inside_dropContained hc'
  obtain ⟨d, hd, hdd⟩ := h.symm.exists_acceptedBlock hhash' hkeys' hhash hkeys hlength
    (Member.keep_renumber_symm hkeep) (mem_of_mem_dropContained hd')
  have hinside : Block.inside b d = true := hbc.symm.inside_of_inside hdd hinside'
  have hback := isMaximal_of_mem_dropContained hproper hb d hd hinside
  have hperm := perm_of_inside_of_inside (hproper d hd) (hproper b hmem) hback hinside
  have hlengthD := length_le_of_inside (hproper d hd) (hproper b hmem) hback
  have hlengthB := length_le_of_inside (hproper b hmem) (hproper d hd) hinside
  have hdd' : IsRenumbered σ d d' := hdd.symm
  refine ⟨d', hd', ?_, hdd'.members_perm.trans (hperm.map _)⟩
  rw [hdd'.length_eq]
  omega

omit hlength in
/-- Blocks are found once each, so values that do not depend on the numbers are the same. -/
theorem findBlocks_perm_map {γ : Type} (keep keep' : Member → Bool)
    (hkeep : ∀ m, keep' (m.renumber σ) = keep m) (f f' : Block → γ)
    (hvalues : ∀ b b', IsRenumbered σ b b' → f b = f' b') :
    ((findBlocks files length keep).map f).Perm ((findBlocks files' length keep').map f') := by
  rcases Nat.eq_zero_or_pos length with rfl | hlength
  · simp [findBlocks]
  · apply perm_map_of_matching
    · exact fun b hb => h.exists_findBlocks hhash hkeys hhash' hkeys' hlength hkeep hb
    · intro b' hb'
      obtain ⟨b, hb, hbb⟩ :=
        h.symm.exists_findBlocks hhash' hkeys' hhash hkeys hlength
          (Member.keep_renumber_symm hkeep) hb'
      exact ⟨b, hb, hbb.symm⟩
    · refine (findBlocks_pairwise files length keep).imp ?_
      intro a b hab c _ hac hbc
      exact hab.1 (Block.inside_of_perm (hac.perm_of_common hbc))
    · refine (findBlocks_pairwise files' length keep').imp ?_
      intro a b hab c _ hca hcb
      exact hab.1 (Block.inside_of_perm (hca.symm.perm_of_common hcb.symm))
    · exact fun b _ b' _ hbb => hvalues b b' hbb

end Search

end Renumbers

end Clone

/-! ## Clusters -/

namespace Cluster

variable {files files' : List IndexedFile} {window : Nat}

theorem locate_renumber {σ : Equiv.Perm Nat} (hσ : ∀ i, files'[σ i]? = files[i]?) (m : Member) :
    locate files'.toArray (m.renumber σ) = locate files.toArray m := by
  simp only [locate, Member.renumber, List.getElem?_toArray, hσ]

theorem renumbers_keyed {σ : Equiv.Perm Nat} (hσ : ∀ i, files'[σ i]? = files[i]?) :
    Clone.Renumbers σ (keyed files) (keyed files') := by
  constructor
  · intro i k
    simp only [Clone.keyAt, keyed_getElem?, hσ]
  · intro i
    simp only [Clone.keyCount, keyed_getElem?, hσ]

theorem occurrences_ofBlock_perm {σ : Equiv.Perm Nat} (hσ : ∀ i, files'[σ i]? = files[i]?)
    {b b' : Block} (h : Clone.IsRenumbered σ b b') :
    (ofBlock files'.toArray b').occurrences.Perm (ofBlock files.toArray b).occurrences := by
  have hperm := h.members_perm.map fun m =>
    (⟨locate files'.toArray m, m.start, m.stop⟩ : Occurrence)
  simp only [List.map_map, Function.comp_def, locate_renumber hσ] at hperm
  exact hperm

/-- Permuting the files permutes the clusters, as far as the number of tokens and the occurrences
in any order tell. -/
theorem findClusters_perm_map {γ : Type} {f : Cluster → γ}
    (hf : ∀ c d : Cluster, c.tokenCount = d.tokenCount → c.occurrences.Perm d.occurrences →
      f c = f d)
    (hperm : files.Perm files') (hhashes : HasKeyHashes files window) (keep : Location → Bool) :
    ((findClusters files window keep).map f).Perm ((findClusters files' window keep).map f) := by
  rcases Nat.eq_zero_or_pos window with rfl | hwindow
  · simp [findClusters, Clone.findBlocks]
  · obtain ⟨σ, hσ⟩ := exists_renumbering hperm
    have hhashes' : HasKeyHashes files' window := fun g hg => hhashes g (hperm.mem_iff.mpr hg)
    have hblocks := (renumbers_keyed hσ).findBlocks_perm_map (hhashes.hasWindowHashes hwindow)
      (hhashes.hashesFollowKeys hwindow) (hhashes'.hasWindowHashes hwindow)
      (hhashes'.hashesFollowKeys hwindow) (fun m => keep (locate files.toArray m))
      (fun m => keep (locate files'.toArray m)) (fun m => by rw [locate_renumber hσ])
      (fun b => f (ofBlock files.toArray b)) (fun b => f (ofBlock files'.toArray b))
      fun b b' hb => hf _ _ hb.length_eq.symm (occurrences_ofBlock_perm hσ hb).symm
    simpa [findClusters, keyed, List.map_map, Function.comp_def] using hblocks

end Cluster

end CloneScan
