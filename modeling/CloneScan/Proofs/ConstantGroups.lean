import CloneScan.Proofs.ClusterThresholds
import CloneScan.Proofs.EditDistance
import CloneScan.Proofs.ForestRoots
import CloneScan.Proofs.ReportOrder

/-!
# Groups of constants

The matching of names is symmetric.  Linking every pair of matching names gives two names the same
root exactly when a chain of matching names leads from one to the other.  What is reported of a
group therefore depends on its definitions, not on the order in which the files come.
-/

namespace CloneScan.Constant

/-! ## Matching names -/

theorem areAntonyms_comm (a b : Text) : areAntonyms a b = areAntonyms b a := by
  unfold areAntonyms
  congr 1
  funext p
  rw [Bool.or_comm, Bool.and_comm, Bool.and_comm (a == Text.ofString p.1)]

theorem any_areAntonyms_comm (l r : List Text) :
    (l.any fun x => r.any fun y => areAntonyms x y) =
      r.any fun y => l.any fun x => areAntonyms y x := by
  rw [Bool.eq_iff_iff]
  simp only [List.any_eq_true]
  constructor
  · rintro ⟨x, hx, y, hy, h⟩
    exact ⟨y, hy, x, hx, areAntonyms_comm x y ▸ h⟩
  · rintro ⟨y, hy, x, hx, h⟩
    exact ⟨x, hx, y, hy, areAntonyms_comm y x ▸ h⟩

theorem namesMatch_comm (a b : Text) : namesMatch a b = namesMatch b a := by
  have hequal : (a == b) = (b == a) := BEq.comm
  have hdigits : ((a.filter fun u => !Text.isDigit u) == b.filter fun u => !Text.isDigit u) =
      ((b.filter fun u => !Text.isDigit u) == a.filter fun u => !Text.isDigit u) := BEq.comm
  simp only [namesMatch, hequal, hdigits]
  rw [any_areAntonyms_comm, editDistance_comm,
    Bool.or_comm (decide ((words a).length < 2)),
    Bool.and_comm (List.isEmpty ((words a).filter fun w => !(words b).contains w))]

/-! ## Connected names -/

/-- A chain of matching names of the list leads from one name to the other. -/
def Linked (names : List Text) : Text → Text → Prop :=
  Relation.EqvGen fun a b => a ∈ names ∧ b ∈ names ∧ namesMatch a b = true

theorem Linked.congr {names names' : List Text} (h : ∀ a, a ∈ names ↔ a ∈ names') :
    Linked names = Linked names' := by
  simp only [Linked, h]

theorem mem_foldl_distinct {α : Type} [BEq α] [LawfulBEq α] (items seen : List α) (x : α) :
    x ∈ items.foldl (fun seen x => if seen.contains x then seen else seen ++ [x]) seen ↔
      x ∈ seen ∨ x ∈ items := by
  induction items generalizing seen with
  | nil => simp
  | cons y items ih =>
      rw [List.foldl_cons, ih]
      by_cases hy : y ∈ seen
      · have hseen : seen.contains y = true := by simpa using hy
        rw [if_pos hseen, List.mem_cons]
        constructor
        · rintro (h | h)
          · exact Or.inl h
          · exact Or.inr (Or.inr h)
        · rintro (h | rfl | h)
          · exact Or.inl h
          · exact Or.inl hy
          · exact Or.inr h
      · have hseen : ¬ seen.contains y = true := by simpa using hy
        rw [if_neg hseen, List.mem_append, List.mem_singleton, List.mem_cons, or_assoc]

theorem mem_distinct {α : Type} [BEq α] [LawfulBEq α] {items : List α} {x : α} :
    x ∈ distinct items ↔ x ∈ items := by
  rw [distinct, mem_foldl_distinct]
  simp

theorem nodup_distinct {α : Type} [BEq α] [LawfulBEq α] (items : List α) :
    (distinct items).Nodup := by
  have hrun (seen : List α) (hseen : seen.Nodup) :
      (items.foldl (fun seen x => if seen.contains x then seen else seen ++ [x]) seen).Nodup := by
    induction items generalizing seen with
    | nil => exact hseen
    | cons y items ih =>
        rw [List.foldl_cons]
        apply ih
        split
        · exact hseen
        · next hy =>
            rw [← List.concat_eq_append]
            exact hseen.concat (by simpa using hy)
  exact hrun [] List.nodup_nil

theorem length_distinct_of_perm {α : Type} [BEq α] [LawfulBEq α] {l l' : List α} (h : l.Perm l') :
    (distinct l).length = (distinct l').length := by
  apply List.Perm.length_eq
  refine (List.perm_ext_iff_of_nodup (nodup_distinct l) (nodup_distinct l')).mpr fun x => ?_
  rw [mem_distinct, mem_distinct, h.mem_iff]

/-! ## Linking numbers -/

section Linking

variable {names : List Text} {forest forest' forest'' : Forest names.length}
  {i : Fin names.length}

/-- Numbers with the same root have linked names. -/
def IsSound (names : List Text) (forest : Forest names.length) : Prop :=
  ∀ i j, forest.rootOf i = forest.rootOf j → Linked names (names.get i) (names.get j)

theorem IsSound.link (h : IsSound names forest) {j : Fin names.length}
    (hmatch : namesMatch (names.get i) (names.get j) = true) : IsSound names (forest.link i j) := by
  have hij : Linked names (names.get i) (names.get j) :=
    .rel _ _ ⟨List.get_mem _ _, List.get_mem _ _, hmatch⟩
  -- a number that gets the root of `i` had the root of `j`
  have hlike (k : Fin names.length) (hk : forest.rootOf k = forest.rootOf j) :
      Linked names (names.get k) (names.get i) :=
    .trans _ _ _ (h k j hk) (.symm _ _ hij)
  intro k l hsame
  rw [Forest.rootOf_link, Forest.rootOf_link] at hsame
  by_cases hk : forest.rootOf k = forest.rootOf j
  · by_cases hl : forest.rootOf l = forest.rootOf j
    · exact .trans _ _ _ (hlike k hk) (.symm _ _ (hlike l hl))
    · rw [if_pos hk, if_neg hl] at hsame
      exact .trans _ _ _ (hlike k hk) (h i l hsame)
  · by_cases hl : forest.rootOf l = forest.rootOf j
    · rw [if_neg hk, if_pos hl] at hsame
      exact .trans _ _ _ (h k i hsame) (.symm _ _ (hlike l hl))
    · rw [if_neg hk, if_neg hl] at hsame
      exact h k l hsame

/-- A later state of the forest: still sound, and what had one root still has. -/
structure Coarsens (names : List Text) (forest forest' : Forest names.length) : Prop where
  sound : IsSound names forest'
  kept : ∀ i j, forest.rootOf i = forest.rootOf j → forest'.rootOf i = forest'.rootOf j

theorem Coarsens.refl (h : IsSound names forest) : Coarsens names forest forest :=
  ⟨h, fun _ _ hsame => hsame⟩

theorem Coarsens.trans (h : Coarsens names forest forest') (h' : Coarsens names forest' forest'') :
    Coarsens names forest forest'' :=
  ⟨h'.sound, fun i j hsame => h'.kept i j (h.kept i j hsame)⟩

/-- One step of linking. -/
theorem coarsens_link (h : IsSound names forest) (i j : Fin names.length)
    (hmatch : namesMatch (names.get i) (names.get j) = true) :
    Coarsens names forest (forest.link i j) ∧
      (forest.link i j).rootOf i = (forest.link i j).rootOf j := by
  refine ⟨⟨h.link hmatch, fun k l hsame => ?_⟩, ?_⟩
  · rw [Forest.rootOf_link, Forest.rootOf_link, hsame]
  · rw [Forest.rootOf_link, Forest.rootOf_link, if_pos rfl, ite_self]

/-- Linking one number with some others. -/
theorem coarsens_foldl_link (h : IsSound names forest) (i : Fin names.length)
    (later : List (Fin names.length)) :
    let linked := later.foldl
      (fun forest j =>
        if namesMatch (names.get i) (names.get j) then forest.link i j else forest) forest
    Coarsens names forest linked ∧ ∀ j ∈ later, namesMatch (names.get i) (names.get j) = true →
      linked.rootOf i = linked.rootOf j := by
  induction later generalizing forest with
  | nil => exact ⟨Coarsens.refl h, by simp⟩
  | cons j later ih =>
      rw [List.foldl_cons]
      by_cases hmatch : namesMatch (names.get i) (names.get j) = true
      · rw [if_pos hmatch]
        obtain ⟨hstep, hij⟩ := coarsens_link h i j hmatch
        obtain ⟨hrun, hall⟩ := ih hstep.sound
        refine ⟨hstep.trans hrun, fun k hk hmatch => ?_⟩
        rcases List.mem_cons.mp hk with rfl | hk
        · exact hrun.kept i k hij
        · exact hall k hk hmatch
      · rw [if_neg hmatch]
        obtain ⟨hrun, hall⟩ := ih h
        refine ⟨hrun, fun k hk hmatch' => ?_⟩
        rcases List.mem_cons.mp hk with rfl | hk
        · exact absurd hmatch' hmatch
        · exact hall k hk hmatch'

theorem mem_drop_finRange {n k : Nat} {j : Fin n} (hj : k ≤ j) : j ∈ (List.finRange n).drop k := by
  rw [List.mem_drop_iff_getElem]
  exact ⟨j - k, by simp; omega, by simp [Nat.add_sub_of_le hj]⟩

/-- Linking the numbers of a list, each with all later ones. -/
theorem coarsens_foldl_linkLater (h : IsSound names forest) (items : List (Fin names.length)) :
    Coarsens names forest (items.foldl (linkLater names) forest) ∧
      ∀ i ∈ items, ∀ j, i < j → namesMatch (names.get i) (names.get j) = true →
        (items.foldl (linkLater names) forest).rootOf i =
          (items.foldl (linkLater names) forest).rootOf j := by
  induction items generalizing forest with
  | nil => exact ⟨Coarsens.refl h, by simp⟩
  | cons i items ih =>
      obtain ⟨hstep, hlater⟩ := coarsens_foldl_link h i ((List.finRange names.length).drop (i + 1))
      rw [← linkLater] at hstep hlater
      obtain ⟨hrun, hall⟩ := ih hstep.sound
      refine ⟨hstep.trans hrun, fun k hk j hkj hmatch => ?_⟩
      rcases List.mem_cons.mp hk with rfl | hk
      · exact hrun.kept k j (hlater j (mem_drop_finRange hkj) hmatch)
      · exact hall k hk j hkj hmatch

theorem isSound_roots (names : List Text) : IsSound names (Forest.roots names.length) := by
  intro i j hsame
  rw [Forest.rootOf_roots, Forest.rootOf_roots] at hsame
  rw [hsame]
  exact .refl _

theorem isSound_linkNames (names : List Text) : IsSound names (linkNames names) :=
  (coarsens_foldl_linkLater (isSound_roots names) _).1.sound

theorem rootOf_linkNames_eq {j : Fin names.length}
    (hmatch : namesMatch (names.get i) (names.get j) = true) :
    (linkNames names).rootOf i = (linkNames names).rootOf j := by
  have hall := (coarsens_foldl_linkLater (isSound_roots names) (List.finRange names.length)).2
  rcases lt_trichotomy i j with hij | rfl | hji
  · exact hall i (List.mem_finRange i) j hij hmatch
  · rfl
  · exact (hall j (List.mem_finRange j) i hji (namesMatch_comm _ _ ▸ hmatch)).symm

end Linking

/-- The root of the number of a name. -/
def nameRoot (names : List Text) (name : Text) : Option (Fin names.length) :=
  (names.finIdxOf? name).map (linkNames names).rootOf

theorem exists_finIdxOf?_eq_some {names : List Text} {name : Text} (h : name ∈ names) :
    ∃ i : Fin names.length, names.finIdxOf? name = some i ∧ names.get i = name := by
  have hsome : (names.finIdxOf? name).isSome := by
    rw [List.isSome_finIdxOf?]
    simpa using h
  obtain ⟨i, hi⟩ := Option.isSome_iff_exists.mp hsome
  exact ⟨i, hi, (List.finIdxOf?_eq_some_iff.mp hi).1⟩

/-- Two names get the same root exactly when a chain of matching names links them. -/
theorem nameRoot_eq_iff {names : List Text} {a b : Text} (ha : a ∈ names) (hb : b ∈ names) :
    nameRoot names a = nameRoot names b ↔ Linked names a b := by
  constructor
  · intro hsame
    obtain ⟨i, hi, rfl⟩ := exists_finIdxOf?_eq_some ha
    obtain ⟨j, hj, rfl⟩ := exists_finIdxOf?_eq_some hb
    rw [nameRoot, nameRoot, hi, hj, Option.map_some, Option.map_some, Option.some.injEq] at hsame
    exact isSound_linkNames names i j hsame
  · intro hlinked
    clear ha hb
    induction hlinked with
    | rel x y hxy =>
        obtain ⟨hx, hy, hmatch⟩ := hxy
        obtain ⟨i, hi, rfl⟩ := exists_finIdxOf?_eq_some hx
        obtain ⟨j, hj, rfl⟩ := exists_finIdxOf?_eq_some hy
        rw [nameRoot, nameRoot, hi, hj, Option.map_some, Option.map_some,
          rootOf_linkNames_eq hmatch]
    | refl x => rfl
    | symm x y _ ih => exact ih.symm
    | trans x y z _ _ ih ih' => exact ih.trans ih'

/-- The root of the name of a definition. -/
def groupNumber (definitions : List ConstantDefinition) (d : ConstantDefinition) :
    Option (Fin (distinct (definitions.map (·.name))).length) :=
  nameRoot (distinct (definitions.map (·.name))) d.name

/-- The definitions with the roots of their names. -/
def rooted (definitions : List ConstantDefinition) :
    List (Fin (distinct (definitions.map (·.name))).length × ConstantDefinition) :=
  (linkNames (distinct (definitions.map (·.name)))).rootsOf
    (numbered (distinct (definitions.map (·.name))) definitions)

theorem map_snd_rooted (definitions : List ConstantDefinition) :
    (rooted definitions).map (·.2) = definitions := by
  rw [rooted, Forest.rootsOf_eq_map, List.map_map, numbered, List.map_filterMap]
  refine (List.filterMap_congr fun d hd => ?_).trans List.filterMap_some
  obtain ⟨i, hi, -⟩ := exists_finIdxOf?_eq_some (mem_distinct.mpr (List.mem_map_of_mem hd))
  rw [hi]
  rfl

theorem groupNumber_of_mem_rooted (definitions : List ConstantDefinition) :
    ∀ x ∈ rooted definitions, groupNumber definitions x.2 = some x.1 := by
  intro x hx
  rw [rooted, Forest.rootsOf_eq_map, List.mem_map] at hx
  obtain ⟨y, hy, rfl⟩ := hx
  obtain ⟨d, -, hd⟩ := List.mem_filterMap.mp hy
  obtain ⟨i, hi, rfl⟩ := Option.map_eq_some_iff.mp hd
  rw [groupNumber, nameRoot, hi]
  rfl

/-- Climbing for one definition after the other gives the groups by the roots of the names. -/
theorem groups_eq (definitions : List ConstantDefinition) :
    groups definitions =
      Clone.group (fun a b => groupNumber definitions a == groupNumber definitions b)
        definitions := by
  have hagree : ∀ x ∈ rooted definitions, ∀ y ∈ rooted definitions,
      (x.1 == y.1) = (groupNumber definitions x.2 == groupNumber definitions y.2) := by
    intro x hx y hy
    rw [groupNumber_of_mem_rooted _ x hx, groupNumber_of_mem_rooted _ y hy, Option.some_beq_some]
  have hmap := Clone.map_group Prod.snd
    (fun a b => groupNumber definitions a == groupNumber definitions b) hagree
  rw [map_snd_rooted] at hmap
  exact hmap

theorem groups_areClasses (definitions : List ConstantDefinition) :
    Clone.AreClasses (groupNumber definitions) definitions (groups definitions) := by
  rw [groups_eq]
  apply Clone.group_areClasses
  intro a b
  simp

theorem groupNumber_eq_iff {definitions : List ConstantDefinition} {d e : ConstantDefinition}
    (hd : d ∈ definitions) (he : e ∈ definitions) :
    groupNumber definitions d = groupNumber definitions e ↔
      Linked (definitions.map (·.name)) d.name e.name := by
  have hname {d : ConstantDefinition} (hd : d ∈ definitions) :
      d.name ∈ distinct (definitions.map (·.name)) :=
    mem_distinct.mpr (List.mem_map_of_mem hd)
  rw [groupNumber, groupNumber, nameRoot_eq_iff (hname hd) (hname he),
    Linked.congr fun _ => mem_distinct]

/-- The order of the definitions does not matter to which of them share a number. -/
theorem groupNumber_eq_iff_of_perm {definitions definitions' : List ConstantDefinition}
    (h : definitions.Perm definitions') {d e : ConstantDefinition} (hd : d ∈ definitions)
    (he : e ∈ definitions) :
    groupNumber definitions d = groupNumber definitions e ↔
      groupNumber definitions' d = groupNumber definitions' e := by
  rw [groupNumber_eq_iff hd he, groupNumber_eq_iff (h.subset hd) (h.subset he),
    Linked.congr fun _ => (h.map _).mem_iff]

theorem classIn_groupNumber_of_perm {definitions definitions' : List ConstantDefinition}
    (h : definitions.Perm definitions') {d : ConstantDefinition} (hd : d ∈ definitions) :
    Clone.classIn (groupNumber definitions') definitions' d =
      definitions'.filter fun e => groupNumber definitions e = groupNumber definitions d := by
  refine List.filter_congr fun e he => ?_
  exact decide_eq_decide.mpr (groupNumber_eq_iff_of_perm h (h.symm.subset he) hd).symm

/-! ## Definitions in the order of their places -/

section Sorted

variable {α κ : Type} [DecidableEq κ] {key : α → κ} {le : α → α → Bool}

/-- Sorted lists that agree on the items of each key are equal. -/
theorem eq_of_pairwise_of_filter (hanti : ∀ a b, le a b = true → le b a = true → key a = key b)
    {l l' : List α} (hsorted : l.Pairwise fun a b => le a b = true)
    (hsorted' : l'.Pairwise fun a b => le a b = true)
    (hfilter : ∀ k, l.filter (key · = k) = l'.filter (key · = k)) : l = l' := by
  induction l generalizing l' with
  | nil =>
      symm
      apply List.eq_nil_iff_forall_not_mem.mpr
      intro b hb
      have hmem : b ∈ l'.filter (key · = key b) := List.mem_filter.mpr ⟨hb, by simp⟩
      rw [← hfilter] at hmem
      simp at hmem
  | cons a t ih =>
      have hmem : a ∈ l' := by
        have hself : a ∈ (a :: t).filter (key · = key a) := by simp
        rw [hfilter] at hself
        exact List.mem_of_mem_filter hself
      cases l' with
      | nil => simp at hmem
      | cons b t' =>
          obtain ⟨ha, ht⟩ := List.pairwise_cons.mp hsorted
          obtain ⟨hb, ht'⟩ := List.pairwise_cons.mp hsorted'
          have hmem' : b ∈ a :: t := by
            have hself : b ∈ (b :: t').filter (key · = key b) := by simp
            rw [← hfilter] at hself
            exact List.mem_of_mem_filter hself
          -- the first items have the same key, and the first with a key is the same in both
          have hkey : key a = key b := by
            rcases List.mem_cons.mp hmem with rfl | hat
            · rfl
            · rcases List.mem_cons.mp hmem' with rfl | hbt
              · rfl
              · exact hanti a b (ha b hbt) (hb a hat)
          have hfirst := hfilter (key a)
          rw [List.filter_cons_of_pos (by simp), List.filter_cons_of_pos (by simp [hkey])] at hfirst
          obtain ⟨rfl, -⟩ := List.cons.inj hfirst
          rw [ih ht ht' fun k => ?_]
          have hk := hfilter k
          by_cases hak : key a = k
          · rw [List.filter_cons_of_pos (by simp [hak]),
              List.filter_cons_of_pos (by simp [hak])] at hk
            exact (List.cons.inj hk).2
          · rw [List.filter_cons_of_neg (by simp [hak]),
              List.filter_cons_of_neg (by simp [hak])] at hk
            exact hk

end Sorted

/-- The definitions of each file come in the same order. -/
def SameByFile (l l' : List ConstantDefinition) : Prop :=
  ∀ path, l.filter (·.file = path) = l'.filter (·.file = path)

namespace SameByFile

variable {l l' : List ConstantDefinition}

theorem filter (h : SameByFile l l') (p : ConstantDefinition → Bool) :
    SameByFile (l.filter p) (l'.filter p) := by
  intro path
  rw [List.filter_comm, h path, List.filter_comm]

theorem perm (h : SameByFile l l') : l.Perm l' := by
  rw [List.perm_iff_count]
  intro d
  have hcount (l : List ConstantDefinition) : (l.filter (·.file = d.file)).count d = l.count d :=
    List.count_filter (by simp)
  rw [← hcount l, ← hcount l', h]

theorem mergeSort_eq (h : SameByFile l l') :
    (l.mergeSort fun a b => Location.le (place a) (place b)) =
      l'.mergeSort fun a b => Location.le (place a) (place b) := by
  have htrans (a b c : ConstantDefinition) := Location.le_trans (place a) (place b) (place c)
  have htotal (a b : ConstantDefinition) := Location.le_total (place a) (place b)
  have hanti (a b : ConstantDefinition) (hab : Location.le (place a) (place b) = true)
      (hba : Location.le (place b) (place a) = true) : place a = place b :=
    Location.le_antisymm hab hba
  refine eq_of_pairwise_of_filter hanti (List.pairwise_mergeSort htrans htotal l)
    (List.pairwise_mergeSort htrans htotal l') fun q => ?_
  have hplace (l : List ConstantDefinition) :
      l.filter (place · = q) = (l.filter (·.file = q.file)).filter (place · = q) := by
    rw [List.filter_filter]
    refine List.filter_congr fun d _ => ?_
    rw [← Bool.decide_and]
    refine decide_eq_decide.mpr ⟨fun hd => ⟨hd, hd ▸ rfl⟩, fun hd => hd.1⟩
  rw [Clone.filter_mergeSort htrans htotal, Clone.filter_mergeSort htrans htotal, hplace l,
    hplace l', h]

theorem buildViolation_eq (h : SameByFile l l') (level : RuleLevel) :
    buildViolation l level = buildViolation l' level := by
  simp only [buildViolation, h.mergeSort_eq]

theorem fileCount_eq (h : SameByFile l l') : fileCount l = fileCount l' :=
  length_distinct_of_perm (h.perm.map _)

end SameByFile

end CloneScan.Constant
