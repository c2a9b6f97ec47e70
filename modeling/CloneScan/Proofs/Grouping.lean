import CloneScan.Clone.Block
import Mathlib.Data.List.Induction
import Mathlib.Data.List.Pairwise
import Mathlib.Data.Multiset.Bind

/-!
# Groups of equal items

`Clone.group` puts an item into the first group whose first item agrees with it.  When agreement
compares a key, the groups are exactly the classes of that key: each one holds all items with one
key, in their order, and no key is held by two groups.
-/

namespace CloneScan.Clone

variable {α β : Type} {agree : α → α → Bool} {key : α → β}

/-- Agreement that compares a key of the items. -/
def ComparesKey (agree : α → α → Bool) (key : α → β) : Prop :=
  ∀ a b, agree a b = true ↔ key a = key b

theorem place_append_of_agree (h : ComparesKey agree key) {before after : List (List α)}
    {first x : α} {more : List α}
    (hbefore : ∀ g ∈ before, g ≠ [] ∧ ∀ a ∈ g, key a ≠ key x) (hfirst : key first = key x) :
    group.place agree (before ++ (first :: more) :: after) x =
      before ++ (first :: more ++ [x]) :: after := by
  induction before with
  | nil =>
      have hagree : agree first x = true := (h first x).mpr hfirst
      simp [group.place, hagree]
  | cons g before ih =>
      obtain ⟨hg, hkey⟩ := hbefore g (by simp)
      obtain ⟨a, rest, rfl⟩ := List.exists_cons_of_ne_nil hg
      have hagree : ¬ agree a x = true := fun hax => hkey a (by simp) ((h a x).mp hax)
      have ih' := ih fun g' hg' => hbefore g' (by simp [hg'])
      simp [group.place, hagree, ih']

theorem place_of_disagree (h : ComparesKey agree key) {groups : List (List α)} {x : α}
    (hgroups : ∀ g ∈ groups, g ≠ [] ∧ ∀ a ∈ g, key a ≠ key x) :
    group.place agree groups x = groups ++ [[x]] := by
  induction groups with
  | nil => rfl
  | cons g groups ih =>
      obtain ⟨hg, hkey⟩ := hgroups g (by simp)
      obtain ⟨a, rest, rfl⟩ := List.exists_cons_of_ne_nil hg
      have hagree : ¬ agree a x = true := fun hax => hkey a (by simp) ((h a x).mp hax)
      have ih' := ih fun g' hg' => hgroups g' (by simp [hg'])
      simp [group.place, hagree, ih']

theorem foldl_place_cons (agree : α → α → Bool) (first : α) (more : List α)
    (groups : List (List α)) (items : List α) :
    items.foldl (group.place agree) ((first :: more) :: groups) =
      (first :: (more ++ items.filter (agree first))) ::
        (items.filter fun x => !agree first x).foldl (group.place agree) groups := by
  induction items generalizing more groups with
  | nil => simp
  | cons x items ih =>
      rw [List.foldl_cons, group.place]
      by_cases hx : agree first x = true
      · rw [if_pos hx, List.cons_append, ih]
        simp [hx]
      · rw [if_neg hx, ih]
        simp [hx]

/-- The first group holds what agrees with the first item; the others are the groups of the rest. -/
theorem group_cons (agree : α → α → Bool) (x : α) (items : List α) :
    group agree (x :: items) =
      (x :: items.filter (agree x)) :: group agree (items.filter fun y => !agree x y) := by
  rw [group, List.foldl_cons, group.place, foldl_place_cons, List.nil_append]
  rfl

/-- Induction along the groups: from the items that the first one leaves over to all items. -/
theorem group_induction (agree : α → α → Bool) {motive : List α → Prop} (nil : motive [])
    (cons : ∀ x items, motive (items.filter fun y => !agree x y) → motive (x :: items)) :
    ∀ items, motive items
  | [] => nil
  | x :: items => cons x items (group_induction agree nil cons _)
termination_by items => items.length
decreasing_by exact Nat.lt_succ_of_le (List.length_filter_le _ _)

/-- Items and their images fall into the same groups when agreement does not tell them apart. -/
theorem map_group (f : α → β) (agree' : β → β → Bool) {items : List α}
    (h : ∀ a ∈ items, ∀ b ∈ items, agree a b = agree' (f a) (f b)) :
    (group agree items).map (List.map f) = group agree' (items.map f) := by
  induction items using group_induction agree with
  | nil => rfl
  | cons x items ih =>
      have hx : ∀ y ∈ items, agree x y = agree' (f x) (f y) := fun y hy =>
        h x List.mem_cons_self y (List.mem_cons_of_mem x hy)
      have hrest := ih fun a ha b hb => h a (List.mem_cons_of_mem x (List.mem_of_mem_filter ha)) b
        (List.mem_cons_of_mem x (List.mem_of_mem_filter hb))
      have hin : items.filter (agree x) = items.filter (agree' (f x) ∘ f) :=
        List.filter_congr hx
      have hout : (items.filter fun y => !agree x y) =
          items.filter ((fun y => !agree' (f x) y) ∘ f) :=
        List.filter_congr fun y hy => by rw [hx y hy, Function.comp_apply]
      rw [group_cons, List.map_cons, List.map_cons, hrest, List.map_cons, group_cons,
        List.filter_map, List.filter_map, hin, hout]

/-- Whoever reads the items from the front meets a member of the first group no later than one of
the second. -/
def SeenBefore (items g h : List α) : Prop :=
  ∀ front, front <+: items → (∃ b ∈ h, b ∈ front) → ∃ a ∈ g, a ∈ front

theorem flatten_group_perm (agree : α → α → Bool) (items : List α) :
    (group agree items).flatten.Perm items := by
  induction items using group_induction agree with
  | nil => exact List.Perm.nil
  | cons x items ih =>
      rw [group_cons, List.flatten_cons, List.cons_append]
      exact ((ih.append_left _).trans (List.filter_append_perm _ _)).cons x

/-- The groups stand in the order in which their first members are met. -/
theorem pairwise_seenBefore_group (hself : ∀ a, agree a a = true) (items : List α) :
    (group agree items).Pairwise (SeenBefore items) := by
  induction items using group_induction agree with
  | nil => exact List.Pairwise.nil
  | cons x items ih =>
      rw [group_cons, List.pairwise_cons]
      constructor
      · rintro h - front hfront ⟨b, -, hb⟩
        rcases List.prefix_cons_iff.mp hfront with rfl | ⟨rest, rfl, -⟩
        · simp at hb
        · exact ⟨x, List.mem_cons_self, List.mem_cons_self⟩
      · refine ih.imp_of_mem ?_
        rintro g h - hh hseen front hfront ⟨b, hbh, hb⟩
        rcases List.prefix_cons_iff.mp hfront with rfl | ⟨rest, rfl, hrest⟩
        · simp at hb
        · -- what the first group leaves over does not agree with its first item
          have hbx : (!agree x b) = true := by
            have hmem := (flatten_group_perm agree _).subset (List.mem_flatten_of_mem hh hbh)
            exact (List.mem_filter.mp hmem).2
          have hbrest : b ∈ rest := by
            refine (List.mem_cons.mp hb).resolve_left ?_
            rintro rfl
            simp [hself] at hbx
          obtain ⟨a, hag, ha⟩ :=
            hseen _ (hrest.filter _) ⟨b, hbh, List.mem_filter.mpr ⟨hbrest, hbx⟩⟩
          exact ⟨a, hag, List.mem_cons_of_mem x (List.mem_of_mem_filter ha)⟩

/-- The items with the key of `a`, in their order. -/
def classIn [DecidableEq β] (key : α → β) (items : List α) (a : α) : List α :=
  items.filter fun b => key b = key a

variable [DecidableEq β]

theorem classIn_congr (items : List α) {a b : α} (hab : key a = key b) :
    classIn key items a = classIn key items b := by
  simp only [classIn, hab]

theorem mem_classIn {items : List α} {a b : α} :
    b ∈ classIn key items a ↔ b ∈ items ∧ key b = key a := by
  simp [classIn]

theorem classIn_append_same (items : List α) {a x : α} (hax : key x = key a) :
    classIn key (items ++ [x]) a = classIn key items a ++ [x] := by
  simp [classIn, hax]

theorem classIn_append_other (items : List α) {a x : α} (hax : key x ≠ key a) :
    classIn key (items ++ [x]) a = classIn key items a := by
  simp [classIn, hax]

/-- The groups are the classes of the items, each of them once. -/
structure AreClasses (key : α → β) (items : List α) (groups : List (List α)) : Prop where
  isClass : ∀ g ∈ groups, ∃ a ∈ items, g = classIn key items a
  complete : ∀ a ∈ items, classIn key items a ∈ groups
  apart : groups.Pairwise fun g h => ∀ a ∈ g, ∀ b ∈ h, key a ≠ key b

namespace AreClasses

variable {items : List α} {groups : List (List α)}

theorem ne_nil (hc : AreClasses key items groups) : ∀ g ∈ groups, g ≠ [] := by
  intro g hg
  obtain ⟨a, ha, rfl⟩ := hc.isClass g hg
  exact List.ne_nil_of_mem (mem_classIn.mpr ⟨ha, rfl⟩)

/-- Every class is what has one key, and every key that occurs has its class. -/
theorem exists_keys (hc : AreClasses key items groups) :
    ∃ keys : List β, keys.Nodup ∧ (∀ k, k ∈ keys ↔ ∃ a ∈ items, key a = k) ∧
      groups = keys.map fun k => items.filter fun a => key a = k := by
  have hrange : groups ∈ Set.range (List.map fun k => items.filter fun a => key a = k) := by
    rw [Set.range_list_map]
    intro g hg
    obtain ⟨a, -, rfl⟩ := hc.isClass g hg
    exact ⟨key a, rfl⟩
  obtain ⟨keys, rfl⟩ := hrange
  have hmem {k : β} (hk : k ∈ keys) : ∃ a ∈ items, key a = k := by
    obtain ⟨a, ha⟩ := List.exists_mem_of_ne_nil _ (hc.ne_nil _ (List.mem_map_of_mem hk))
    obtain ⟨ha, hak⟩ := List.mem_filter.mp ha
    exact ⟨a, ha, of_decide_eq_true hak⟩
  refine ⟨keys, ?_, fun k => ⟨hmem, ?_⟩, rfl⟩
  · refine (List.pairwise_map.mp hc.apart).imp_of_mem fun {k k'} hk _ hapart hsame => ?_
    subst hsame
    obtain ⟨a, ha, rfl⟩ := hmem hk
    have hself : a ∈ items.filter fun b => key b = key a := by simp [ha]
    exact hapart a hself a hself rfl
  · rintro ⟨a, ha, rfl⟩
    obtain ⟨k, hk, hclass⟩ := List.mem_map.mp (hc.complete a ha)
    have hself : a ∈ items.filter fun b => key b = k := by
      rw [hclass]
      exact mem_classIn.mpr ⟨ha, rfl⟩
    obtain ⟨-, hak⟩ := List.mem_filter.mp hself
    rwa [of_decide_eq_true hak]

/-- A group without the key of `x` is still a class when `x` is added. -/
theorem isClass_append_other (hc : AreClasses key items groups) {x : α} {g : List α}
    (hg : g ∈ groups) (hgx : ∀ a ∈ g, key a ≠ key x) :
    ∃ a ∈ items ++ [x], g = classIn key (items ++ [x]) a := by
  obtain ⟨a, ha, rfl⟩ := hc.isClass g hg
  have hax : key x ≠ key a := fun hxa => hgx a (mem_classIn.mpr ⟨ha, rfl⟩) hxa.symm
  exact ⟨a, by simp [ha], (classIn_append_other items hax).symm⟩

/-- Around the class of an item stand groups without its key. -/
theorem exists_split (hc : AreClasses key items groups) {a : α} (ha : a ∈ items) :
    ∃ before after, groups = before ++ classIn key items a :: after ∧
      (∀ g ∈ before, ∀ b ∈ g, key b ≠ key a) ∧ ∀ g ∈ after, ∀ b ∈ g, key b ≠ key a := by
  obtain ⟨before, after, hsplit⟩ := List.append_of_mem (hc.complete a ha)
  have hmem : a ∈ classIn key items a := mem_classIn.mpr ⟨ha, rfl⟩
  have hapart := hc.apart
  rw [hsplit] at hapart
  obtain ⟨-, hrest, hcross⟩ := List.pairwise_append.mp hapart
  obtain ⟨hclass, -⟩ := List.pairwise_cons.mp hrest
  refine ⟨before, after, hsplit, ?_, ?_⟩
  · intro g hg b hb hba
    exact hcross g hg _ (by simp) b hb a hmem hba
  · intro g hg b hb hba
    exact hclass g hg a hmem b hb hba.symm

/-- The group of an item with a known key is the class of that key. -/
theorem place_eq_of_split (hc : AreClasses key items groups) (h : ComparesKey agree key)
    {a x : α} (ha : a ∈ items) (hax : key a = key x) {before after : List (List α)}
    (hsplit : groups = before ++ classIn key items a :: after)
    (hbefore : ∀ g ∈ before, ∀ b ∈ g, key b ≠ key a) :
    group.place agree groups x = before ++ classIn key (items ++ [x]) a :: after := by
  have hmem : a ∈ classIn key items a := mem_classIn.mpr ⟨ha, rfl⟩
  obtain ⟨first, more, hfirst⟩ := List.exists_cons_of_ne_nil (List.ne_nil_of_mem hmem)
  have hfirstMem : first ∈ classIn key items a := by simp [hfirst]
  have hkey : key first = key x := (mem_classIn.mp hfirstMem).2.trans hax
  rw [classIn_append_same items hax.symm, hsplit, hfirst]
  refine place_append_of_agree h (fun g hg => ⟨?_, ?_⟩) hkey
  · exact hc.ne_nil g (by simp [hsplit, hg])
  · intro b hb hbx
    exact hbefore g hg b hb (hbx.trans hax.symm)

/-- An item whose key is there joins the class of that key. -/
theorem place_same (hc : AreClasses key items groups) (h : ComparesKey agree key) {a x : α}
    (ha : a ∈ items) (hax : key a = key x) :
    AreClasses key (items ++ [x]) (group.place agree groups x) := by
  obtain ⟨before, after, hsplit, hbefore, hafter⟩ := hc.exists_split ha
  rw [hc.place_eq_of_split h ha hax hsplit hbefore]
  refine ⟨?_, ?_, ?_⟩
  · intro g hg
    rcases List.mem_append.mp hg with hg | hg
    · exact hc.isClass_append_other (by simp [hsplit, hg]) (hax ▸ hbefore g hg)
    · rcases List.mem_cons.mp hg with rfl | hg
      · exact ⟨a, by simp [ha], rfl⟩
      · exact hc.isClass_append_other (by simp [hsplit, hg]) (hax ▸ hafter g hg)
  · intro b hb
    by_cases hba : key b = key a
    · rw [classIn_congr _ hba]
      simp
    · have hbItems : b ∈ items := by
        rcases List.mem_append.mp hb with hb | hb
        · exact hb
        · exact absurd ((congrArg key (List.mem_singleton.mp hb)).trans hax.symm) hba
      rw [classIn_append_other items fun hxb => hba (hxb.symm.trans hax.symm)]
      have hbGroup := hc.complete b hbItems
      rw [hsplit] at hbGroup
      rcases List.mem_append.mp hbGroup with hb' | hb'
      · simp [hb']
      · rcases List.mem_cons.mp hb' with heq | hb'
        · have hbClass : b ∈ classIn key items a := heq ▸ mem_classIn.mpr ⟨hbItems, rfl⟩
          exact absurd (mem_classIn.mp hbClass).2 hba
        · simp [hb']
  · have hapart := hc.apart
    rw [hsplit] at hapart
    obtain ⟨hfront, hrest, hcross⟩ := List.pairwise_append.mp hapart
    refine List.pairwise_append.mpr
      ⟨hfront, List.pairwise_cons.mpr ⟨?_, (List.pairwise_cons.mp hrest).2⟩, ?_⟩
    · intro g hg b hb c hc hbc
      exact hafter g hg c hc (hbc.symm.trans (mem_classIn.mp hb).2)
    · intro g hg g' hg' b hb c hc hbc
      rcases List.mem_cons.mp hg' with rfl | hg'
      · exact hbefore g hg b hb (hbc.trans (mem_classIn.mp hc).2)
      · exact hcross g hg g' (by simp [hg']) b hb c hc hbc

/-- An item with a new key starts a class of its own. -/
theorem place_new (hc : AreClasses key items groups) (h : ComparesKey agree key) {x : α}
    (hx : ∀ a ∈ items, key a ≠ key x) :
    AreClasses key (items ++ [x]) (group.place agree groups x) := by
  have hgroups : ∀ g ∈ groups, ∀ a ∈ g, key a ≠ key x := by
    intro g hg a ha
    obtain ⟨b, -, rfl⟩ := hc.isClass g hg
    exact hx a (mem_classIn.mp ha).1
  have hplace : group.place agree groups x = groups ++ [[x]] :=
    place_of_disagree h fun g hg => ⟨hc.ne_nil g hg, hgroups g hg⟩
  have hnew : classIn key (items ++ [x]) x = [x] := by
    rw [classIn_append_same items rfl]
    simpa [classIn] using hx
  rw [hplace]
  refine ⟨?_, ?_, ?_⟩
  · intro g hg
    rcases List.mem_append.mp hg with hg | hg
    · exact hc.isClass_append_other hg (hgroups g hg)
    · exact ⟨x, by simp, by rw [hnew]; simpa using hg⟩
  · intro a ha
    rcases List.mem_append.mp ha with ha | ha
    · rw [classIn_append_other items (Ne.symm (hx a ha))]
      simp [hc.complete a ha]
    · obtain rfl : a = x := by simpa using ha
      simp [hnew]
  · refine List.pairwise_append.mpr ⟨hc.apart, by simp, ?_⟩
    intro g hg g' hg' a ha b hb
    obtain rfl : g' = [x] := by simpa using hg'
    obtain rfl : b = x := by simpa using hb
    exact hgroups g hg a ha

end AreClasses

theorem group_areClasses (h : ComparesKey agree key) (items : List α) :
    AreClasses key items (group agree items) := by
  induction items using List.reverseRecOn with
  | nil => exact ⟨by simp [group], by simp, by simp [group]⟩
  | append_singleton items x ih =>
      have hstep : group agree (items ++ [x]) = group.place agree (group agree items) x := by
        simp [group, List.foldl_append]
      rw [hstep]
      by_cases hx : ∃ a ∈ items, key a = key x
      · obtain ⟨a, ha, hax⟩ := hx
        exact ih.place_same h ha hax
      · exact ih.place_new h fun a ha hax => hx ⟨a, ha, hax⟩

/-! ## Items in another order -/

/-- Lists whose items are matched one to one have the same values, up to their order. -/
theorem perm_map_of_matching {ι κ γ : Type} {R : ι → κ → Prop} {f : ι → γ} {g : κ → γ}
    {l : List ι} {l' : List κ}
    (hfind : ∀ a ∈ l, ∃ b ∈ l', R a b) (hback : ∀ b ∈ l', ∃ a ∈ l, R a b)
    (hleft : l.Pairwise fun a a' => ∀ b ∈ l', R a b → ¬ R a' b)
    (hright : l'.Pairwise fun b b' => ∀ a ∈ l, R a b → ¬ R a b')
    (hvalues : ∀ a ∈ l, ∀ b ∈ l', R a b → f a = g b) : (l.map f).Perm (l'.map g) := by
  induction l generalizing l' with
  | nil =>
      obtain rfl : l' = [] := by
        apply List.eq_nil_iff_forall_not_mem.mpr
        intro b hb
        obtain ⟨a, ha, -⟩ := hback b hb
        simp at ha
      exact List.Perm.nil
  | cons a t ih =>
      obtain ⟨b, hb, hab⟩ := hfind a List.mem_cons_self
      obtain ⟨before, after, rfl⟩ := List.append_of_mem hb
      have hsub : (before ++ after).Sublist (before ++ b :: after) :=
        (List.sublist_cons_self b after).append_left before
      obtain ⟨ha, ht⟩ := List.pairwise_cons.mp hleft
      have hother : ∀ c ∈ before ++ after, ¬ R a c := by
        intro c hc hac
        obtain ⟨-, hafter, hcross⟩ := List.pairwise_append.mp hright
        rcases List.mem_append.mp hc with hc | hc
        · exact hcross c hc b List.mem_cons_self a List.mem_cons_self hac hab
        · exact (List.pairwise_cons.mp hafter).1 c hc a List.mem_cons_self hab hac
      have hrest : (t.map f).Perm ((before ++ after).map g) := by
        apply ih
        · intro a' ha'
          obtain ⟨c, hc, hac⟩ := hfind a' (List.mem_cons_of_mem a ha')
          refine ⟨c, ?_, hac⟩
          simp only [List.mem_append, List.mem_cons] at hc ⊢
          rcases hc with hc | rfl | hc
          · exact Or.inl hc
          · exact absurd hac (ha a' ha' c hb hab)
          · exact Or.inr hc
        · intro c hc
          obtain ⟨a', ha', hac⟩ := hback c (hsub.subset hc)
          rcases List.mem_cons.mp ha' with rfl | ha'
          · exact absurd hac (hother c hc)
          · exact ⟨a', ha', hac⟩
        · exact ht.imp fun h c hc => h c (hsub.subset hc)
        · exact (hright.sublist hsub).imp fun h a' ha' => h a' (List.mem_cons_of_mem a ha')
        · exact fun a' ha' c hc => hvalues a' (List.mem_cons_of_mem a ha') c (hsub.subset hc)
      have hhead : f a = g b := hvalues a List.mem_cons_self b hb hab
      calc
        (a :: t).map f = f a :: t.map f := rfl
        _ = g b :: t.map f := by rw [hhead]
        List.Perm _ (g b :: (before ++ after).map g) := hrest.cons (g b)
        List.Perm _ ((before ++ b :: after).map g) := by
          rw [List.map_append, List.map_append, List.map_cons]
          exact List.perm_middle.symm

/-- The same classes of the same items give the same values, up to their order. -/
theorem AreClasses.flatMap_perm {γ κ : Type} [DecidableEq κ] {key' : α → κ}
    {items items' : List α} {groups groups' : List (List α)}
    (hc : AreClasses key items groups) (hc' : AreClasses key' items' groups')
    (hitems : ∀ a, a ∈ items ↔ a ∈ items')
    (hkeys : ∀ a ∈ items, ∀ b ∈ items, key a = key b ↔ key' a = key' b) {f f' : List α → List γ}
    (hvalues : ∀ a ∈ items, (f (classIn key items a)).Perm (f' (classIn key' items' a))) :
    (groups.flatMap f).Perm (groups'.flatMap f') := by
  have hself {a : α} (ha : a ∈ items) : a ∈ classIn key items a :=
    mem_classIn.mpr ⟨ha, rfl⟩
  have hself' {a : α} (ha : a ∈ items) : a ∈ classIn key' items' a :=
    mem_classIn.mpr ⟨(hitems a).mp ha, rfl⟩
  have hmatch : (groups.map fun g => (f g : Multiset γ)).Perm
      (groups'.map fun g => (f' g : Multiset γ)) := by
    apply perm_map_of_matching (R := fun g g' =>
      ∃ a ∈ items, g = classIn key items a ∧ g' = classIn key' items' a)
    · intro g hg
      obtain ⟨a, ha, rfl⟩ := hc.isClass g hg
      exact ⟨_, hc'.complete a ((hitems a).mp ha), a, ha, rfl, rfl⟩
    · intro g' hg'
      obtain ⟨a, ha, rfl⟩ := hc'.isClass g' hg'
      have hmem := (hitems a).mpr ha
      exact ⟨_, hc.complete a hmem, a, hmem, rfl, rfl⟩
    · refine hc.apart.imp ?_
      rintro g h hapart g' - ⟨a, ha, rfl, rfl⟩ ⟨b, hb, rfl, heq⟩
      have hab := (mem_classIn.mp (heq ▸ hself' ha)).2
      exact hapart a (hself ha) b (hself hb) ((hkeys a ha b hb).mpr hab)
    · refine hc'.apart.imp ?_
      rintro g' h' hapart g - ⟨a, ha, rfl, rfl⟩ ⟨b, hb, heq, rfl⟩
      have hab := (mem_classIn.mp (heq ▸ hself ha)).2
      exact hapart a (hself' ha) b (hself' hb) ((hkeys a ha b hb).mp hab)
    · rintro g - g' - ⟨a, ha, rfl, rfl⟩
      exact Multiset.coe_eq_coe.mpr (hvalues a ha)
  rw [← Multiset.coe_eq_coe, ← Multiset.coe_bind, ← Multiset.coe_bind, Multiset.bind,
    Multiset.bind, Multiset.map_coe, Multiset.map_coe, Multiset.coe_eq_coe.mpr hmatch]

/-! ## One class alone -/

/-- What the groups give for one key is what the items with that key give on their own. -/
theorem AreClasses.filter_flatMap {γ : Type} {items : List α} {groups : List (List α)}
    (hc : AreClasses key items groups) {f : List α → List γ} (hnil : f [] = []) {p : γ → Bool}
    (k : β) (hin : ∀ a ∈ items, key a = k → ∀ x ∈ f (classIn key items a), p x = true)
    (hout : ∀ a ∈ items, key a ≠ k → ∀ x ∈ f (classIn key items a), p x = false) :
    (groups.flatMap f).filter p = f (items.filter fun a => key a = k) := by
  have hother (others : List (List α)) (hmem : ∀ g ∈ others, g ∈ groups)
      (hkey : ∀ g ∈ others, ∀ b ∈ g, key b ≠ k) : (others.flatMap f).filter p = [] := by
    rw [List.filter_eq_nil_iff]
    intro x hx
    obtain ⟨g, hg, hx⟩ := List.mem_flatMap.mp hx
    obtain ⟨a, ha, rfl⟩ := hc.isClass g (hmem g hg)
    simp [hout a ha (hkey _ hg a (mem_classIn.mpr ⟨ha, rfl⟩)) x hx]
  by_cases hk : ∃ a ∈ items, key a = k
  · obtain ⟨a, ha, rfl⟩ := hk
    obtain ⟨before, after, hsplit, hbefore, hafter⟩ := hc.exists_split ha
    have hself : (f (classIn key items a)).filter p = f (classIn key items a) :=
      List.filter_eq_self.mpr (hin a ha rfl)
    rw [hsplit, List.flatMap_append, List.flatMap_cons, List.filter_append, List.filter_append,
      hother before (fun g hg => by simp [hsplit, hg]) hbefore,
      hother after (fun g hg => by simp [hsplit, hg]) hafter, hself, List.nil_append,
      List.append_nil]
    rfl
  · have hnone : items.filter (fun a => key a = k) = [] := by
      rw [List.filter_eq_nil_iff]
      intro a ha hak
      exact hk ⟨a, ha, by simpa using hak⟩
    rw [hnone, hnil]
    refine hother groups (fun g hg => hg) ?_
    intro g hg b hb hbk
    obtain ⟨a, -, rfl⟩ := hc.isClass g hg
    exact hk ⟨b, (mem_classIn.mp hb).1, hbk⟩

end CloneScan.Clone
