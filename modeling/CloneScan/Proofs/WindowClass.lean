import CloneScan.Proofs.Grouping

/-!
# Classes of equal windows

The classes of the search are the lists of all windows with one hash and the same keys, in the
order of files and starts.  A window stands in one class at most, and where every window has a hash
that its keys decide, the hash plays no part any more.
-/

namespace CloneScan

/-- The order of windows: by file, then by start. -/
def Window.Before (a b : Window) : Prop :=
  a.file < b.file ∨ a.file = b.file ∧ a.start < b.start

theorem Window.Before.irrefl (a : Window) : ¬ a.Before a := by
  simp [Window.Before]

theorem Window.Before.asymm {a b : Window} (h : a.Before b) : ¬ b.Before a := by
  simp only [Window.Before] at h ⊢
  omega

namespace Clone

variable {files : Array KeyedFile} {length : Nat}

/-! ## The windows -/

theorem mem_windows_iff {p : Window × Nat} :
    p ∈ windows files ↔
      ∃ f, files[p.1.file]? = some f ∧ f.hashes[p.1.start]? = some p.2 := by
  obtain ⟨⟨file, start⟩, hash⟩ := p
  simp only [windows, List.mem_flatten, List.mem_mapIdx]
  constructor
  · rintro ⟨l, ⟨i, hi, rfl⟩, hl⟩
    obtain ⟨j, hj, heq⟩ := List.mem_mapIdx.mp hl
    simp only [Prod.mk.injEq, Window.mk.injEq] at heq
    obtain ⟨⟨rfl, rfl⟩, rfl⟩ := heq
    exact ⟨files.toList[i], by simp_all, by simp⟩
  · rintro ⟨f, hf, hstart⟩
    have hfile : files.toList[file]? = some f := by simpa using hf
    obtain ⟨hi, rfl⟩ := List.getElem?_eq_some_iff.mp hfile
    obtain ⟨hj, rfl⟩ := List.getElem?_eq_some_iff.mp hstart
    exact ⟨_, ⟨file, hi, rfl⟩, List.mem_mapIdx.mpr ⟨start, hj, rfl⟩⟩

theorem pairwise_mapIdx_of_index_lt {α β : Type} {R : β → β → Prop} {f : Nat → α → β}
    (h : ∀ i j a b, i < j → R (f i a) (f j b)) (l : List α) : (l.mapIdx f).Pairwise R := by
  induction l generalizing f with
  | nil => simp
  | cons a l ih =>
      rw [List.mapIdx_cons, List.pairwise_cons]
      refine ⟨?_, ih fun i j a b hij => h _ _ a b (by omega)⟩
      intro b hb
      obtain ⟨i, hi, rfl⟩ := List.mem_mapIdx.mp hb
      exact h _ _ _ _ (by omega)

/-- The windows stand in the order of files and starts. -/
theorem windows_pairwise_before (files : Array KeyedFile) :
    (windows files).Pairwise fun p q => p.1.Before q.1 := by
  refine List.pairwise_flatten.mpr ⟨?_, ?_⟩
  · intro l hl
    obtain ⟨i, hi, rfl⟩ := List.mem_mapIdx.mp hl
    refine pairwise_mapIdx_of_index_lt ?_ _
    intro j k a b hjk
    exact Or.inr ⟨rfl, hjk⟩
  · refine pairwise_mapIdx_of_index_lt ?_ _
    intro i j f g hij p hp q hq
    obtain ⟨k, hk, rfl⟩ := List.mem_mapIdx.mp hp
    obtain ⟨l, hl, rfl⟩ := List.mem_mapIdx.mp hq
    exact Or.inl hij

/-- A window has one hash. -/
theorem windows_hash_unique {p q : Window × Nat} (hp : p ∈ windows files)
    (hq : q ∈ windows files) (h : p.1 = q.1) : p = q := by
  obtain ⟨f, hf, hhash⟩ := mem_windows_iff.mp hp
  obtain ⟨g, hg, hhash'⟩ := mem_windows_iff.mp hq
  rw [h, hg] at hf
  obtain rfl := Option.some.inj hf
  rw [h, hhash'] at hhash
  exact Prod.ext h (Option.some.inj hhash).symm

/-! ## Classes -/

/-- The keys of a window. -/
def windowKeys (files : Array KeyedFile) (length : Nat) (w : Window) : List (Option Text) :=
  (List.range length).map fun k => keyAt files w.file (w.start + k)

theorem windowKeys_eq_iff {a b : Window} :
    windowKeys files length a = windowKeys files length b ↔
      ∀ k < length, keyAt files a.file (a.start + k) = keyAt files b.file (b.start + k) := by
  simp [windowKeys, List.map_inj_left]

theorem sameKeys_comparesKey (files : Array KeyedFile) (length : Nat) :
    ComparesKey (sameKeys files length) (windowKeys files length) := by
  intro a b
  rw [windowKeys_eq_iff]
  simp [sameKeys]

/-- All windows with the hash and the keys of one of them. -/
def windowClass (files : Array KeyedFile) (length : Nat) (p : Window × Nat) : List Window :=
  ((windows files).filter fun q =>
    q.2 = p.2 ∧ windowKeys files length q.1 = windowKeys files length p.1).map Prod.fst

theorem mem_windowClass_iff {p : Window × Nat} {w : Window} :
    w ∈ windowClass files length p ↔
      (w, p.2) ∈ windows files ∧ windowKeys files length w = windowKeys files length p.1 := by
  simp only [windowClass, List.mem_map, List.mem_filter, decide_eq_true_eq]
  constructor
  · rintro ⟨⟨v, h⟩, ⟨hmem, rfl, hkeys⟩, rfl⟩
    exact ⟨hmem, hkeys⟩
  · rintro ⟨hmem, hkeys⟩
    exact ⟨(w, p.2), ⟨hmem, rfl, hkeys⟩, rfl⟩

theorem windowClass_pairwise_before (files : Array KeyedFile) (length : Nat) (p : Window × Nat) :
    (windowClass files length p).Pairwise Window.Before :=
  List.pairwise_map.mpr ((windows_pairwise_before files).filter _)

/-- The classes are the lists of all windows with one hash and the same keys, as far as they have
two members. -/
theorem mem_classes_iff {members : List Window} :
    members ∈ classes files length ↔
      2 ≤ members.length ∧ ∃ p ∈ windows files, members = windowClass files length p := by
  have hhash : ComparesKey (fun a b : Window × Nat => a.2 == b.2) Prod.snd := fun a b => by simp
  have hbuckets := group_areClasses hhash (windows files)
  have hsplit := fun items => group_areClasses (sameKeys_comparesKey files length) items
  have hclass (p q : Window × Nat) (hpq : p.2 = q.2) :
      classIn (windowKeys files length) ((classIn Prod.snd (windows files) p).map Prod.fst) q.1 =
        windowClass files length q := by
    simp only [classIn, windowClass, List.filter_map, List.filter_filter, hpq,
      Bool.decide_and, Bool.and_comm, Function.comp_def]
  simp only [classes, List.mem_filter, List.mem_flatMap, decide_eq_true_eq]
  constructor
  · rintro ⟨⟨bucket, hbucket, hmembers⟩, hlen⟩
    obtain ⟨p, hp, rfl⟩ := hbuckets.isClass bucket hbucket
    obtain ⟨w, hw, rfl⟩ := (hsplit _).isClass members hmembers
    obtain ⟨q, hq, rfl⟩ := List.mem_map.mp hw
    obtain ⟨hqmem, hqp⟩ := mem_classIn.mp hq
    exact ⟨hlen, q, hqmem, hclass p q hqp.symm⟩
  · rintro ⟨hlen, p, hp, rfl⟩
    refine ⟨⟨_, hbuckets.complete p hp, ?_⟩, hlen⟩
    rw [← hclass p p rfl]
    exact (hsplit _).complete p.1 (List.mem_map.mpr ⟨p, mem_classIn.mpr ⟨hp, rfl⟩, rfl⟩)

/-- A window stands in one class only. -/
theorem classes_eq_of_mem {members others : List Window} (hm : members ∈ classes files length)
    (ho : others ∈ classes files length) {w : Window} (hwm : w ∈ members) (hwo : w ∈ others) :
    members = others := by
  obtain ⟨-, p, hp, rfl⟩ := mem_classes_iff.mp hm
  obtain ⟨-, q, hq, rfl⟩ := mem_classes_iff.mp ho
  obtain ⟨hwp, hkp⟩ := mem_windowClass_iff.mp hwm
  obtain ⟨hwq, hkq⟩ := mem_windowClass_iff.mp hwo
  have hpair := windows_hash_unique hwp hwq rfl
  have hhash : p.2 = q.2 := (Prod.mk.inj hpair).2
  simp only [windowClass, hhash, ← hkp, ← hkq]

/-! ## Windows with a hash each -/

/-- Every window of `length` keys has a hash, and no place beyond the last window has one. -/
def HasWindowHashes (files : Array KeyedFile) (length : Nat) : Prop :=
  ∀ f ∈ files, f.hashes.length = f.keys.size + 1 - length

/-- Windows with equal keys have equal hashes. -/
def HashesFollowKeys (files : Array KeyedFile) (length : Nat) : Prop :=
  ∀ p ∈ windows files, ∀ q ∈ windows files,
    windowKeys files length p.1 = windowKeys files length q.1 → p.2 = q.2

theorem keyCount_of_getElem? {file : Nat} {f : KeyedFile} (hf : files[file]? = some f) :
    keyCount files file = f.keys.size := by
  simp [keyCount, hf]

theorem keyCount_pos_getElem? {file : Nat} (h : 0 < keyCount files file) :
    ∃ f, files[file]? = some f := by
  cases hf : files[file]? with
  | none => simp [keyCount, hf] at h
  | some f => exact ⟨f, rfl⟩

/-- A window is a place that all of its keys fit behind. -/
theorem exists_mem_windows_iff (hhash : HasWindowHashes files length) (hlength : 0 < length)
    {w : Window} :
    (∃ hash, (w, hash) ∈ windows files) ↔ w.start + length ≤ keyCount files w.file := by
  constructor
  · rintro ⟨hash, hw⟩
    obtain ⟨f, hf, hstart⟩ := mem_windows_iff.mp hw
    obtain ⟨hlt, -⟩ := List.getElem?_eq_some_iff.mp hstart
    rw [hhash f (Array.mem_of_getElem? hf)] at hlt
    rw [keyCount_of_getElem? hf]
    simp only at hlt
    omega
  · intro hw
    obtain ⟨f, hf⟩ := keyCount_pos_getElem? (by omega : 0 < keyCount files w.file)
    rw [keyCount_of_getElem? hf] at hw
    have hlt : w.start < f.hashes.length := by
      rw [hhash f (Array.mem_of_getElem? hf)]
      omega
    exact ⟨f.hashes[w.start], mem_windows_iff.mpr ⟨f, hf, by simp [hlt]⟩⟩

theorem windows_start_bounded (hhash : HasWindowHashes files length) (hlength : 0 < length)
    {p : Window × Nat} (hp : p ∈ windows files) :
    p.1.start + length ≤ keyCount files p.1.file :=
  (exists_mem_windows_iff hhash hlength).mp ⟨p.2, hp⟩

/-- When the keys decide the hashes, a class is made of all windows with its keys. -/
theorem mem_windowClass_iff_keys (hhash : HasWindowHashes files length)
    (hkeys : HashesFollowKeys files length) (hlength : 0 < length) {p : Window × Nat}
    (hp : p ∈ windows files) {w : Window} :
    w ∈ windowClass files length p ↔ w.start + length ≤ keyCount files w.file ∧
      windowKeys files length w = windowKeys files length p.1 := by
  rw [mem_windowClass_iff]
  constructor
  · rintro ⟨hw, hsame⟩
    exact ⟨windows_start_bounded hhash hlength hw, hsame⟩
  · rintro ⟨hbound, hsame⟩
    obtain ⟨hash, hw⟩ := (exists_mem_windows_iff hhash hlength).mpr hbound
    have heq : hash = p.2 := hkeys _ hw _ hp hsame
    exact ⟨heq ▸ hw, hsame⟩

end Clone
end CloneScan
