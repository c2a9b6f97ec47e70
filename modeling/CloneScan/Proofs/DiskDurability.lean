import CloneScan.Proofs.DiskView
import CloneScan.Proofs.IndexText
import CloneScan.Proofs.StoreEquivalence

/-!
# What a store on disk knows when it is opened again

A flush writes the index when it is marked as changed.  Every change of the index marks it, except
that a path whose record another path has is forgotten without a mark: the index file then falls
behind, and stays behind until something else marks the index or the store is cleared.  A store that
is opened while its file is behind knows paths that the first one forgot, and some session tells the
two apart; otherwise they answer alike.
-/

namespace CloneScan

/-! ## Indexes that fall behind -/

/-- A stored index knows the times of another one and all its paths, and no record that the other
one has no path for. -/
structure IndexView.Lags (stored memory : IndexView) : Prop where
  seen : stored.seen = memory.seen
  paths : ∀ path key, memory.paths path = some key → stored.paths path = some key
  keys : ∀ path key, stored.paths path = some key → ∃ other, memory.paths other = some key

namespace IndexView.Lags

variable {stored memory : IndexView}

theorem refl (v : IndexView) : v.Lags v :=
  ⟨rfl, fun _ _ h => h, fun path _ h => ⟨path, h⟩⟩

/-- A stored index that differs knows a path that the other one does not. -/
theorem exists_of_ne (h : stored.Lags memory) (hne : stored ≠ memory) :
    ∃ path key, stored.paths path = some key ∧ memory.paths path = none := by
  by_contra hnone
  push Not at hnone
  apply hne
  have hpaths : stored.paths = memory.paths := by
    funext path
    cases hmemory : memory.paths path with
    | some key => exact h.paths path key hmemory
    | none =>
        rw [Option.eq_none_iff_forall_ne_some]
        intro key hstored
        exact hnone path key hstored hmemory
  exact congrArg₂ IndexView.mk hpaths h.seen

/-- Forgetting a path whose record another path has makes a stored index lag. -/
theorem removePath (h : stored.Lags memory) {path : Text}
    (hshared : memory.ForgetsShared (.invalidate path)) :
    stored.Lags (memory.removePath path) ∧ stored ≠ memory.removePath path := by
  obtain ⟨key, hpath, hother⟩ := hshared
  have hlast : memory.lastKey? path = none := by simp [IndexView.lastKey?, hpath, hother]
  have hseen : (memory.removePath path).seen = memory.seen := by
    simp [IndexView.removePath, hlast]
  have hpaths (p : Text) : (memory.removePath path).paths p =
      if p = path then none else memory.paths p := by
    simp [IndexView.removePath, Function.update_apply]
  refine ⟨⟨h.seen.trans hseen.symm, fun p k hp => ?_, fun p k hp => ?_⟩, fun heq => ?_⟩
  · rw [hpaths] at hp
    split at hp
    · cases hp
    · exact h.paths p k hp
  · obtain ⟨q, hq⟩ := h.keys p k hp
    by_cases hqpath : q = path
    · -- the record of the forgotten path is the one that the other path has
      obtain ⟨other, hne, hother⟩ := hother
      obtain rfl : key = k := by
        rw [hqpath, hpath] at hq
        exact Option.some.inj hq
      exact ⟨other, by rw [hpaths, if_neg hne, hother]⟩
    · exact ⟨q, by rw [hpaths, if_neg hqpath, hq]⟩
  · have hstored := h.paths path key hpath
    rw [heq, hpaths, if_pos rfl] at hstored
    cases hstored

end IndexView.Lags

/-! ## Telling indexes apart -/

def Session.forget (paths : List Text) : Session :=
  paths.map fun path => (clock 0, .invalidate path)

namespace StoreView

variable {ρ : Type} {shelf : Shelf ρ} {v : StoreView ρ} {key : Text}

theorem paths_invalidate (shelf : Shelf ρ) (v : StoreView ρ) (now : Number) (path p : Text) :
    (v.step shelf now (.invalidate path)).2.index.paths p =
      if p = path then none else v.index.paths p := by
  simp [index_invalidate, IndexView.removePath, Function.update_apply]

/-- A record is gone once every path that had it is forgotten. -/
theorem records_after_forget (paths : List Text)
    (hgone : v.records key = none ∨ ∃ path, v.index.paths path = some key)
    (hall : ∀ path, v.index.paths path = some key → path ∈ paths) :
    (v.after shelf (.forget paths)).records key = none := by
  induction paths generalizing v with
  | nil =>
      rcases hgone with hgone | ⟨path, hpath⟩
      · exact hgone
      · cases hall path hpath
  | cons path paths ih =>
      apply ih
      · rcases hgone with hgone | ⟨p, hp⟩
        · left
          rw [records_invalidate, hgone, ite_self]
        · by_cases hother : ∃ q, q ≠ path ∧ v.index.paths q = some key
          · obtain ⟨q, hne, hq⟩ := hother
            exact .inr ⟨q, by rw [paths_invalidate, if_neg hne, hq]⟩
          · have hpath : v.index.paths path = some key := by
              by_contra hpath
              exact hother ⟨p, fun h => hpath (h ▸ hp), hp⟩
            have hlast : v.index.lastKey? path = some key := by
              simp [IndexView.lastKey?, hpath, IndexView.IsShared, hother]
            exact .inl (by rw [records_invalidate, if_pos hlast])
      · intro p hp
        rw [paths_invalidate] at hp
        split at hp
        case isTrue => cases hp
        case isFalse hne => exact (List.mem_cons.mp (hall p hp)).resolve_left hne

/-- A record stays as long as a path that has it is not forgotten. -/
theorem records_after_forget_of_notMem {paths : List Text} {path : Text} (hpath : path ∉ paths)
    (hkey : v.index.paths path = some key) :
    (v.after shelf (.forget paths)).records key = v.records key := by
  induction paths generalizing v with
  | nil => rfl
  | cons p paths ih =>
      have hne : path ≠ p := List.ne_of_not_mem_cons hpath
      have hrest : path ∉ paths := List.not_mem_of_not_mem_cons hpath
      have hlast : v.index.lastKey? p ≠ some key := by
        intro hlast
        have hfiltered := (Option.filter_eq_some_iff.mp hlast).2
        simp only [decide_eq_true_eq] at hfiltered
        exact hfiltered ⟨path, hne, hkey⟩
      refine (ih hrest ?_).trans ?_
      · rw [paths_invalidate, if_neg hne, hkey]
      · rw [records_invalidate, if_neg hlast]

theorem answer_get (shelf : Shelf ρ) (v : StoreView ρ) (now : Number) (key : Text) :
    (v.step shelf now (.get key)).1 = .found (((v.records key).map shelf.read).getD .miss) := by
  simp only [StoreView.step]
  split
  case h_1 hfound => rw [hfound, Option.getD_none]
  case h_2 hfound => rw [hfound, Option.getD_some]
  case h_3 hfound => rw [hfound, Option.getD_some]

theorem exists_records_put (shelf : Shelf ρ) (v : StoreView ρ) (now : Number) (key : Text)
    (value : Json) :
    ∃ r, (v.step shelf now (.put key value)).2.records key = some r ∧
      (v.step shelf now (.put key value)).2.index.paths = v.index.paths := by
  simp only [StoreView.step]
  split
  case h_1 r hfound => exact ⟨r, hfound, rfl⟩
  case h_2 => exact ⟨shelf.write now value, by simp, rfl⟩

end StoreView

/-- Puts a record, forgets paths and looks the record up. -/
def Session.probe (key : Text) (paths : List Text) : Session :=
  (clock 0, .put key blankRecord.toJson) :: (Session.forget paths ++ [(clock 0, .get key)])

/-- A record whose paths are all forgotten is missed, and one that still has a path is not. -/
theorem StoreView.answers_probe_ne {ρ : Type} {shelf : Shelf ρ} {v w : StoreView ρ}
    {key path : Text} {paths : List Text} (hread : ∀ r, shelf.read r ≠ .miss)
    (hw : ∃ p, w.index.paths p = some key) (hall : ∀ p, w.index.paths p = some key → p ∈ paths)
    (hv : v.index.paths path = some key) (hpath : path ∉ paths) :
    v.answers shelf (.probe key paths) ≠ w.answers shelf (.probe key paths) := by
  intro heq
  have hlast (u : StoreView ρ) : (u.answers shelf (.probe key paths)).getLast? =
      some (.found (((((u.step shelf (clock 0) (.put key blankRecord.toJson)).2.after shelf
        (.forget paths)).records key).map shelf.read).getD .miss)) := by
    rw [Session.probe, StoreView.answers, answers_append, ← List.cons_append,
      List.getLast?_append_of_ne_nil _ (by simp [StoreView.answers])]
    simp [StoreView.answers, answer_get]
  obtain ⟨r, hrecord, hpaths⟩ := exists_records_put shelf v (clock 0) key blankRecord.toJson
  obtain ⟨-, -, hpaths'⟩ := exists_records_put shelf w (clock 0) key blankRecord.toJson
  rw [← hpaths'] at hw hall
  rw [← hpaths] at hv
  have hanswer := congrArg List.getLast? heq
  rw [hlast, hlast, records_after_forget paths (.inr hw) hall,
    records_after_forget_of_notMem hpath hv, hrecord] at hanswer
  exact hread r (by simpa using hanswer)

/-! ## The index file -/

namespace DiskStore

variable {directory : List Text} {s : Surroundings DiskState} {behind : Prop}

/-- The store opened once more, over the same files. -/
def reopen (s : Surroundings DiskState) : Surroundings DiskState :=
  { s with state := .opened }

/-- The index file is behind after a call: it was, or the call forgets a path whose record another
path has; and the call neither marks the index as changed nor clears the store. -/
def FallsBehind (directory : List Text) (behind : Prop) (s s' : Surroundings DiskState)
    (c : StoreCall) : Prop :=
  s'.state.dirty = false ∧ c ≠ .clear ∧ (behind ∨ (indexOf directory s).view.ForgetsShared c)

/-- The index file is behind after a session. -/
def IsBehind (directory : List Text) (behind : Prop) (s : Surroundings DiskState) :
    Session → Prop
  | [] => behind
  | (now, c) :: rest =>
    IsBehind directory
      (FallsBehind directory behind s ((diskStore directory).call s now c).2 c)
      ((diskStore directory).call s now c).2 rest

/-- As long as the index is not marked as changed, the index file lags at most, and differs from
the index when it is behind. -/
structure Follows (directory : List Text) (s : Surroundings DiskState) (behind : Prop) : Prop where
  sound : IsSound directory s
  unique : (storedIndex directory s.files).Unique
  times : ∀ key time, (indexOf directory s).view.seen key = some time → time.IsFinite
  marked : s.state.dirty = true → ¬ behind
  lags : s.state.dirty = false →
    (storedIndex directory s.files).view.Lags (indexOf directory s).view
  differs : s.state.dirty = false →
    (behind ↔ (storedIndex directory s.files).view ≠ (indexOf directory s).view)

theorem Follows.of_opened (hs : IsSound directory s) (hopened : s.state = .opened)
    (htimes : ∀ key time, (indexOf directory s).view.seen key = some time → time.IsFinite) :
    Follows directory s False := by
  have hindex : indexOf directory s = storedIndex directory s.files := by
    rw [indexOf, hopened]
    rfl
  have hunique := hs.unique
  rw [hindex] at hunique
  refine ⟨hs, hunique, htimes, fun _ => id, fun _ => ?_, fun _ => ?_⟩
  · rw [hindex]
    exact IndexView.Lags.refl _
  · simp [hindex]

theorem Follows.of_view_eq (hs : IsSound directory s)
    (hunique : (storedIndex directory s.files).Unique)
    (htimes : ∀ key time, (indexOf directory s).view.seen key = some time → time.IsFinite)
    (hview : (storedIndex directory s.files).view = (indexOf directory s).view)
    (hbehind : ¬ behind) : Follows directory s behind := by
  refine ⟨hs, hunique, htimes, fun _ => hbehind, fun _ => ?_, fun _ => ?_⟩
  · rw [hview]
    exact IndexView.Lags.refl _
  · simp [hview, hbehind]

/-- Nothing changes for an index file when neither it nor the index changes. -/
theorem Follows.of_same (h : Follows directory s behind) {s' : Surroundings DiskState}
    {behind' : Prop} (hs' : IsSound directory s')
    (hstored : storedIndex directory s'.files = storedIndex directory s.files)
    (hindex : (indexOf directory s').view = (indexOf directory s).view)
    (hclean : s.state.dirty = false) (hbehind : behind' ↔ s'.state.dirty = false ∧ behind) :
    Follows directory s' behind' := by
  refine ⟨hs', hstored ▸ h.unique, hindex ▸ h.times, fun hmarked hb => ?_, fun _ => ?_,
    fun hclean' => ?_⟩
  · rw [(hbehind.mp hb).1] at hmarked
    cases hmarked
  · rw [hstored, hindex]
    exact h.lags hclean
  · rw [hbehind, hstored, hindex, h.differs hclean]
    exact and_iff_right hclean'

theorem Follows.step_flush (h : Follows directory s behind) (now : Number) :
    let s' := ((diskStore directory).call s now .flush).2
    Follows directory s' (FallsBehind directory behind s s' .flush) ∧ s'.state.dirty = false := by
  obtain ⟨s', hperforms, hcase⟩ := performs_flush h.sound now
  rw [hperforms.run]
  dsimp only
  rcases hcase with ⟨hclean, hfiles, hstate⟩ | ⟨hdirty, hstored, hstate⟩
  · have hindex : indexOf directory s' = indexOf directory s := by
      rw [indexOf, indexOf, hstate, hfiles]
    refine ⟨h.of_same hperforms.sound (by rw [hfiles]) (by rw [hindex]) hclean ?_, ?_⟩
    · simp [FallsBehind, IndexView.ForgetsShared]
    · rw [hstate, hclean]
  · have hindex : indexOf directory s' = indexOf directory s := by
      rw [indexOf, hstate]
      rfl
    have htimes : ∀ e ∈ (indexOf directory s).seen, e.2.IsFinite := fun e he =>
      h.times e.1 e.2 (h.sound.unique.seen.mem_iff.mp he)
    obtain ⟨j, -, hdecode, hview, hunique, -⟩ :=
      PathIndex.decode?_encode h.sound.unique htimes
    rw [hdecode, Option.getD_some] at hstored
    refine ⟨Follows.of_view_eq hperforms.sound ?_ ?_ ?_ ?_, by rw [hstate]⟩
    · rw [hstored]
      exact hunique
    · rw [hindex]
      exact h.times
    · rw [hstored, hindex, hview]
    · rintro ⟨-, -, hbehind | hbehind⟩
      · exact h.marked hdirty hbehind
      · exact hbehind

theorem Follows.step_clear (h : Follows directory s behind) (now : Number) :
    let s' := ((diskStore directory).call s now .clear).2
    Follows directory s' (FallsBehind directory behind s s' .clear) := by
  obtain ⟨s', hperforms, hstored, hstate⟩ := performs_clear h.sound now
  rw [hperforms.run]
  have hindex : indexOf directory s' = .empty := by
    rw [indexOf, hstate]
    rfl
  refine Follows.of_view_eq hperforms.sound ?_ ?_ ?_ fun hbehind => hbehind.2.1 rfl
  · rw [hstored]
    exact PathIndex.unique_empty
  · intro key time hseen
    rw [hindex] at hseen
    cases hseen
  · rw [hstored, hindex]

/-- What one call does to the index file. -/
theorem Follows.step (h : Follows directory s behind) {now : Number} (hnow : now.IsFinite)
    {c : StoreCall} (hc : c.HasKey) :
    let s' := ((diskStore directory).call s now c).2
    Follows directory s' (FallsBehind directory behind s s' c) := by
  by_cases hflush : c = .flush
  · subst hflush
    exact (h.step_flush now).1
  by_cases hclear : c = .clear
  · subst hclear
    exact h.step_clear now
  obtain ⟨a, s', hperforms⟩ := exists_performs h.sound now hc
  obtain ⟨hstored, hdirty⟩ := hperforms.marks hflush hclear
  rw [hperforms.run]
  have hview : view directory s' = ((view directory s).step shelf now c).2 := by
    rw [hperforms.step]
  have hindex : (indexOf directory s').view = ((view directory s).step shelf now c).2.index :=
    congrArg StoreView.index hview
  have htimes (key : Text) (time : Number)
      (hseen : (indexOf directory s').view.seen key = some time) : time.IsFinite := by
    rw [hindex] at hseen
    rcases StoreView.seen_step hseen with rfl | hseen
    · exact hnow
    · exact h.times key time hseen
  rcases hdirty with hmarked | ⟨hclean, hsame⟩
  · have hnot : ¬ s'.state.dirty = false := by simp [hmarked]
    exact ⟨hperforms.sound, hstored ▸ h.unique, htimes, fun _ hbehind => hnot hbehind.1,
      fun hclean => absurd hclean hnot, fun hclean => absurd hclean hnot⟩
  by_cases hforgets : (indexOf directory s).view.ForgetsShared c
  · -- only forgetting a path can be without a mark
    cases c with
    | invalidate path =>
        rw [StoreView.index_invalidate] at hindex
        have hindex : (indexOf directory s').view = (indexOf directory s).view.removePath path :=
          hindex
        obtain ⟨hlags, hne⟩ := (h.lags hclean).removePath hforgets
        refine ⟨hperforms.sound, hstored ▸ h.unique, htimes, fun hmarked hbehind => ?_,
          fun _ => ?_, fun hclean' => ?_⟩
        · rw [hbehind.1] at hmarked
          cases hmarked
        · rw [hstored, hindex]
          exact hlags
        · rw [hstored, hindex]
          exact iff_of_true ⟨hclean', hclear, .inr hforgets⟩ hne
    | _ => cases hforgets
  · refine h.of_same hperforms.sound hstored (hsame.resolve_right hforgets) hclean ?_
    simp [FallsBehind, hclear, hforgets]

theorem Follows.after (h : Follows directory s behind) {session : Session}
    (hsession : ∀ e ∈ session, e.1.IsFinite ∧ e.2.HasKey) :
    Follows directory ((diskStore directory).after s session)
      (IsBehind directory behind s session) := by
  induction session generalizing s behind with
  | nil => exact h
  | cons e session ih =>
      obtain ⟨hfirst, hrest⟩ := List.forall_mem_cons.mp hsession
      exact ih (h.step hfirst.1 hfirst.2) hrest

/-! ## Opening the store again -/

/-- Stores over the same directory answer every further session alike. -/
def AnswersAlike (directory : List Text) (s t : Surroundings DiskState) : Prop :=
  ∀ later : Session, (∀ e ∈ later, e.2.HasKey) →
    (diskStore directory).answers s later = (diskStore directory).answers t later

theorem indexOf_reopen (directory : List Text) (s : Surroundings DiskState) :
    indexOf directory (reopen s) = storedIndex directory s.files :=
  rfl

theorem Follows.isSound_reopen (h : Follows directory s behind) (hclean : s.state.dirty = false) :
    IsSound directory (reopen s) := by
  have hlags := h.lags hclean
  refine ⟨h.sound.healthy, h.unique, ⟨fun path key hpath => ?_, fun key time hseen => ?_⟩,
    fun hdirty => by cases hdirty⟩
  · obtain ⟨other, hother⟩ := hlags.keys path key hpath
    exact h.sound.keys.paths other key hother
  · rw [indexOf_reopen, hlags.seen] at hseen
    exact h.sound.keys.seen key time hseen

theorem answers_eq_of_isSound (hs : IsSound directory s) {later : Session}
    (hlater : ∀ e ∈ later, e.2.HasKey) :
    (diskStore directory).answers s later =
      ((view directory s).answers shelf later).map .ok :=
  (refines directory).answers_eq (show Shows directory s _ from ⟨hs, rfl⟩) hlater

theorem read_ne_miss (r : List UInt8 × Option Number) : shelf.read r ≠ .miss := by
  simp only [shelf]
  cases CacheRecord.decode (Text.ofUtf8 r.1) <;> simp [Lookup.ofReading]

theorem hasKey_probe {key : Text} (hkey : isKey key = true) (paths : List Text) :
    ∀ e ∈ Session.probe key paths, e.2.HasKey := by
  intro e he
  rcases List.mem_cons.mp he with rfl | he
  · exact hkey
  rcases List.mem_append.mp he with he | he
  · obtain ⟨path, -, rfl⟩ := List.mem_map.mp he
    trivial
  · rw [List.mem_singleton.mp he]
    exact hkey

/-- The reopened store answers alike when its index file shows the same index, and only then: the
record of a path that the file still knows outlives all the paths that the first store knows. -/
theorem Follows.answersAlike_iff (h : Follows directory s behind) (hclean : s.state.dirty = false) :
    AnswersAlike directory (reopen s) s ↔
      (storedIndex directory s.files).view = (indexOf directory s).view := by
  have hreopen := h.isSound_reopen hclean
  constructor
  · intro halike
    by_contra hne
    obtain ⟨path, key, hstored, hmemory⟩ := (h.lags hclean).exists_of_ne hne
    have hother := (h.lags hclean).keys path key hstored
    have hkey : isKey key = true := by
      obtain ⟨other, hother⟩ := hother
      exact h.sound.keys.paths other key hother
    have hprobe := hasKey_probe hkey (indexOf directory s).paths.keys
    have hanswers := halike _ hprobe
    rw [answers_eq_of_isSound hreopen hprobe, answers_eq_of_isSound h.sound hprobe] at hanswers
    refine StoreView.answers_probe_ne read_ne_miss hother ?_ hstored ?_
      (List.map_injective_iff.mpr (fun _ _ => Except.ok.inj) hanswers)
    · intro p hp
      rw [TextMap.mem_keys_iff]
      exact Option.isSome_iff_exists.mpr ⟨key, hp⟩
    · rw [TextMap.mem_keys_iff]
      intro hsome
      rw [show (indexOf directory s).paths.get? path = none from hmemory] at hsome
      cases hsome
  · intro hview later hlater
    have hsame : view directory (reopen s) = view directory s := by
      rw [view, view, indexOf_reopen, hview]
      rfl
    rw [answers_eq_of_isSound hreopen hlater, answers_eq_of_isSound h.sound hlater, hsame]

/-- Whatever calls a store was used by since it was opened, the index is not marked as changed after
a flush; and whenever it is not, a store opened on the same directory answers every further session
alike if and only if the index file shows the same index, which it does unless it is behind. -/
theorem answersAlike_reopen_iff (hs : IsSound directory s) (hopened : s.state = .opened)
    (htimes : ∀ key time, (indexOf directory s).view.seen key = some time → time.IsFinite)
    {session : Session} (hsession : ∀ e ∈ session, e.1.IsFinite ∧ e.2.HasKey) :
    let t := (diskStore directory).after s session
    (∀ before now, session = before ++ [(now, .flush)] → t.state.dirty = false) ∧
      (t.state.dirty = false →
        (AnswersAlike directory (reopen t) t ↔
            (storedIndex directory t.files).view = (indexOf directory t).view) ∧
          ((storedIndex directory t.files).view = (indexOf directory t).view ↔
            ¬ IsBehind directory False s session)) := by
  have hstart := Follows.of_opened hs hopened htimes
  have hfollows := hstart.after hsession
  refine ⟨?_, fun hclean => ⟨hfollows.answersAlike_iff hclean, ?_⟩⟩
  · rintro before now rfl
    rw [CacheStore.after_append]
    have hbefore := hstart.after fun e he => hsession e (List.mem_append_left _ he)
    exact (hbefore.step_flush now).2
  · rw [hfollows.differs hclean, not_not]

def newStore : Surroundings DiskState :=
  ⟨.empty, .opened, clock 0, []⟩

/-- Two paths share a record, and one of them is forgotten while the index is marked as changed. -/
def markedSession : Session :=
  [(clock 1, .put (Text.ofString "k") blankRecord.toJson),
    (clock 2, .recordSeen (Text.ofString "a") (Text.ofString "k")),
    (clock 3, .recordSeen (Text.ofString "b") (Text.ofString "k")),
    (clock 4, .invalidate (Text.ofString "a")), (clock 5, .flush)]

theorem not_isBehind_markedSession : ¬ IsBehind [] False newStore markedSession := by
  -- the index is still marked when the path is forgotten
  rintro ⟨-, -, ⟨hclean, -⟩ | hforgets⟩
  · exact absurd hclean (by decide +kernel)
  · exact hforgets

/-- The reopened store answers alike after the path is forgotten and the index is written. -/
theorem answersAlike_reopen_markedSession :
    AnswersAlike [] (reopen ((diskStore []).after newStore markedSession))
      ((diskStore []).after newStore markedSession) := by
  obtain ⟨hsound, hview⟩ := shows_empty (FileTree.isBare_empty []) (clock 0) []
  have htimes (key : Text) (time : Number)
      (hseen : (indexOf [] newStore).view.seen key = some time) : time.IsFinite := by
    have hnone := congrFun (congrArg (fun v => v.index.seen) hview) key
    rw [show (indexOf [] newStore).view.seen key = none from hnone.symm] at hseen
    cases hseen
  have hkey : isKey (Text.ofString "k") = true := by decide
  have hsession : ∀ e ∈ markedSession, e.1.IsFinite ∧ e.2.HasKey := by
    simp only [markedSession, List.forall_mem_cons]
    exact ⟨⟨clock_isFinite (by decide), hkey⟩, ⟨clock_isFinite (by decide), hkey⟩,
      ⟨clock_isFinite (by decide), hkey⟩, ⟨clock_isFinite (by decide), trivial⟩,
      ⟨clock_isFinite (by decide), trivial⟩, by simp⟩
  obtain ⟨hflushed, halike⟩ := answersAlike_reopen_iff hsound rfl htimes hsession
  obtain ⟨hview, hbehind⟩ := halike (hflushed markedSession.dropLast (clock 5) rfl)
  exact hview.mpr (hbehind.mpr not_isBehind_markedSession)

/-- Two paths share a record, and one of them is forgotten after the index is written. -/
def unmarkedSession : Session :=
  [(clock 1, .put (Text.ofString "k") blankRecord.toJson),
    (clock 2, .recordSeen (Text.ofString "a") (Text.ofString "k")),
    (clock 3, .recordSeen (Text.ofString "b") (Text.ofString "k")), (clock 4, .flush),
    (clock 5, .invalidate (Text.ofString "a")), (clock 6, .flush)]

def isHit : Except StoreFault StoreAnswer → Bool
  | .ok (.found (.hit _)) => true
  | _ => false

/-- Forgetting the other path makes the record vanish from the first store, and not from the
reopened one. -/
theorem not_answersAlike_reopen_unmarkedSession :
    ¬ AnswersAlike [] (reopen ((diskStore []).after newStore unmarkedSession))
      ((diskStore []).after newStore unmarkedSession) := by
  intro halike
  have hkeys : ∀ e ∈ ([(clock 7, .invalidate (Text.ofString "b")),
      (clock 8, .get (Text.ofString "k"))] : Session), e.2.HasKey := by
    simp only [List.forall_mem_cons]
    exact ⟨trivial, show isKey (Text.ofString "k") = true by decide, by simp⟩
  have hhits := congrArg (List.map isHit) (halike _ hkeys)
  revert hhits
  decide +kernel

end DiskStore

end CloneScan
