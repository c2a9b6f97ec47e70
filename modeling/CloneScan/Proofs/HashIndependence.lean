import CloneScan.Proofs.FileNumbering

/-!
# Hashes only nominate

Hashes decide the buckets, and through them the order in which classes are found and the numbers by
which the sweep skips them.  None of this reaches the result: the sweep takes the classes in the
order of their first windows, and what it skips would have added nothing.  When equal windows have
equal hashes the classes are those of the keys alone, so two such assignments of hashes give the
same clusters in the same order.
-/

namespace CloneScan

namespace Clone

variable {files files' : Array KeyedFile} {length : Nat}

/-! ## The sweep without skipping -/

/-- Adds the block of a class, unless it has less than two members or its places are there. -/
def addBlock (files : Array KeyedFile) (length : Nat) (blocks : List Block)
    (members : List Window) : List Block :=
  let b := grownBlock files length members
  let isNew := !blocks.any fun c => c.members == b.members
  if 2 ≤ b.members.length && isNew then blocks ++ [b] else blocks

theorem addBlock_of_settled {blocks : List Block} {members : List Window}
    (h : Settled files length blocks members) : addBlock files length blocks members = blocks := by
  by_cases htwo : 2 ≤ (grownBlock files length members).members.length
  · have hthere : (blocks.any fun c =>
        c.members == (grownBlock files length members).members) = true :=
      List.any_eq_true.mpr ⟨_, h htwo, beq_self_eq_true _⟩
    simp [addBlock, hthere]
  · simp [addBlock, htwo]

theorem sweepStep_blocks (table : List (List Window)) {s : Sweep} {entry : Nat × List Window}
    (hentry : entry.1 ∉ s.done) :
    (sweepStep files length table s entry).blocks = addBlock files length s.blocks entry.2 := by
  obtain ⟨i, members⟩ := entry
  cases members with
  | nil => simp [sweepStep, addBlock, grownBlock]
  | cons first more =>
      simp only [sweepStep, List.contains_iff_mem, hentry, if_false]
      exact apply_ite Sweep.blocks _ _ _

/-- A skipped class would have added nothing, so the blocks are those of growing every class. -/
theorem SweepInvariant.blocks_foldl {s : Sweep} {swept order : List (Nat × List Window)}
    (hinv : SweepInvariant files length s swept) (hhash : HasWindowHashes files length)
    (hkeys : HashesFollowKeys files length) (hlength : 0 < length)
    (horder : ∀ e ∈ order, (classes files length)[e.1]? = some e.2) :
    (order.foldl (Clone.sweepStep files length (classes files length)) s).blocks =
      (order.map Prod.snd).foldl (addBlock files length) s.blocks := by
  induction order generalizing s swept with
  | nil => rfl
  | cons e order ih =>
      have hentry := horder e (by simp)
      have hstep := hinv.sweepStep hhash hkeys hlength hentry
      have hrest := ih hstep fun e' he' => horder e' (by simp [he'])
      have hblocks : (Clone.sweepStep files length (classes files length) s e).blocks =
          addBlock files length s.blocks e.2 := by
        by_cases hdone : e.1 ∈ s.done
        · have hskip : Clone.sweepStep files length (classes files length) s e = s := by
            obtain ⟨i, members⟩ := e
            cases members with
            | nil => rfl
            | cons first more => simp [Clone.sweepStep, hdone]
          rw [hskip, addBlock_of_settled (hinv.done e.1 hdone e.2 hentry)]
        · exact sweepStep_blocks _ hdone
      rw [List.foldl_cons, hrest, hblocks, List.map_cons, List.foldl_cons]

/-- The classes in the order in which they are grown. -/
def orderedClasses (files : Array KeyedFile) (length : Nat) : List (List Window) :=
  (((classes files length).mapIdx fun i members => (i, members)).mergeSort classLe).map Prod.snd

theorem grownBlocks_eq_foldl (hhash : HasWindowHashes files length)
    (hkeys : HashesFollowKeys files length) (hlength : 0 < length) :
    grownBlocks files length =
      (orderedClasses files length).foldl (addBlock files length) [] := by
  have hstart : SweepInvariant files length ⟨[], []⟩ [] :=
    ⟨by simp [OfClasses], by simp, by simp⟩
  exact hstart.blocks_foldl hhash hkeys hlength fun e he => mem_order_iff.mp he

/-! ## The order of the classes -/

theorem classes_pairwise_disjoint (files : Array KeyedFile) (length : Nat) :
    (classes files length).Pairwise fun a b => ∀ w ∈ a, w ∉ b := by
  have hhash : ComparesKey (fun a b : Window × Nat => a.2 == b.2) Prod.snd := fun a b => by simp
  have hbuckets := group_areClasses hhash (windows files)
  have hsplit := fun items => group_areClasses (sameKeys_comparesKey files length) items
  -- a window of a group stands in the bucket of the group, with its hash
  have hmem (bucket : List (Window × Nat)) (members : List Window)
      (hmembers : members ∈ group (sameKeys files length) (bucket.map (·.1))) (w : Window)
      (hw : w ∈ members) : ∃ p ∈ bucket, p.1 = w := by
    obtain ⟨v, -, rfl⟩ := (hsplit _).isClass members hmembers
    exact List.mem_map.mp (mem_classIn.mp hw).1
  refine List.Pairwise.filter _ (List.pairwise_flatMap.mpr ⟨?_, ?_⟩)
  · intro bucket hbucket
    refine (hsplit (bucket.map (·.1))).apart.imp ?_
    intro a b hab w hwa hwb
    exact hab w hwa w hwb rfl
  · refine hbuckets.apart.imp_of_mem ?_
    intro g h hg hh hapart a ha b hb w hwa hwb
    obtain ⟨p, hp, hpw⟩ := hmem g a ha w hwa
    obtain ⟨q, hq, hqw⟩ := hmem h b hb w hwb
    obtain ⟨c, -, rfl⟩ := hbuckets.isClass g hg
    obtain ⟨d, -, rfl⟩ := hbuckets.isClass h hh
    have hpq := windows_hash_unique (mem_classIn.mp hp).1 (mem_classIn.mp hq).1 (hpw.trans hqw.symm)
    exact hapart p hp q hq (congrArg Prod.snd hpq)

theorem classLe_trans (a b c : Nat × List Window) (hab : classLe a b = true)
    (hbc : classLe b c = true) : classLe a c = true := by
  obtain ⟨i, as⟩ := a
  obtain ⟨j, bs⟩ := b
  obtain ⟨k, cs⟩ := c
  cases as <;> cases bs <;> cases cs <;> simp [classLe] at *
  omega

theorem classLe_total (a b : Nat × List Window) : (classLe a b || classLe b a) = true := by
  obtain ⟨i, as⟩ := a
  obtain ⟨j, bs⟩ := b
  cases as <;> cases bs <;> simp [classLe]
  omega

/-- The first window of a class stands before that of another one. -/
def FirstBefore (a b : List Window) : Prop :=
  ∃ x y, a.head? = some x ∧ b.head? = some y ∧ x.Before y

theorem FirstBefore.asymm {a b : List Window} (hab : FirstBefore a b) : ¬ FirstBefore b a := by
  rintro ⟨y, x, hy, hx, hyx⟩
  obtain ⟨x', y', hx', hy', hxy⟩ := hab
  obtain rfl := Option.some.inj (hx.symm.trans hx')
  obtain rfl := Option.some.inj (hy.symm.trans hy')
  exact hxy.asymm hyx

theorem firstBefore_of_classLe {a b : Nat × List Window} (hle : classLe a b = true)
    (hdisjoint : ∀ w ∈ a.2, w ∉ b.2) (ha : a.2 ≠ []) (hb : b.2 ≠ []) : FirstBefore a.2 b.2 := by
  obtain ⟨i, as⟩ := a
  obtain ⟨j, bs⟩ := b
  obtain ⟨⟨file, start⟩, as, rfl⟩ := List.exists_cons_of_ne_nil ha
  obtain ⟨⟨file', start'⟩, bs, rfl⟩ := List.exists_cons_of_ne_nil hb
  refine ⟨_, _, rfl, rfl, ?_⟩
  have hne := hdisjoint ⟨file, start⟩ (by simp)
  simp only [List.mem_cons, Window.mk.injEq, not_or, not_and] at hne
  simp only [classLe, Bool.or_eq_true, decide_eq_true_eq, Bool.and_eq_true, beq_iff_eq] at hle
  simp only [Window.Before]
  omega

theorem mem_orderedClasses {members : List Window} :
    members ∈ orderedClasses files length ↔ members ∈ classes files length := by
  simp only [orderedClasses, List.mem_map]
  constructor
  · rintro ⟨e, he, rfl⟩
    exact List.mem_of_getElem? (mem_order_iff.mp he)
  · intro hmembers
    obtain ⟨i, hi, rfl⟩ := List.mem_iff_getElem.mp hmembers
    exact ⟨(i, _), mem_order_iff.mpr (List.getElem?_eq_getElem hi), rfl⟩

/-- The classes are grown in the strict order of their first windows. -/
theorem orderedClasses_pairwise (files : Array KeyedFile) (length : Nat) :
    (orderedClasses files length).Pairwise FirstBefore := by
  have hsorted := List.pairwise_mergeSort classLe_trans classLe_total
    ((classes files length).mapIdx fun i members => (i, members))
  have hnumbered : ((classes files length).mapIdx fun i members => (i, members)).Pairwise
      fun a b => (∀ w ∈ a.2, w ∉ b.2) ∧ ∀ w ∈ b.2, w ∉ a.2 := by
    refine List.pairwise_iff_getElem.mpr ?_
    intro i j hi hj hij
    have happart := List.pairwise_iff_getElem.mp (classes_pairwise_disjoint files length) i j
      (by simpa using hi) (by simpa using hj) hij
    simp only [List.getElem_mapIdx]
    exact ⟨happart, fun w hb ha => happart w ha hb⟩
  have hdisjoint := (List.mergeSort_perm _ classLe).symm.pairwise hnumbered And.symm
  refine List.pairwise_map.mpr ((hsorted.and hdisjoint).imp_of_mem ?_)
  rintro a b ha hb ⟨hle, hapart, -⟩
  have hne (e : Nat × List Window) (he : e ∈ ((classes files length).mapIdx
      fun i members => (i, members)).mergeSort classLe) : e.2 ≠ [] := by
    have htwo := (mem_classes_iff.mp (List.mem_of_getElem? (mem_order_iff.mp he))).1
    exact List.ne_nil_of_length_pos (by omega)
  exact firstBefore_of_classLe hle hapart (hne a ha) (hne b hb)

/-! ## Two assignments of hashes -/

/-- Two lists of files hold the same keys at the same places. -/
abbrev SameKeys (files files' : Array KeyedFile) : Prop :=
  Renumbers (Equiv.refl Nat) files files'

namespace SameKeys

theorem grownBlock_eq (h : SameKeys files files') (members : List Window) :
    grownBlock files' length members = grownBlock files length members := by
  have hkey (i k : Nat) : keyAt files' i k = keyAt files i k := h.keyAt_eq i k
  have hcount (i : Nat) : keyCount files' i = keyCount files i := h.keyCount_eq i
  have hbefore : agreeBefore files' = agreeBefore files := by
    funext first members back
    simp only [agreeBefore, hkey]
  have hafter : agreeAfter files' = agreeAfter files := by
    funext first members ahead
    simp only [agreeAfter, hkey, hcount]
  cases members with
  | nil => rfl
  | cons first more =>
      simp only [grownBlock, grow, leftGrowth, rightGrowth, hbefore, hafter, hcount]

theorem addBlock_eq (h : SameKeys files files') :
    addBlock files' length = addBlock files length := by
  funext blocks members
  simp only [addBlock, h.grownBlock_eq]

section Search

variable (h : SameKeys files files') (hhash : HasWindowHashes files length)
  (hkeys : HashesFollowKeys files length) (hhash' : HasWindowHashes files' length)
  (hkeys' : HashesFollowKeys files' length) (hlength : 0 < length)

include h hhash hkeys hhash' hkeys' hlength

theorem mem_classes_of_mem {members : List Window} (hmembers : members ∈ classes files length) :
    members ∈ classes files' length := by
  obtain ⟨members', hmembers', hperm⟩ :=
    Renumbers.exists_class h hhash hkeys hhash' hkeys' hlength hmembers
  have hsame : members.map (Window.renumber (Equiv.refl Nat)) = members := List.map_id members
  rw [hsame] at hperm
  have hordered := (alike_of_mem_classes hhash hlength hmembers).ordered
  have hordered' := (alike_of_mem_classes hhash' hlength hmembers').ordered
  obtain rfl := hperm.eq_of_pairwise (fun a b _ _ hab hba => absurd hba hab.asymm) hordered'
    hordered
  exact hmembers'

theorem orderedClasses_eq : orderedClasses files length = orderedClasses files' length := by
  have hordered := orderedClasses_pairwise files length
  have hordered' := orderedClasses_pairwise files' length
  have hnodup : (orderedClasses files length).Nodup :=
    hordered.imp fun hab heq => (heq ▸ hab).asymm (heq ▸ hab)
  have hnodup' : (orderedClasses files' length).Nodup :=
    hordered'.imp fun hab heq => (heq ▸ hab).asymm (heq ▸ hab)
  have hmem (members : List Window) : members ∈ orderedClasses files length ↔
      members ∈ orderedClasses files' length := by
    rw [mem_orderedClasses, mem_orderedClasses]
    exact ⟨h.mem_classes_of_mem hhash hkeys hhash' hkeys' hlength,
      mem_classes_of_mem (Renumbers.symm h) hhash' hkeys' hhash hkeys hlength⟩
  have hperm := (List.perm_ext_iff_of_nodup hnodup hnodup').mpr hmem
  exact hperm.eq_of_pairwise (fun a b _ _ hab hba => absurd hba hab.asymm) hordered hordered'

theorem grownBlocks_eq : grownBlocks files length = grownBlocks files' length := by
  rw [grownBlocks_eq_foldl hhash hkeys hlength, grownBlocks_eq_foldl hhash' hkeys' hlength,
    h.orderedClasses_eq hhash hkeys hhash' hkeys' hlength, h.addBlock_eq]

end Search

end SameKeys

end Clone

namespace Cluster

variable {files : List IndexedFile} {window : Nat} {hashes : Nat → List Nat}

/-! ## Files with other hashes -/

/-- The files with the hashes of an assignment, which gives a list of hashes to each file. -/
def rehash (files : List IndexedFile) (hashes : Nat → List Nat) : List IndexedFile :=
  files.mapIdx fun i f => { f with hashes := hashes i }

/-- Every window has a hash, and windows with equal keys have equal hashes. -/
structure IsHashing (files : List IndexedFile) (window : Nat) (hashes : Nat → List Nat) :
    Prop where
  complete : ∀ i f, files[i]? = some f → (hashes i).length = f.keys.size + 1 - window
  follows : ∀ i j f g, files[i]? = some f → files[j]? = some g → ∀ s t,
    s + window ≤ f.keys.size → t + window ≤ g.keys.size → f.slice s window = g.slice t window →
      (hashes i)[s]? = (hashes j)[t]?

theorem rehash_getElem? (files : List IndexedFile) (hashes : Nat → List Nat) (i : Nat) :
    (rehash files hashes)[i]? = files[i]?.map fun f => { f with hashes := hashes i } := by
  simp [rehash]

theorem locate_rehash (files : List IndexedFile) (hashes : Nat → List Nat) :
    locate (rehash files hashes).toArray = locate files.toArray := by
  funext m
  cases hf : files[m.file]? with
  | none => simp [locate, rehash_getElem?, hf]
  | some f => simp [locate, rehash_getElem?, hf, firstLine, lastLine]

theorem ofBlock_rehash (files : List IndexedFile) (hashes : Nat → List Nat) :
    ofBlock (rehash files hashes).toArray = ofBlock files.toArray := by
  have htokens : tokensOf (rehash files hashes).toArray = tokensOf files.toArray := by
    funext m
    cases hf : files[m.file]? with
    | none => simp [tokensOf, rehash_getElem?, hf]
    | some f => simp [tokensOf, rehash_getElem?, hf]
  funext b
  simp only [ofBlock, locate_rehash, htokens]

theorem sameKeys_rehash (files : List IndexedFile) (hashes other : Nat → List Nat) :
    Clone.SameKeys (keyed (rehash files hashes)) (keyed (rehash files other)) := by
  constructor
  · intro i k
    cases hf : files[i]? with
    | none => simp [Clone.keyAt, keyed_getElem?, rehash_getElem?, hf]
    | some f => simp [Clone.keyAt, keyed_getElem?, rehash_getElem?, hf]
  · intro i
    cases hf : files[i]? with
    | none => simp [Clone.keyCount, keyed_getElem?, rehash_getElem?, hf]
    | some f => simp [Clone.keyCount, keyed_getElem?, rehash_getElem?, hf]

theorem IsHashing.hasWindowHashes (h : IsHashing files window hashes) :
    Clone.HasWindowHashes (keyed (rehash files hashes)) window := by
  apply hasWindowHashes_keyed
  intro f hf
  obtain ⟨i, hi, rfl⟩ := List.mem_iff_getElem.mp hf
  have hfile := rehash_getElem? files hashes i
  rw [List.getElem?_eq_getElem hi] at hfile
  obtain ⟨g, hg, heq⟩ := Option.map_eq_some_iff.mp hfile.symm
  rw [← heq]
  exact h.complete i g hg

theorem IsHashing.hashesFollowKeys (h : IsHashing files window hashes) :
    Clone.HashesFollowKeys (keyed (rehash files hashes)) window := by
  -- the file of a window, with its hash among those of the assignment
  have hfile (p : Window × Nat) (hp : p ∈ Clone.windows (keyed (rehash files hashes))) :
      ∃ f, files[p.1.file]? = some f ∧ p.1.start + window ≤ f.keys.size ∧
        (hashes p.1.file)[p.1.start]? = some p.2 := by
    obtain ⟨k, hk, hhash⟩ := Clone.mem_windows_iff.mp hp
    rw [keyed_getElem?, rehash_getElem?, Option.map_map] at hk
    obtain ⟨f, hf, rfl⟩ := Option.map_eq_some_iff.mp hk
    have hcomplete := h.complete _ f hf
    obtain ⟨hlt, -⟩ := List.getElem?_eq_some_iff.mp hhash
    simp only [Function.comp_apply] at hlt
    exact ⟨f, hf, by omega, hhash⟩
  intro p hp q hq hsame
  obtain ⟨f, hf, hpbound, hphash⟩ := hfile p hp
  obtain ⟨g, hg, hqbound, hqhash⟩ := hfile q hq
  have hslice : f.slice p.1.start window = g.slice q.1.start window := by
    have hf' : (rehash files hashes)[p.1.file]? = some { f with hashes := hashes p.1.file } := by
      simp [rehash_getElem?, hf]
    have hg' : (rehash files hashes)[q.1.file]? = some { g with hashes := hashes q.1.file } := by
      simp [rehash_getElem?, hg]
    exact (windowKeys_eq_iff_slice hf' hg').mp hsame
  have heq := h.follows _ _ f g hf hg _ _ hpbound hqbound hslice
  rw [hphash, hqhash] at heq
  exact Option.some.inj heq

theorem findClusters_rehash_eq (hwindow : 0 < window) (keep : Location → Bool)
    {other : Nat → List Nat} (h : IsHashing files window hashes)
    (h' : IsHashing files window other) :
    findClusters (rehash files hashes) window keep =
      findClusters (rehash files other) window keep := by
  have hgrown := (sameKeys_rehash files hashes other).grownBlocks_eq h.hasWindowHashes
    h.hashesFollowKeys h'.hasWindowHashes h'.hashesFollowKeys hwindow
  have hblocks (files : List IndexedFile) : findClusters files window keep =
      (Clone.dropContained (Clone.acceptedBlocks (keyed files) window
        fun m => keep (locate files.toArray m))).map (ofBlock files.toArray) := by
    rw [← Clone.findBlocks_eq hwindow]
    rfl
  rw [hblocks, hblocks, ofBlock_rehash, ofBlock_rehash, locate_rehash, locate_rehash]
  simp only [Clone.acceptedBlocks, hgrown]

/-- The hashes that the files have. -/
def hashesOf (files : List IndexedFile) (i : Nat) : List Nat :=
  match files[i]? with
  | some f => f.hashes
  | none => []

theorem rehash_hashesOf (files : List IndexedFile) : rehash files (hashesOf files) = files := by
  apply List.ext_getElem?
  intro i
  cases hf : files[i]? with
  | none => simp [rehash_getElem?, hf]
  | some f => simp [rehash_getElem?, hf, hashesOf]

theorem isHashing_hashesOf (hwindow : 0 < window) (h : HasKeyHashes files window) :
    IsHashing files window (hashesOf files) := by
  constructor
  · intro i f hf
    simp only [hashesOf, hf]
    rw [h f (List.mem_of_getElem? hf), List.length_map, windowHashes_length _ hwindow,
      Array.length_toList]
  · intro i j f g hf hg s t hs ht hslice
    simp only [hashesOf, hf, hg]
    rw [h f (List.mem_of_getElem? hf), h g (List.mem_of_getElem? hg), List.getElem?_map,
      List.getElem?_map, windowHashes_getElem? _ hwindow (by simpa using hs),
      windowHashes_getElem? _ hwindow (by simpa using ht)]
    simp only [IndexedFile.slice] at hslice
    rw [hslice]

/-- The values of hashes never influence the clusters: any two assignments that give equal hashes
to equal windows lead to the same list, and the rolling hashes of the keys lead to that list,
however they collide. -/
theorem findClusters_rehash (files : List IndexedFile) (window : Nat) (keep : Location → Bool)
    (hwindow : 1 ≤ window) {hashes other : Nat → List Nat} (h : IsHashing files window hashes)
    (h' : IsHashing files window other) :
    findClusters (rehash files hashes) window keep =
        findClusters (rehash files other) window keep ∧
      (HasKeyHashes files window →
        findClusters files window keep = findClusters (rehash files other) window keep) := by
  refine ⟨findClusters_rehash_eq hwindow keep h h', fun hfiles => ?_⟩
  have hown := isHashing_hashesOf hwindow hfiles
  have heq := findClusters_rehash_eq hwindow keep hown h'
  rwa [rehash_hashesOf] at heq

/-- All windows collide. -/
def oneHash (files : List IndexedFile) (window : Nat) (i : Nat) : List Nat :=
  match files[i]? with
  | some f => List.replicate (f.keys.size + 1 - window) 7
  | none => []

theorem isHashing_oneHash (files : List IndexedFile) (window : Nat) :
    IsHashing files window (oneHash files window) := by
  constructor
  · intro i f hf
    simp [oneHash, hf]
  · intro i j f g hf hg s t hs ht _
    simp only [oneHash, hf, hg]
    rw [List.getElem?_replicate_of_lt (by omega), List.getElem?_replicate_of_lt (by omega)]

theorem findClusters_rehash_tripledFiles :
    (findClusters tripledFiles 2 fun _ => true).length = 2 ∧
      findClusters tripledFiles 2 (fun _ => true) =
        findClusters (rehash tripledFiles (oneHash tripledFiles 2)) 2 (fun _ => true) := by
  have hfiles : HasKeyHashes tripledFiles 2 := hasKeyHashes_letterFile _ 2
  have hsame := findClusters_rehash tripledFiles 2 (fun _ => true) (by decide)
    (isHashing_hashesOf (by decide) hfiles) (isHashing_oneHash tripledFiles 2)
  exact ⟨by cbv, hsame.2 hfiles⟩

end Cluster

end CloneScan
