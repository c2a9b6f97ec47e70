import CloneScan.Cache.Store

/-!
# Running the operations of a store

An operation of a store answers and leaves new surroundings behind it, also when it fails.  A
relation between the surroundings before and after carries over from the steps of an operation to
the whole.
-/

namespace CloneScan

/-! ## Running an operation -/

namespace StoreM

variable {σ α β : Type}

/-- The answer of an operation and the surroundings that it leaves. -/
def exec (op : StoreM σ α) (s : Surroundings σ) : Except StoreFault α × Surroundings σ :=
  op.run.run s

@[simp] theorem exec_pure (a : α) (s : Surroundings σ) :
    (pure a : StoreM σ α).exec s = (.ok a, s) := rfl

@[simp] theorem exec_throw (fault : StoreFault) (s : Surroundings σ) :
    (throw fault : StoreM σ α).exec s = (.error fault, s) := rfl

theorem exec_bind (op : StoreM σ α) (next : α → StoreM σ β) (s : Surroundings σ) :
    (op >>= next).exec s =
      match op.exec s with
      | (.ok a, s') => (next a).exec s'
      | (.error fault, s') => (.error fault, s') := by
  rcases h : op.exec s with ⟨_ | a, s'⟩
  · exact congrArg (fun x => (ExceptT.bindCont next x.1 : StateM _ _) x.2) h
  · exact congrArg (fun x => (ExceptT.bindCont next x.1 : StateM _ _) x.2) h

@[simp] theorem exec_say (note : Note) (s : Surroundings σ) :
    (say note).exec s = (.ok (), { s with notes := s.notes ++ [note] }) := rfl

@[simp] theorem exec_now (s : Surroundings σ) : (now : StoreM σ Number).exec s = (.ok s.now, s) :=
  rfl

@[simp] theorem exec_state (s : Surroundings σ) :
    (state : StoreM σ σ).exec s = (.ok s.state, s) := rfl

@[simp] theorem exec_setState (state : σ) (s : Surroundings σ) :
    (setState state).exec s = (.ok (), { s with state }) := rfl

@[simp] theorem exec_files (s : Surroundings σ) :
    (files : StoreM σ FileTree).exec s = (.ok s.files, s) := rfl

theorem exec_changeFiles (change : FileTree → Except FileFault FileTree) (s : Surroundings σ) :
    (changeFiles change).exec s =
      match change s.files with
      | .ok t => (.ok (), { s with files := t })
      | .error fault => (.error (.file fault), s) := by
  unfold changeFiles
  rw [exec_bind, exec_files]
  simp only
  cases change s.files <;> rfl

theorem exec_tryCatch (op : StoreM σ α) (handler : StoreFault → StoreM σ α)
    (s : Surroundings σ) :
    (tryCatch op handler).exec s =
      match op.exec s with
      | (.ok a, s') => (.ok a, s')
      | (.error fault, s') => (handler fault).exec s' := by
  change (ExceptT.tryCatch op handler).run.run s = _
  rw [ExceptT.tryCatch, ExceptT.run_mk, StateT.run_bind]
  unfold exec ExceptT.run
  generalize StateT.run op s = x
  rcases x with ⟨_ | a, s'⟩ <;> rfl

/-- An operation moves the surroundings along a relation, whether it succeeds or fails. -/
def Moves (R : Surroundings σ → Surroundings σ → Prop) (op : StoreM σ α) : Prop :=
  ∀ s, R s (op.exec s).2

section

variable {R : Surroundings σ → Surroundings σ → Prop}

theorem Moves.bind (htrans : ∀ {s t u}, R s t → R t u → R s u) {op : StoreM σ α}
    {next : α → StoreM σ β} (hop : Moves R op) (hnext : ∀ a, Moves R (next a)) :
    Moves R (op >>= next) := by
  intro s
  have hfirst := hop s
  rw [exec_bind]
  rcases hrun : op.exec s with ⟨fault | a, s'⟩ <;> rw [hrun] at hfirst
  · exact hfirst
  · exact htrans hfirst (hnext a s')

theorem Moves.tryCatch (htrans : ∀ {s t u}, R s t → R t u → R s u) {op : StoreM σ α}
    {handler : StoreFault → StoreM σ α} (hop : Moves R op)
    (hhandler : ∀ fault, Moves R (handler fault)) : Moves R (tryCatch op handler) := by
  intro s
  have hfirst := hop s
  rw [exec_tryCatch]
  rcases hrun : op.exec s with ⟨fault | a, s'⟩ <;> rw [hrun] at hfirst
  · exact htrans hfirst (hhandler fault s')
  · exact hfirst

end

end StoreM

/-! ## Values by key -/

section

variable {κ ν : Type} [BEq κ] [LawfulBEq κ]

theorem find?_map_set (l : List (κ × ν)) (key : κ) (value : ν) (q : κ) :
    ((l.map fun e => if e.1 == key then (key, value) else e).find? fun e => e.1 == q).map (·.2) =
      if q == key then (l.find? fun e => e.1 == key).map fun _ => value
      else (l.find? fun e => e.1 == q).map (·.2) := by
  induction l with
  | nil => simp
  | cons e l ih =>
      cases hq : q == key with
      | false =>
          have hkey : (key == q) = false := by rw [BEq.comm]; exact hq
          simp only [hq] at ih
          cases he : e.1 == key with
          | false => cases heq : e.1 == q <;> simp_all
          | true =>
              have hkey : e.1 = key := eq_of_beq he
              simp_all
      | true =>
          obtain rfl : q = key := eq_of_beq hq
          cases he : e.1 == q <;> simp_all

/-- Setting a key: in its place when it is there, at the end when it is not. -/
theorem find?_set (l : List (κ × ν)) (key : κ) (value : ν) (q : κ) :
    ((if l.any fun e => e.1 == key then l.map fun e => if e.1 == key then (key, value) else e
      else l ++ [(key, value)]).find? fun e => e.1 == q).map (·.2) =
      if q == key then some value else (l.find? fun e => e.1 == q).map (·.2) := by
  cases hany : l.any fun e => e.1 == key with
  | true =>
      have hfound : ∃ e, l.find? (fun e => e.1 == key) = some e := by
        rw [← Option.isSome_iff_exists, List.find?_isSome]
        simpa using hany
      obtain ⟨e, he⟩ := hfound
      rw [if_pos rfl, find?_map_set, he]
      rfl
  | false =>
      have hnone : ∀ e ∈ l, (e.1 == key) = false := by simpa using hany
      rw [if_neg (by simp), List.find?_append]
      cases hq : q == key with
      | true =>
          obtain rfl : q = key := eq_of_beq hq
          have hmiss : l.find? (fun e => e.1 == q) = none :=
            List.find?_eq_none.mpr fun e he => by simp [hnone e he]
          simp [hmiss]
      | false =>
          have hkey : (key == q) = false := by rw [BEq.comm]; exact hq
          simp [hkey]

theorem find?_filter_key (l : List (κ × ν)) (keep : κ → Bool) (q : κ) :
    (l.filter fun e => keep e.1).find? (fun e => e.1 == q) =
      if keep q then l.find? fun e => e.1 == q else none := by
  rw [List.find?_filter]
  cases hq : keep q with
  | false =>
      rw [List.find?_eq_none.mpr]
      · simp
      · intro e _ h
        obtain ⟨hkeep, heq⟩ : keep e.1 = true ∧ e.1 == q := by simpa using h
        rw [eq_of_beq heq, hq] at hkeep
        cases hkeep
  | true =>
      rw [if_pos rfl]
      congr 1
      funext e
      cases he : e.1 == q
      · simp
      · simp [eq_of_beq he, hq]

end

namespace TextMap

variable {α : Type}

theorem get?_set (m : TextMap α) (key : Text) (value : α) (q : Text) :
    (m.set key value).get? q = if q == key then some value else m.get? q :=
  find?_set m key value q

theorem get?_of_filter {m : TextMap α} (keep : Text → Bool) {q : Text} {a : α}
    (h : TextMap.get? (m.filter fun e => keep e.1) q = some a) : m.get? q = some a := by
  unfold TextMap.get? at h ⊢
  rw [find?_filter_key] at h
  split at h
  · exact h
  · cases h

theorem get?_of_erase {m : TextMap α} {key q : Text} {a : α} (h : (m.erase key).get? q = some a) :
    m.get? q = some a :=
  get?_of_filter (fun k => k != key) h

end TextMap

end CloneScan
