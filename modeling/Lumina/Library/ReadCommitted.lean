import Mathlib.Data.Option.Basic

/-!
# Rows under READ COMMITTED

A database holds, for each key of its tables, the committed row and at most one pending change: the
transaction that has locked the row and what it will leave there.  A transaction sees its own
changes and else what is committed.  A statement that writes a row waits while another transaction
holds it, and then works on the row as it is committed by that time; an insertion waits for another
one of the same key and fails if the key is there.  A row that is not committed yet is not seen, and
so not waited for, except by an insertion.

An insertion that fails leaves the transaction as it was: it stands for one within a savepoint.
-/

namespace ReadCommitted

variable {τ κ ν : Type}

structure Db (τ κ ν : Type) where
  committed : κ → Option ν
  pending : κ → Option (τ × Option ν)

/-- The statements of a transaction.  The reply of those that write says whether they have found
a row, and for an insertion whether there was none. -/
inductive Stmt (κ ν : Type) where
  | select (k : κ)
  | selectForUpdate (k : κ)
  | insert (k : κ) (v : ν)
  | update (k : κ) (f : ν → ν)
  | delete (k : κ)
  | commit
  | rollback

abbrev Stmt.Reply : Stmt κ ν → Type
  | .select _ | .selectForUpdate _ => Option ν
  | .insert _ _ | .update _ _ | .delete _ => Bool
  | .commit | .rollback => Unit

/-- The statements that end a transaction. -/
def Stmt.isEnd : Stmt κ ν → Bool
  | .commit | .rollback => true
  | _ => false

namespace Db

variable [DecidableEq τ]

/-- The rows without pending changes. -/
def ofRows (rows : κ → Option ν) : Db τ κ ν where
  committed := rows
  pending _ := none

/-- The row as the transaction `t` sees it. -/
def view (t : τ) (db : Db τ κ ν) (k : κ) : Option ν :=
  match db.pending k with
  | none => db.committed k
  | some (t', v) => if t' = t then v else db.committed k

/-- No other transaction holds the row. -/
def Free (t : τ) (db : Db τ κ ν) (k : κ) : Prop :=
  ∀ t' v, db.pending k = some (t', v) → t' = t

instance (t : τ) (db : Db τ κ ν) (k : κ) : Decidable (db.Free t k) :=
  match h : db.pending k with
  | none => isTrue fun t' v h' => nomatch h.symm.trans h'
  | some (t', v) =>
    if same : t' = t then
      isTrue fun t'' v' h' => by cases h.symm.trans h'; exact same
    else
      isFalse fun free => same (free t' v h)

/-- The transaction has neither written nor locked anything. -/
def Idle (t : τ) (db : Db τ κ ν) : Prop :=
  ∀ k v, db.pending k ≠ some (t, v)

def commit (t : τ) (db : Db τ κ ν) : Db τ κ ν where
  committed := db.view t
  pending k := (db.pending k).filter fun change => change.1 ≠ t

def rollback (t : τ) (db : Db τ κ ν) : Db τ κ ν where
  committed := db.committed
  pending k := (db.pending k).filter fun change => change.1 ≠ t

variable [DecidableEq κ]

/-- The transaction `t` holds the row and leaves `v` there. -/
def write (t : τ) (k : κ) (v : Option ν) (db : Db τ κ ν) : Db τ κ ν where
  committed := db.committed
  pending k' := if k' = k then some (t, v) else db.pending k'

/-- The effect and the reply of a statement that writes the row it finds: nothing while it has to
wait. -/
def writeFound (t : τ) (k : κ) (f : ν → Option ν) (db : Db τ κ ν) :
    Option (Option ν × Db τ κ ν) :=
  if db.Free t k then
    match db.view t k with
    | none => some (none, db)
    | some v => some (some v, db.write t k (f v))
  else
    match db.committed k with
    | none => some (none, db)
    | some _ => none

/-- The effect and the reply of a statement: nothing while it has to wait. -/
def exec (t : τ) : (s : Stmt κ ν) → Db τ κ ν → Option (s.Reply × Db τ κ ν)
  | .select k, db => some (db.view t k, db)
  | .selectForUpdate k, db => db.writeFound t k some
  | .insert k v, db =>
    if db.Free t k then
      match db.view t k with
      | none => some (true, db.write t k (some v))
      | some _ => some (false, db)
    else
      none
  | .update k f, db => (db.writeFound t k fun v => some (f v)).map fun (r, db') => (r.isSome, db')
  | .delete k, db => (db.writeFound t k fun _ => none).map fun (r, db') => (r.isSome, db')
  | .commit, db => some ((), db.commit t)
  | .rollback, db => some ((), db.rollback t)

end Db

section Views

variable {t t' : τ} {db : Db τ κ ν} {k : κ}

/-- Two transactions do not hold one row. -/
theorem Db.Free.not_pending (h : db.Free t k) (hne : t' ≠ t) (v : Option ν) :
  db.pending k ≠ some (t', v)
  := by
  intro hp
  exact hne (h t' v hp)

theorem Db.idle_ofRows (rows : κ → Option ν) : (Db.ofRows rows).Idle t := by
  rintro k v ⟨⟩

variable [DecidableEq τ]

theorem Db.view_of_pending {v : Option ν} (h : db.pending k = some (t, v)) :
  db.view t k = v
  := by
  unfold view
  rw [h]
  apply if_pos rfl

/-- What a transaction does not hold, it sees as it is committed. -/
theorem Db.view_of_not_pending (h : ∀ v, db.pending k ≠ some (t, v)) :
  db.view t k = db.committed k
  := by
  unfold view
  split
  next => rfl
  next t' v hp =>
    split
    next same =>
      subst same
      exact absurd hp (h v)
    next => rfl

theorem Db.Idle.view (h : db.Idle t) : db.view t = db.committed := by
  funext k
  exact Db.view_of_not_pending (h k)

/-- A row that is not free has not been written by the transaction itself. -/
theorem Db.view_of_not_free (h : ¬db.Free t k) :
  db.view t k = db.committed k
  := by
  apply view_of_not_pending
  intro v hp
  apply h
  intro t' v' hp'
  cases hp.symm.trans hp'
  rfl

@[simp]
theorem Db.committed_commit (db : Db τ κ ν) : (db.commit t).committed = db.view t := rfl

@[simp]
theorem Db.committed_rollback (db : Db τ κ ν) : (db.rollback t).committed = db.committed := rfl

theorem Db.pending_commit {v : Option ν} :
  (db.commit t).pending k = some (t', v) ↔ t' ≠ t ∧ db.pending k = some (t', v)
  := by
  unfold commit
  rw [Option.filter_eq_some_iff, decide_eq_true_eq, and_comm]

theorem Db.pending_rollback {v : Option ν} :
  (db.rollback t).pending k = some (t', v) ↔ t' ≠ t ∧ db.pending k = some (t', v)
  := by
  unfold rollback
  rw [Option.filter_eq_some_iff, decide_eq_true_eq, and_comm]

theorem Db.idle_commit (db : Db τ κ ν) : (db.commit t).Idle t := by
  intro k v h
  exact (pending_commit.mp h).1 rfl

theorem Db.idle_rollback (db : Db τ κ ν) : (db.rollback t).Idle t := by
  intro k v h
  exact (pending_rollback.mp h).1 rfl

end Views

section Writing

variable [DecidableEq κ] {t t' : τ} {db db' : Db τ κ ν} {k k' : κ} {v : Option ν}

@[simp]
theorem Db.committed_write : (db.write t k v).committed = db.committed := rfl

theorem Db.pending_write_self : (db.write t k v).pending k = some (t, v) := if_pos rfl

theorem Db.pending_write_of_ne (hne : k' ≠ k) : (db.write t k v).pending k' = db.pending k' :=
  if_neg hne

variable [DecidableEq τ]

theorem Db.view_write_self : (db.write t k v).view t k = v := by
  apply view_of_pending pending_write_self

theorem Db.view_write_of_ne (hne : k' ≠ k) : (db.write t k v).view t' k' = db.view t' k' := by
  unfold view
  rw [pending_write_of_ne hne]
  rfl

/-- What a statement does that writes the row it finds. -/
theorem Db.writeFound_cases {f : ν → Option ν} {r : Option ν}
    (h : db.writeFound t k f = some (r, db')) :
  (r = none ∧ db' = db ∧ db.view t k = none) ∨
    ∃ v, r = some v ∧ db.Free t k ∧ db.view t k = some v ∧ db' = db.write t k (f v)
  := by
  unfold writeFound at h
  split at h
  next free =>
    split at h
    next hview =>
      cases h
      exact Or.inl ⟨rfl, rfl, hview⟩
    next v hview =>
      cases h
      exact Or.inr ⟨v, rfl, free, hview, rfl⟩
  next held =>
    split at h
    next hcommitted =>
      cases h
      refine Or.inl ⟨rfl, rfl, ?_⟩
      rw [view_of_not_free held, hcommitted]
    next => cases h

theorem Db.exec_select {r : Option ν} (h : db.exec t (.select k) = some (r, db')) :
  r = db.view t k ∧ db' = db
  := by
  cases h
  exact ⟨rfl, rfl⟩

theorem Db.exec_selectForUpdate {r : Option ν}
    (h : db.exec t (.selectForUpdate k) = some (r, db')) :
  (r = none ∧ db' = db ∧ db.view t k = none) ∨
    ∃ v, r = some v ∧ db.Free t k ∧ db.view t k = some v ∧ db' = db.write t k (some v)
  := by
  apply writeFound_cases h

theorem Db.exec_insert {v : ν} {r : Bool} (h : db.exec t (.insert k v) = some (r, db')) :
  (r = true ∧ db.Free t k ∧ db.view t k = none ∧ db' = db.write t k (some v)) ∨
    (r = false ∧ db' = db ∧ db.Free t k ∧ ∃ v', db.view t k = some v')
  := by
  have cases : (if db.Free t k then
      match db.view t k with
      | none => some (true, db.write t k (some v))
      | some _ => some (false, db)
    else none) = some (r, db') := h
  split at cases
  next free =>
    split at cases
    next hview =>
      cases cases
      exact Or.inl ⟨rfl, free, hview, rfl⟩
    next v' hview =>
      cases cases
      exact Or.inr ⟨rfl, rfl, free, v', hview⟩
  next => cases cases

theorem Db.exec_update {f : ν → ν} {r : Bool} (h : db.exec t (.update k f) = some (r, db')) :
  (r = false ∧ db' = db ∧ db.view t k = none) ∨
    ∃ v, r = true ∧ db.Free t k ∧ db.view t k = some v ∧ db' = db.write t k (some (f v))
  := by
  obtain ⟨⟨r', db''⟩, hfound, hr⟩ := Option.map_eq_some_iff.mp h
  cases hr
  obtain ⟨rfl, rfl, hview⟩ | ⟨v, rfl, free, hview, rfl⟩ := writeFound_cases hfound
  · exact Or.inl ⟨rfl, rfl, hview⟩
  · exact Or.inr ⟨v, rfl, free, hview, rfl⟩

theorem Db.exec_delete {r : Bool} (h : db.exec t (.delete k) = some (r, db')) :
  (r = false ∧ db' = db ∧ db.view t k = none) ∨
    ∃ v, r = true ∧ db.Free t k ∧ db.view t k = some v ∧ db' = db.write t k none
  := by
  obtain ⟨⟨r', db''⟩, hfound, hr⟩ := Option.map_eq_some_iff.mp h
  cases hr
  obtain ⟨rfl, rfl, hview⟩ | ⟨v, rfl, free, hview, rfl⟩ := writeFound_cases hfound
  · exact Or.inl ⟨rfl, rfl, hview⟩
  · exact Or.inr ⟨v, rfl, free, hview, rfl⟩

/-- What a statement can do to the database: nothing, to write one free row, or to end the
transaction. -/
theorem Db.exec_cases {s : Stmt κ ν} {r : s.Reply} (h : db.exec t s = some (r, db')) :
  db' = db ∨ (∃ k v, db.Free t k ∧ db' = db.write t k v) ∨
    (s = .commit ∧ db' = db.commit t) ∨ (s = .rollback ∧ db' = db.rollback t)
  := by
  cases s with
  | select k => exact Or.inl (exec_select h).2
  | selectForUpdate k =>
    obtain ⟨-, rfl, -⟩ | ⟨v, -, free, -, rfl⟩ := exec_selectForUpdate h
    · exact Or.inl rfl
    · exact Or.inr (Or.inl ⟨k, some v, free, rfl⟩)
  | insert k v =>
    obtain ⟨-, free, -, rfl⟩ | ⟨-, rfl, -⟩ := exec_insert h
    · exact Or.inr (Or.inl ⟨k, some v, free, rfl⟩)
    · exact Or.inl rfl
  | update k f =>
    obtain ⟨-, rfl, -⟩ | ⟨v, -, free, -, rfl⟩ := exec_update h
    · exact Or.inl rfl
    · exact Or.inr (Or.inl ⟨k, some (f v), free, rfl⟩)
  | delete k =>
    obtain ⟨-, rfl, -⟩ | ⟨v, -, free, -, rfl⟩ := exec_delete h
    · exact Or.inl rfl
    · exact Or.inr (Or.inl ⟨k, none, free, rfl⟩)
  | commit =>
    cases h
    exact Or.inr (Or.inr (Or.inl ⟨rfl, rfl⟩))
  | rollback =>
    cases h
    exact Or.inr (Or.inr (Or.inr ⟨rfl, rfl⟩))

end Writing

/-- What the others may do to the database, as the transaction `t` notices it: they leave alone
what it holds. -/
structure Db.Frame (t : τ) (db db' : Db τ κ ν) : Prop where
  pending : ∀ k v, db'.pending k = some (t, v) ↔ db.pending k = some (t, v)
  committed : ∀ k v, db.pending k = some (t, v) → db'.committed k = db.committed k

namespace Db.Frame

variable {t t' : τ} {db db' db'' : Db τ κ ν}

theorem refl (t : τ) (db : Db τ κ ν) : Frame t db db where
  pending _ _ := Iff.rfl
  committed _ _ _ := rfl

theorem trans (h : Frame t db db') (h' : Frame t db' db'') :
  Frame t db db''
  where
  pending k v := (h'.pending k v).trans (h.pending k v)
  committed k v hp := by
    rw [h'.committed k v ((h.pending k v).mpr hp), h.committed k v hp]

theorem idle (h : Frame t db db') (idle : db.Idle t) : db'.Idle t := by
  intro k v hp
  exact idle k v ((h.pending k v).mp hp)

theorem view [DecidableEq τ] (h : Frame t db db') {k : κ} {v : Option ν}
    (hp : db.pending k = some (t, v)) :
  db'.view t k = v
  := by
  apply view_of_pending
  exact (h.pending k v).mpr hp

/-- The statements of one transaction leave alone what another one holds. -/
theorem of_exec [DecidableEq τ] [DecidableEq κ] {s : Stmt κ ν} {r : s.Reply} (hne : t' ≠ t)
    (h : db.exec t s = some (r, db')) :
  Frame t' db db'
  := by
  obtain rfl | ⟨k, v, free, rfl⟩ | ⟨-, rfl⟩ | ⟨-, rfl⟩ := exec_cases h
  · apply refl
  · constructor
    · intro k' v'
      by_cases hk : k' = k
      · subst hk
        rw [pending_write_self]
        constructor
        · intro hp
          cases hp
          exact absurd rfl hne
        · intro hp
          exact absurd hp (free.not_pending hne v')
      · rw [pending_write_of_ne hk]
    · exact fun _ _ _ => rfl
  · constructor
    · intro k v
      rw [pending_commit]
      exact ⟨And.right, fun hp => ⟨hne, hp⟩⟩
    · intro k v hp
      rw [committed_commit]
      apply view_of_not_pending
      intro v' hp'
      cases hp.symm.trans hp'
      exact hne rfl
  · constructor
    · intro k v
      rw [pending_rollback]
      exact ⟨And.right, fun hp => ⟨hne, hp⟩⟩
    · exact fun _ _ _ => rfl

end Db.Frame

end ReadCommitted
