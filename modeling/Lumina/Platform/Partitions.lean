import Lumina.Etl.Text
import Lumina.Library.Dict
import Lumina.Library.Table
import Lumina.Library.Transition

/-!
# The maintenance of partitions

The tables that are partitioned by months, and any number of maintenance tasks.  A task creates the
partitions of the coming months, each with its row level security, and takes those off that have
outlived the retention period.  Every statement is a transaction of its own; one that fails ends the
task, except where a partition is taken off, and a task may be killed at any point.

The clock is read again for each month.  It shows the months that have passed since the year zero;
nothing finer is looked at.
-/

namespace Lumina.Platform.Partitions

open Transition

structure Settings where
  partitionRetentionMonths : String := "platform_usagelog:13;platform_auditlog:84"
  partitionDropAfterDetach : Bool := false
  /-- `int`, of a string; none for `ValueError`. -/
  int : String → Option ℤ

/-- `PARTITIONED_TABLES` -/
def partitionedTables : List String :=
  ["conversation_message", "platform_usagelog", "platform_auditlog"]

/-- The argument of `ensure_future_partitions`. -/
def monthsAhead : ℕ := 3

/-! ### Months -/

structure YearMonth where
  year : ℕ
  month : ℕ
deriving DecidableEq, Repr

/-- The number of the month. -/
def YearMonth.index (d : YearMonth) : ℕ := d.year * 12 + (d.month - 1)

def YearMonth.ofIndex (n : ℕ) : YearMonth := ⟨n / 12, n % 12 + 1⟩

theorem index_ofIndex (n : ℕ) :
  (YearMonth.ofIndex n).index = n
  := by
  unfold YearMonth.index YearMonth.ofIndex
  simp only
  omega

/-- `_month_bounds`: the month of the partition, which is its lower bound, and the upper bound. -/
def monthBounds (now : YearMonth) (index : ℕ) : YearMonth × YearMonth :=
  let month := now.month + index
  let year := now.year + (month - 1) / 12
  let month := (month - 1) % 12 + 1
  (⟨year, month⟩, if month < 12 then ⟨year, month + 1⟩ else ⟨year + 1, 1⟩)

/-- A partition is one whole month. -/
theorem monthBounds_index (now index : ℕ) :
  (monthBounds (.ofIndex now) index).1.index = now + index ∧
    (monthBounds (.ofIndex now) index).2.index = now + index + 1
  := by
  unfold monthBounds YearMonth.ofIndex YearMonth.index
  simp only
  constructor
  · omega
  · split
    all_goals
      simp only
      omega

/-- `cutoff_for`: none where `date` raises. -/
def cutoffFor (months : ℕ) (now : YearMonth) : Option YearMonth :=
  let current := now.year * 12 + (now.month - 1)
  if current < months + 12 then none
  else
    let total := current - months
    some ⟨total / 12, total % 12 + 1⟩

theorem index_of_cutoffFor {months now : ℕ} {cutoff : YearMonth}
    (h : cutoffFor months (.ofIndex now) = some cutoff) :
  cutoff.index + months = now
  := by
  have current := index_ofIndex now
  unfold YearMonth.index at current
  unfold cutoffFor at h
  rw [current] at h
  simp only at h
  split at h
  · cases h
  · cases h
    unfold YearMonth.index
    simp only
    omega

/-! ### The retention periods -/

section Retention

variable (cfg : Settings)

/-- The table and the months of an entry. -/
def retentionEntry (entry : List Char) : Option (String × ℕ) :=
  let entry := Etl.strip entry
  let table := entry.takeWhile (· ≠ ':')
  let raw := (entry.dropWhile (· ≠ ':')).drop 1
  if table = [] then none
  else
    (cfg.int (String.ofList raw)).bind fun value =>
      if 0 < value then some (String.ofList table, value.toNat) else none

/-- `retention_months` -/
def retentionMonths : List (String × ℕ) :=
  Dict.ofPairs ((cfg.partitionRetentionMonths.toList.splitOn ';').filterMap (retentionEntry cfg))

end Retention

/-! ### Statements -/

/-- A relation that is or was a partition. -/
structure Partition where
  table : String
  /-- The month of its name. -/
  month : ℕ
  lower : ℕ
  upper : ℕ
  attached : Bool
  rls : Bool
deriving DecidableEq, Repr

def Partition.name (p : Partition) : String × ℕ := (p.table, p.month)

/-- `CREATE TABLE IF NOT EXISTS … PARTITION OF …`, which fails if it would overlap another partition. -/
def create (table : String) (month lower upper : ℕ) (db : List Partition) :
    Option (List Partition) :=
  if db.any fun p => p.name = (table, month) then some db
  else if db.any fun p => p.table = table && p.attached && (lower < p.upper && p.lower < upper) then
    none
  else some (db ++ [⟨table, month, lower, upper, true, false⟩])

/-- `enable`, of `_rls` -/
def enable (name : String × ℕ) (db : List Partition) : Option (List Partition) :=
  if db.any fun p => p.name = name then
    some (Table.update (fun p => p.name = name) (fun p => { p with rls := true }) db)
  else none

/-- `ALTER TABLE … DETACH PARTITION …` and `DROP TABLE …`. -/
def detach (drop : Bool) (name : String × ℕ) (db : List Partition) : Option (List Partition) :=
  if db.any fun p => p.name = name && p.attached then
    some (if drop then db.filter fun p => p.name ≠ name
      else Table.update (fun p => p.name = name) (fun p => { p with attached := false }) db)
  else none

/-- `_existing_partitions` -/
def existingPartitions (table : String) (db : List Partition) : List ℕ :=
  (db.filter fun p => p.table = table && p.attached).map Partition.month

/-- `_partition_bounds`: the names and the upper bounds. -/
def partitionBounds (table : String) (db : List Partition) : List (ℕ × ℕ) :=
  (db.filter fun p => p.table = table && p.attached).map fun p => (p.month, p.upper)

/-! ### Tasks -/

/-- The loop over the months of a table: the names it has read, the readings of the clock in turn,
and the tables to come. -/
structure Pass where
  table : String
  existing : List ℕ
  readings : List ℕ
  rest : List String
deriving DecidableEq

namespace Pass

variable (p : Pass)

/-- The month of the next turn, by a reading of the clock. -/
def month (reading : ℕ) : ℕ := (monthBounds (.ofIndex reading) p.readings.length).1.index

/-- The upper bound of the next turn. -/
def upper (reading : ℕ) : ℕ := (monthBounds (.ofIndex reading) p.readings.length).2.index

def next (reading : ℕ) : Pass := { p with readings := p.readings ++ [reading] }

end Pass

/-- How far a task has come. -/
inductive Phase where
  | absent
  /-- The query of `_existing_partitions` is next, for the first of the tables. -/
  | listing (tables : List String)
  | looping (p : Pass)
  /-- `CREATE` is next. -/
  | creating (p : Pass) (reading : ℕ)
  /-- The statements of `enable` are next. -/
  | enabling (p : Pass) (reading : ℕ)
  /-- `cutoff_for` is next, for the first of the tables. -/
  | cutting (todo : List (String × ℕ)) (cutoffs : List (String × ℕ))
  /-- The query of `_partition_bounds` is next, for the first of the tables. -/
  | expiring (cutoffs : List (String × ℕ))
  /-- The loop over the partitions of a table. -/
  | detaching (table : String) (cutoff : ℕ) (found : List (ℕ × ℕ)) (rest : List (String × ℕ))
  | done
  /-- The task has been ended, with a partition that it has created and not protected. -/
  | dead (left : Option (String × ℕ))
deriving DecidableEq

/-- The clock, the partitions and the tasks.  A ghost keeps the tables that have been gone through,
with the readings of the clock. -/
structure State where
  now : ℕ
  partitions : List Partition
  tasks : ℕ → Phase := fun _ => .absent
  rounds : List (String × List ℕ) := []

inductive Action where
  | turn (months : ℕ)
  | start (r : ℕ)
  /-- The task does the next piece of its work, which may fail if it is a statement. -/
  | work (r : ℕ) (ok : Bool)
  | kill (r : ℕ)
deriving DecidableEq, Repr

namespace State

variable (s : State)

def put (r : ℕ) (p : Phase) : State :=
  { s with tasks := Function.update s.tasks r p }

def write (db : List Partition) : State :=
  { s with partitions := db }

def round (p : Pass) : State :=
  { s with rounds := s.rounds ++ [(p.table, p.readings)] }

end State

/-- The task is under way. -/
def Phase.active : Phase → Bool
  | .absent => false
  | .done => false
  | .dead _ => false
  | _ => true

/-- The end of a task that is killed. -/
def Phase.ended : Phase → Phase
  | .enabling p reading => .dead (some (p.table, p.month reading))
  | _ => .dead none

/-- What a task does next. -/
def work (cfg : Settings) (r : ℕ) (ok : Bool) (s : State) : Option State :=
  match s.tasks r with
  | .listing [] => some (s.put r (.cutting (retentionMonths cfg) []))
  | .listing (table :: rest) =>
      some (s.put r (if ok then .looping ⟨table, existingPartitions table s.partitions, [], rest⟩
        else .dead none))
  | .looping p =>
      if p.readings.length ≤ monthsAhead then
        some (s.put r (if p.existing.contains (p.month s.now) then .looping (p.next s.now)
          else .creating p s.now))
      else some ((s.round p).put r (.listing p.rest))
  | .creating p reading =>
      match if ok then create p.table (p.month reading) (p.month reading) (p.upper reading)
          s.partitions else none with
      | some db => some ((s.write db).put r (.enabling p reading))
      | none => some (s.put r (.dead none))
  | .enabling p reading =>
      match if ok then enable (p.table, p.month reading) s.partitions else none with
      | some db => some ((s.write db).put r (.looping (p.next reading)))
      | none => some (s.put r (.dead (some (p.table, p.month reading))))
  | .cutting [] cutoffs => some (s.put r (.expiring cutoffs))
  | .cutting ((table, months) :: rest) cutoffs =>
      match cutoffFor months (.ofIndex s.now) with
      | some cutoff => some (s.put r (.cutting rest (cutoffs ++ [(table, cutoff.index)])))
      | none => some (s.put r (.dead none))
  | .expiring [] => some (s.put r .done)
  | .expiring ((table, cutoff) :: rest) =>
      some (s.put r (if ok then .detaching table cutoff (partitionBounds table s.partitions) rest
        else .dead none))
  | .detaching _ _ [] rest => some (s.put r (.expiring rest))
  | .detaching table cutoff ((month, upper) :: found) rest =>
      if cutoff < upper then some (s.put r (.detaching table cutoff found rest))
      else
        match if ok then detach cfg.partitionDropAfterDetach (table, month) s.partitions
            else none with
        | some db => some ((s.write db).put r (.detaching table cutoff found rest))
        | none => some (s.put r (.detaching table cutoff found rest))
  | _ => none

def step (cfg : Settings) : Action → State → Option State
  | .turn months, s => some { s with now := s.now + months }
  | .start r, s =>
      if s.tasks r = .absent then some (s.put r (.listing partitionedTables)) else none
  | .work r ok, s => work cfg r ok s
  | .kill r, s => if (s.tasks r).active then some (s.put r (s.tasks r).ended) else none

/-- The partitions as the migrations leave them: whole months, attached and protected. -/
structure Migrated (db : List Partition) : Prop where
  names : (db.map Partition.name).Nodup
  whole : ∀ p ∈ db, p.lower = p.month ∧ p.upper = p.month + 1
  attached : ∀ p ∈ db, p.attached = true
  rls : ∀ p ∈ db, p.rls = true

/-- The maintenance tasks. -/
def machine (cfg : Settings) : Machine State Action where
  init s := Migrated s.partitions ∧ (∀ r, s.tasks r = .absent) ∧ s.rounds = []
  step := step cfg

variable {cfg : Settings}

/-! ### Statements and names -/

theorem mem_existingPartitions {table : String} {db : List Partition} {month : ℕ} :
  month ∈ existingPartitions table db ↔ ∃ p ∈ db, p.name = (table, month) ∧ p.attached = true
  := by
  unfold existingPartitions
  simp only [List.mem_map, List.mem_filter, Bool.and_eq_true, decide_eq_true_eq]
  constructor
  · rintro ⟨p, ⟨mem, ofTable, attached⟩, ofMonth⟩
    exact ⟨p, mem, Prod.ext ofTable ofMonth, attached⟩
  · rintro ⟨p, mem, name, attached⟩
    exact ⟨p, ⟨mem, congrArg Prod.fst name, attached⟩, congrArg Prod.snd name⟩

theorem mem_partitionBounds {table : String} {db : List Partition} {month upper : ℕ}
    (h : (month, upper) ∈ partitionBounds table db) :
  ∃ p ∈ db, p.name = (table, month) ∧ p.upper = upper
  := by
  unfold partitionBounds at h
  simp only [List.mem_map, List.mem_filter, Bool.and_eq_true, decide_eq_true_eq] at h
  obtain ⟨p, ⟨mem, ofTable, -⟩, same⟩ := h
  cases same
  exact ⟨p, mem, Prod.ext ofTable rfl, rfl⟩

/-- Partitions are whole months, with names of their own. -/
structure WellFormed (db : List Partition) : Prop where
  names : (db.map Partition.name).Nodup
  whole : ∀ p ∈ db, p.lower = p.month ∧ p.upper = p.month + 1

/-- What the creation of a partition leaves: the partition is there, and it may be new. -/
inductive Created (table : String) (month : ℕ) (db : List Partition) : List Partition → Prop where
  | there (p : Partition) : p ∈ db → p.name = (table, month) → Created table month db db
  | new : (∀ p ∈ db, p.name ≠ (table, month)) →
      Created table month db (db ++ [⟨table, month, month, month + 1, true, false⟩])

/-- The creation of a whole month does not overlap another one. -/
theorem exists_create {db : List Partition} (h : WellFormed db) (table : String) (month : ℕ) :
  ∃ db', create table month month (month + 1) db = some db'
  := by
  unfold create
  split
  · exact ⟨db, rfl⟩
  · case isFalse fresh =>
    rw [if_neg]
    · exact ⟨_, rfl⟩
    · intro overlap
      obtain ⟨p, mem, holds⟩ := List.any_eq_true.mp overlap
      simp only [Bool.and_eq_true, decide_eq_true_eq] at holds
      obtain ⟨⟨ofTable, -⟩, below, above⟩ := holds
      obtain ⟨lower, upper⟩ := h.whole p mem
      apply fresh
      refine List.any_eq_true.mpr ⟨p, mem, decide_eq_true ?_⟩
      exact Prod.ext ofTable (show p.month = month by omega)

theorem created_of_create {table : String} {month : ℕ} {db db' : List Partition}
    (h : create table month month (month + 1) db = some db') :
  Created table month db db'
  := by
  unfold create at h
  split at h
  · case isTrue found =>
    cases h
    obtain ⟨p, mem, name⟩ := List.any_eq_true.mp found
    exact .there p mem (of_decide_eq_true name)
  · case isFalse fresh =>
    split at h
    · cases h
    · cases h
      refine .new fun p mem same => fresh ?_
      exact List.any_eq_true.mpr ⟨p, mem, decide_eq_true same⟩

theorem month_upper (p : Pass) (reading : ℕ) :
  p.month reading = reading + p.readings.length ∧ p.upper reading = p.month reading + 1
  := by
  obtain ⟨first, second⟩ := monthBounds_index reading p.readings.length
  exact ⟨first, by unfold Pass.month Pass.upper; omega⟩

/-! ### What a step does -/

/-- What a step of a task may be. -/
inductive Moved (cfg : Settings) (s : State) (r : ℕ) : State → Prop where
  | start : s.tasks r = .absent → Moved cfg s r (s.put r (.listing partitionedTables))
  | list (table : String) (rest : List String) : s.tasks r = .listing (table :: rest) →
      Moved cfg s r (s.put r (.looping ⟨table, existingPartitions table s.partitions, [], rest⟩))
  | known (p : Pass) : s.tasks r = .looping p → p.month s.now ∈ p.existing →
      Moved cfg s r (s.put r (.looping (p.next s.now)))
  | missing (p : Pass) : s.tasks r = .looping p → p.month s.now ∉ p.existing →
      Moved cfg s r (s.put r (.creating p s.now))
  | passed (p : Pass) : s.tasks r = .looping p → monthsAhead < p.readings.length →
      Moved cfg s r ((s.round p).put r (.listing p.rest))
  | create (p : Pass) (reading : ℕ) (db : List Partition) : s.tasks r = .creating p reading →
      Created p.table (p.month reading) s.partitions db →
      Moved cfg s r ((s.write db).put r (.enabling p reading))
  | enable (p : Pass) (reading : ℕ) : s.tasks r = .enabling p reading →
      Moved cfg s r ((s.write (Table.update (fun q => q.name = (p.table, p.month reading))
        (fun q => { q with rls := true }) s.partitions)).put r (.looping (p.next reading)))
  | settings : s.tasks r = .listing [] →
      Moved cfg s r (s.put r (.cutting (retentionMonths cfg) []))
  | cut (table : String) (months cutoff : ℕ) (rest cutoffs : List (String × ℕ)) :
      s.tasks r = .cutting ((table, months) :: rest) cutoffs → cutoff + months = s.now →
      Moved cfg s r (s.put r (.cutting rest (cutoffs ++ [(table, cutoff)])))
  | cutDone (cutoffs : List (String × ℕ)) : s.tasks r = .cutting [] cutoffs →
      Moved cfg s r (s.put r (.expiring cutoffs))
  | find (table : String) (cutoff : ℕ) (rest : List (String × ℕ)) :
      s.tasks r = .expiring ((table, cutoff) :: rest) →
      Moved cfg s r (s.put r (.detaching table cutoff (partitionBounds table s.partitions) rest))
  | skip (table : String) (cutoff : ℕ) (bound : ℕ × ℕ) (found : List (ℕ × ℕ))
      (rest : List (String × ℕ)) : s.tasks r = .detaching table cutoff (bound :: found) rest →
      Moved cfg s r (s.put r (.detaching table cutoff found rest))
  | detach (table : String) (cutoff month upper : ℕ) (found : List (ℕ × ℕ))
      (rest : List (String × ℕ)) (db : List Partition) :
      s.tasks r = .detaching table cutoff ((month, upper) :: found) rest → upper ≤ cutoff →
      detach cfg.partitionDropAfterDetach (table, month) s.partitions = some db →
      Moved cfg s r ((s.write db).put r (.detaching table cutoff found rest))
  | detachDone (table : String) (cutoff : ℕ) (rest : List (String × ℕ)) :
      s.tasks r = .detaching table cutoff [] rest → Moved cfg s r (s.put r (.expiring rest))
  | finish : s.tasks r = .expiring [] → Moved cfg s r (s.put r .done)
  | fail : (∀ p reading, s.tasks r ≠ .enabling p reading) → (∀ name, s.tasks r ≠ .dead name) →
      Moved cfg s r (s.put r (.dead none))
  | leave (p : Pass) (reading : ℕ) : s.tasks r = .enabling p reading →
      Moved cfg s r (s.put r (.dead (some (p.table, p.month reading))))

theorem moved_of_work {s t : State} {r : ℕ} {ok : Bool} (h : work cfg r ok s = some t) :
  Moved cfg s r t
  := by
  unfold work at h
  split at h
  · case h_1 listing =>
    cases h
    exact .settings listing
  · case h_2 table rest listing =>
    cases h
    split
    · exact .list table rest listing
    · apply Moved.fail
      all_goals
        rw [listing]
        exact nofun
  · case h_3 p looping =>
    split at h
    · cases h
      split
      · case isTrue known => exact .known p looping (List.contains_iff_mem.mp known)
      · case isFalse missing =>
        exact .missing p looping fun mem => missing (List.contains_iff_mem.mpr mem)
    · case isFalse long =>
      cases h
      exact .passed p looping (Nat.not_le.mp long)
  · case h_4 p reading creating =>
    obtain ⟨-, upper⟩ := month_upper p reading
    rw [upper] at h
    split at h
    · case h_1 db found =>
      cases h
      split at found
      · exact .create p reading db creating (created_of_create found)
      · cases found
    · cases h
      apply Moved.fail
      all_goals
        rw [creating]
        exact nofun
  · case h_5 p reading enabling =>
    split at h
    · case h_1 db found =>
      cases h
      split at found
      · unfold enable at found
        split at found
        · cases found
          exact .enable p reading enabling
        · cases found
      · cases found
    · cases h
      exact .leave p reading enabling
  · case h_6 cutoffs cutting =>
    cases h
    exact .cutDone cutoffs cutting
  · case h_7 table months rest cutoffs cutting =>
    split at h
    · case h_1 cutoff found =>
      cases h
      exact .cut table months _ rest cutoffs cutting (index_of_cutoffFor found)
    · cases h
      apply Moved.fail
      all_goals
        rw [cutting]
        exact nofun
  · case h_8 expiring =>
    cases h
    exact .finish expiring
  · case h_9 table cutoff rest expiring =>
    cases h
    split
    · exact .find table cutoff rest expiring
    · apply Moved.fail
      all_goals
        rw [expiring]
        exact nofun
  · case h_10 table cutoff rest detaching =>
    cases h
    exact .detachDone table cutoff rest detaching
  · case h_11 table cutoff month upper found rest detaching =>
    split at h
    · cases h
      exact .skip table cutoff _ found rest detaching
    · case isFalse old =>
      split at h
      · case h_1 db removed =>
        cases h
        split at removed
        · exact .detach table cutoff month upper found rest db detaching (Nat.not_lt.mp old) removed
        · cases removed
      · cases h
        exact .skip table cutoff _ found rest detaching
  · cases h

/-- A step is one of a task, or the clock goes on. -/
theorem moved_of_step {s t : State} {a : Action} (h : (machine cfg).step a s = some t) :
  (∃ months, t = { s with now := s.now + months }) ∨ ∃ r, Moved cfg s r t
  := by
  cases a with
  | turn months =>
    cases h
    exact .inl ⟨months, rfl⟩
  | start r =>
    right
    use r
    simp only [machine, step] at h
    split at h
    · case isTrue absent =>
      cases h
      exact .start absent
    · cases h
  | work r ok => exact .inr ⟨r, moved_of_work h⟩
  | kill r =>
    right
    use r
    simp only [machine, step] at h
    split at h
    · case isTrue active =>
      cases h
      cases phase : s.tasks r with
      | enabling p reading => exact .leave p reading phase
      | dead left =>
        rw [phase] at active
        cases active
      | _ =>
        apply Moved.fail
        all_goals
          rw [phase]
          exact nofun
    · cases h

/-! ### Changes of the partitions -/

theorem wellFormed_created {table : String} {month : ℕ} {db db' : List Partition}
    (h : WellFormed db) (created : Created table month db db') :
  WellFormed db'
  := by
  cases created with
  | there p mem name => exact h
  | new fresh =>
    constructor
    · rw [List.map_append, List.nodup_append]
      refine ⟨h.names, List.nodup_singleton _, ?_⟩
      intro name old name' new same
      obtain ⟨p, mem, rfl⟩ := List.mem_map.mp old
      rw [List.mem_singleton.mp new] at same
      exact fresh p mem same
    · intro p mem
      obtain old | new := List.mem_append.mp mem
      · exact h.whole p old
      · rw [List.mem_singleton.mp new]
        exact ⟨rfl, rfl⟩

theorem subset_of_created {table : String} {month : ℕ} {db db' : List Partition}
    (created : Created table month db db') :
  ∀ p ∈ db, p ∈ db'
  := by
  cases created with
  | there p mem name => exact fun _ => id
  | new fresh => exact fun p mem => List.mem_append_left _ mem

theorem of_mem_created {table : String} {month : ℕ} {db db' : List Partition}
    (created : Created table month db db') {p : Partition} (h : p ∈ db') :
  p ∈ db ∨ p = ⟨table, month, month, month + 1, true, false⟩
  := by
  cases created with
  | there q mem name => exact .inl h
  | new fresh =>
    obtain old | new := List.mem_append.mp h
    · exact .inl old
    · exact .inr (List.mem_singleton.mp new)

theorem exists_of_created {table : String} {month : ℕ} {db db' : List Partition}
    (created : Created table month db db') :
  ∃ p ∈ db', p.name = (table, month)
  := by
  cases created with
  | there p mem name => exact ⟨p, mem, name⟩
  | new fresh => exact ⟨_, List.mem_append_right _ (List.mem_singleton_self _), rfl⟩

/-- An update that keeps names and bounds. -/
theorem wellFormed_update {db : List Partition} (h : WellFormed db) (p : Partition → Bool)
    {f : Partition → Partition} (name : ∀ q, (f q).name = q.name)
    (bounds : ∀ q, (f q).month = q.month ∧ (f q).lower = q.lower ∧ (f q).upper = q.upper) :
  WellFormed (Table.update p f db)
  := by
  constructor
  · rw [Table.map_update Partition.name name]
    exact h.names
  · intro q mem
    obtain ⟨old, memOld, rfl⟩ := Table.mem_update.mp mem
    split
    · obtain ⟨month, lower, upper⟩ := bounds old
      rw [month, lower, upper]
      exact h.whole old memOld
    · exact h.whole old memOld

section Detach

variable {drop : Bool} {name : String × ℕ} {db db' : List Partition}

theorem wellFormed_detach (h : WellFormed db) (removed : detach drop name db = some db') :
  WellFormed db'
  := by
  unfold detach at removed
  split at removed
  · cases removed
    split
    · constructor
      · exact h.names.sublist (List.filter_sublist.map _)
      · intro p mem
        exact h.whole p (List.mem_of_mem_filter mem)
    · exact wellFormed_update h _ (fun _ => rfl) fun _ => ⟨rfl, rfl, rfl⟩
  · cases removed

/-- Only the partition that is named is taken off. -/
theorem mem_detach_of_ne (removed : detach drop name db = some db') {p : Partition} (mem : p ∈ db)
    (ne : p.name ≠ name) :
  p ∈ db'
  := by
  unfold detach at removed
  split at removed
  · cases removed
    split
    · exact List.mem_filter.mpr ⟨mem, decide_eq_true ne⟩
    · refine Table.mem_update.mpr ⟨p, mem, ?_⟩
      rw [if_neg]
      intro same
      exact ne (of_decide_eq_true same)
  · cases removed

theorem of_mem_detach (removed : detach drop name db = some db') {p : Partition} (mem : p ∈ db') :
  p ∈ db ∨ p.name = name ∧ p.attached = false ∧ ∃ old ∈ db, old.name = name ∧ old.rls = p.rls
  := by
  unfold detach at removed
  split at removed
  · cases removed
    split at mem
    · exact .inl (List.mem_of_mem_filter mem)
    · obtain ⟨old, memOld, rfl⟩ := Table.mem_update.mp mem
      split
      · case isTrue same =>
        right
        exact ⟨of_decide_eq_true same, rfl, old, memOld, of_decide_eq_true same, rfl⟩
      · exact .inl memOld
  · cases removed

end Detach

theorem mem_update_rls {name : String × ℕ} {db : List Partition} {p : Partition} (mem : p ∈ db) :
  (if p.name = name then { p with rls := true } else p) ∈
    Table.update (fun q => q.name = name) (fun q => { q with rls := true }) db
  := by
  refine Table.mem_update.mpr ⟨p, mem, ?_⟩
  simp only [decide_eq_true_eq]

/-! ### The retention periods are kept -/

/-- The retention period of the partition is over. -/
def Expired (cfg : Settings) (name : String × ℕ) (now : ℕ) : Prop :=
  ∃ months, (name.1, months) ∈ retentionMonths cfg ∧ name.2 + 1 + months ≤ now

theorem Expired.later {name : String × ℕ} {now now' : ℕ} (h : Expired cfg name now)
    (le : now ≤ now') :
  Expired cfg name now'
  := by
  obtain ⟨months, policy, expired⟩ := h
  exact ⟨months, policy, expired.trans le⟩

/-- The cutoff keeps what the retention period of the table asks for. -/
def Cautious (cfg : Settings) (now : ℕ) (x : String × ℕ) : Prop :=
  ∃ months, (x.1, months) ∈ retentionMonths cfg ∧ x.2 + months ≤ now

theorem Cautious.later {now now' : ℕ} {x : String × ℕ} (h : Cautious cfg now x) (le : now ≤ now') :
  Cautious cfg now' x
  := by
  obtain ⟨months, policy, within⟩ := h
  exact ⟨months, policy, within.trans le⟩

/-- The task takes off only what is older than its cutoffs. -/
def Phase.Cautious (cfg : Settings) (now : ℕ) : Phase → Prop
  | .cutting todo cutoffs =>
      (∀ x ∈ todo, x ∈ retentionMonths cfg) ∧ ∀ x ∈ cutoffs, Partitions.Cautious cfg now x
  | .expiring cutoffs => ∀ x ∈ cutoffs, Partitions.Cautious cfg now x
  | .detaching table cutoff found rest =>
      (∀ x ∈ found, x.2 = x.1 + 1) ∧ ∀ x ∈ (table, cutoff) :: rest, Partitions.Cautious cfg now x
  | _ => True

theorem Phase.Cautious.later {now now' : ℕ} {p : Phase} (h : p.Cautious cfg now)
    (le : now ≤ now') :
  p.Cautious cfg now'
  := by
  cases p with
  | cutting todo cutoffs => exact ⟨h.1, fun x mem => (h.2 x mem).later le⟩
  | expiring cutoffs => exact fun x mem => (h x mem).later le
  | detaching table cutoff found rest => exact ⟨h.1, fun x mem => (h.2 x mem).later le⟩
  | _ => trivial

/-- The partitions are whole months, and only those that have expired are detached or will be. -/
structure Sound (cfg : Settings) (s : State) : Prop where
  wf : WellFormed s.partitions
  detached : ∀ p ∈ s.partitions, p.attached = false → Expired cfg p.name s.now
  cautious : ∀ r, (s.tasks r).Cautious cfg s.now

theorem sound_of_init {s : State} (h : (machine cfg).init s) :
  Sound cfg s
  := by
  obtain ⟨migrated, absent, -⟩ := h
  refine ⟨⟨migrated.names, migrated.whole⟩, ?_, ?_⟩
  · intro p mem detached
    rw [migrated.attached p mem] at detached
    cases detached
  · intro r
    rw [absent r]
    trivial

theorem cautious_put {s : State} (h : ∀ r, (s.tasks r).Cautious cfg s.now) {r : ℕ} {q : Phase}
    (hq : q.Cautious cfg s.now) :
  ∀ r', ((s.put r q).tasks r').Cautious cfg s.now
  := by
  intro r'
  simp only [State.put, Function.update_apply]
  split
  · exact hq
  · exact h r'

theorem Sound.put {s : State} (h : Sound cfg s) {r : ℕ} {q : Phase} (hq : q.Cautious cfg s.now) :
  Sound cfg (s.put r q)
  := ⟨h.wf, h.detached, cautious_put h.cautious hq⟩

/-- The partition that is taken off next has expired. -/
theorem Sound.expired {s : State} (h : Sound cfg s) {r cutoff month upper : ℕ} {table : String}
    {found : List (ℕ × ℕ)} {rest : List (String × ℕ)}
    (detaching : s.tasks r = .detaching table cutoff ((month, upper) :: found) rest)
    (old : upper ≤ cutoff) :
  Expired cfg (table, month) s.now
  := by
  have cautious := h.cautious r
  rw [detaching] at cautious
  have whole := cautious.1 (month, upper) List.mem_cons_self
  obtain ⟨months, policy, within⟩ := cautious.2 (table, cutoff) List.mem_cons_self
  simp only at whole within
  exact ⟨months, policy, by simp only; omega⟩

theorem Sound.moved {s t : State} {r : ℕ} (h : Sound cfg s) (move : Moved cfg s r t) :
  Sound cfg t
  := by
  cases move with
  | start _ => exact h.put trivial
  | list table rest _ => exact h.put trivial
  | known p _ _ => exact h.put trivial
  | missing p _ _ => exact h.put trivial
  | passed p _ _ => exact ⟨h.wf, h.detached, cautious_put h.cautious trivial⟩
  | create p reading db _ created =>
    refine ⟨wellFormed_created h.wf created, ?_, cautious_put h.cautious trivial⟩
    intro q mem detached
    obtain old | new := of_mem_created created mem
    · exact h.detached q old detached
    · rw [new] at detached
      cases detached
  | enable p reading _ =>
    refine ⟨wellFormed_update h.wf _ (fun _ => rfl) fun _ => ⟨rfl, rfl, rfl⟩, ?_,
      cautious_put h.cautious trivial⟩
    intro q mem detached
    obtain ⟨old, memOld, rfl⟩ := Table.mem_update.mp mem
    split at detached
    · case isTrue same =>
      rw [if_pos same]
      exact h.detached old memOld detached
    · case isFalse other =>
      rw [if_neg other]
      exact h.detached old memOld detached
  | settings _ => exact h.put ⟨fun _ => id, nofun⟩
  | cut table months cutoff rest cutoffs cutting same =>
    have cautious := h.cautious r
    rw [cutting] at cautious
    apply h.put
    refine ⟨fun x mem => cautious.1 x (List.mem_cons_of_mem _ mem), ?_⟩
    intro x mem
    obtain old | new := List.mem_append.mp mem
    · exact cautious.2 x old
    · rw [List.mem_singleton.mp new]
      exact ⟨months, cautious.1 (table, months) List.mem_cons_self, le_of_eq same⟩
  | cutDone cutoffs cutting =>
    have cautious := h.cautious r
    rw [cutting] at cautious
    exact h.put cautious.2
  | find table cutoff rest expiring =>
    have cautious := h.cautious r
    rw [expiring] at cautious
    apply h.put
    refine ⟨?_, cautious⟩
    intro x mem
    obtain ⟨p, memP, name, upper⟩ := mem_partitionBounds mem
    have month : p.month = x.1 := congrArg Prod.snd name
    rw [← upper, ← month]
    exact (h.wf.whole p memP).2
  | skip table cutoff bound found rest detaching =>
    have cautious := h.cautious r
    rw [detaching] at cautious
    exact h.put ⟨fun x mem => cautious.1 x (List.mem_cons_of_mem _ mem), cautious.2⟩
  | detach table cutoff month upper found rest db detaching old removed =>
    have cautious := h.cautious r
    rw [detaching] at cautious
    refine ⟨wellFormed_detach h.wf removed, ?_, cautious_put h.cautious
      ⟨fun x mem => cautious.1 x (List.mem_cons_of_mem _ mem), cautious.2⟩⟩
    intro p mem detached
    obtain before | ⟨name, -⟩ := of_mem_detach removed mem
    · exact h.detached p before detached
    · rw [name]
      exact h.expired detaching old
  | detachDone table cutoff rest detaching =>
    have cautious := h.cautious r
    rw [detaching] at cautious
    exact h.put fun x mem => cautious.2 x (List.mem_cons_of_mem _ mem)
  | finish _ => exact h.put trivial
  | fail _ _ => exact h.put trivial
  | leave p reading _ => exact h.put trivial

theorem Sound.step {s t : State} {a : Action} (h : Sound cfg s)
    (hstep : (machine cfg).step a s = some t) :
  Sound cfg t
  := by
  obtain ⟨months, rfl⟩ | ⟨r, move⟩ := moved_of_step hstep
  · refine ⟨h.wf, ?_, ?_⟩
    · exact fun p mem detached => (h.detached p mem detached).later (Nat.le_add_right ..)
    · exact fun r => (h.cautious r).later (Nat.le_add_right ..)
  · exact h.moved move

theorem Sound.of_run {h : List (State × Action)} {s : State} (run : (machine cfg).Run h s) :
  Sound cfg s
  := by
  apply run.invariant
  · exact fun s init => sound_of_init init
  · exact fun a s t sound hstep => sound.step hstep

/-- There is a partition with the name, and queries of the table see it. -/
def State.Attached (s : State) (name : String × ℕ) : Prop :=
  ∃ p ∈ s.partitions, p.name = name ∧ p.attached = true

theorem Moved.clock_le {s t : State} {r : ℕ} (move : Moved cfg s r t) :
  t.now = s.now
  := by
  cases move
  all_goals rfl

/-- A step leaves a partition attached, or it has expired. -/
theorem attached_moved {s t : State} {r : ℕ} (sound : Sound cfg s) (move : Moved cfg s r t)
    {name : String × ℕ} (h : s.Attached name) :
  t.Attached name ∨ Expired cfg name s.now
  := by
  cases move with
  | create p reading db _ created =>
    obtain ⟨q, mem, same, attached⟩ := h
    exact .inl ⟨q, subset_of_created created q mem, same, attached⟩
  | enable p reading _ =>
    obtain ⟨q, mem, same, attached⟩ := h
    left
    refine ⟨_, mem_update_rls mem, ?_, ?_⟩
    · split
      · exact same
      · exact same
    · split
      · exact attached
      · exact attached
  | detach table cutoff month upper found rest db detaching old removed =>
    by_cases mine : name = (table, month)
    · rw [mine]
      exact .inr (sound.expired detaching old)
    · obtain ⟨q, mem, same, attached⟩ := h
      left
      refine ⟨q, mem_detach_of_ne removed mem ?_, same, attached⟩
      rw [same]
      exact mine
  | _ => exact .inl h

theorem attached_step {s t : State} {a : Action} (sound : Sound cfg s)
    (hstep : (machine cfg).step a s = some t) {name : String × ℕ} (h : s.Attached name) :
  t.Attached name ∨ Expired cfg name t.now
  := by
  obtain ⟨months, rfl⟩ | ⟨r, move⟩ := moved_of_step hstep
  · exact .inl h
  · rw [move.clock_le]
    exact attached_moved sound move h

theorem clock_step {s t : State} {a : Action} (hstep : (machine cfg).step a s = some t) :
  s.now ≤ t.now
  := by
  obtain ⟨months, rfl⟩ | ⟨r, move⟩ := moved_of_step hstep
  · exact Nat.le_add_right ..
  · rw [move.clock_le]

/-- In every run, with any number of tasks that fail or are killed at any point: the partitions of a
table are whole months that do not overlap, so that no month that is to be created ever does; and a
partition that has once been attached still is, unless it has outlived the retention period of its
table. -/
theorem partitions_kept {h : List (State × Action)} {s : State} (run : (machine cfg).Run h s) :
  (∀ p ∈ s.partitions, ∀ q ∈ s.partitions, p.table = q.table → p ≠ q →
    p.upper ≤ q.lower ∨ q.upper ≤ p.lower) ∧
  (∀ table month, create table month month (month + 1) s.partitions ≠ none) ∧
  ∀ u ∈ Machine.states h s, ∀ p ∈ u.partitions, p.attached = true →
    (∃ q ∈ s.partitions, q.name = p.name ∧ q.attached = true ∧ q.lower = p.lower ∧
      q.upper = p.upper) ∨
    ∃ months, (p.table, months) ∈ retentionMonths cfg ∧ p.upper + months ≤ s.now
  := by
  have sound := Sound.of_run run
  have all := run.forall_states (I := Sound cfg) (fun s init => sound_of_init init)
    fun a s t sound hstep => sound.step hstep
  have kept := run.forall_later (I := Sound cfg) (G := fun _ _ => True)
    (R := fun u s => ∀ name, u.Attached name → s.Attached name ∨ Expired cfg name s.now)
    (fun s init => sound_of_init init) (fun a s t sound _ hstep => sound.step hstep)
    (fun s name attached => .inl attached)
    (fun a u s t sound _ before hstep name attached => by
      obtain still | expired := before name attached
      · exact attached_step sound hstep still
      · exact .inr (expired.later (clock_step hstep)))
    fun _ _ => trivial
  refine ⟨?_, ?_, ?_⟩
  · intro p memP q memQ table ne
    obtain ⟨lowerP, upperP⟩ := sound.wf.whole p memP
    obtain ⟨lowerQ, upperQ⟩ := sound.wf.whole q memQ
    have other : p.month ≠ q.month := by
      intro month
      exact ne (Table.eq_of_key sound.wf.names memP memQ (Prod.ext table month))
    omega
  · intro table month
    obtain ⟨db, found⟩ := exists_create sound.wf table month
    rw [found]
    exact nofun
  · intro u hu p mem attached
    obtain ⟨lowerP, upperP⟩ := (all u hu).wf.whole p mem
    obtain ⟨q, memQ, same, still⟩ | ⟨months, policy, expired⟩ :=
      kept u hu p.name ⟨p, mem, rfl, attached⟩
    · left
      obtain ⟨lowerQ, upperQ⟩ := sound.wf.whole q memQ
      have month : q.month = p.month := congrArg Prod.snd same
      exact ⟨q, memQ, same, still, by omega, by omega⟩
    · right
      refine ⟨months, policy, ?_⟩
      have name : p.name.2 = p.month := rfl
      omega

/-! ### A small run -/

def sampleSettings : Settings where
  partitionRetentionMonths := "platform_usagelog:1"
  int raw := if raw = "1" then some 1 else none

/-- A partition that has expired, in January 2026. -/
def sampleStart : State where
  now := 24312
  partitions := [⟨"platform_usagelog", 24310, 24310, 24311, true, true⟩]

theorem sampleStart_init : (machine sampleSettings).init sampleStart := by
  refine ⟨⟨?_, ?_, ?_, ?_⟩, fun _ => rfl, rfl⟩
  all_goals decide

def samplePartition (month : ℕ) : Partition :=
  ⟨"platform_usagelog", month, month, month + 1, true, true⟩

/-- A task that comes to its end. -/
def sampleActions : List Action :=
  .start 0 :: List.replicate 53 (.work 0 true)

theorem sample_run :
  ∃ h s, (machine sampleSettings).Run h s ∧ s.tasks 0 = .done ∧
    samplePartition 24312 ∈ s.partitions ∧ samplePartition 24315 ∈ s.partitions ∧
    ("platform_usagelog", [24312, 24312, 24312, 24312]) ∈ s.rounds ∧ s.now = 24312
  := by
  obtain ⟨h, s, run, ends⟩ := (machine sampleSettings).exists_run_of_exec sampleActions
    (fun s => s.tasks 0 = .done ∧ samplePartition 24312 ∈ s.partitions ∧
      samplePartition 24315 ∈ s.partitions ∧
      ("platform_usagelog", [24312, 24312, 24312, 24312]) ∈ s.rounds ∧ s.now = 24312)
    sampleStart_init (by decide +kernel)
  exact ⟨h, s, run, of_decide_eq_true ends⟩

/-- Two of the partitions of the small run. -/
theorem partitions_kept_sample :
  ∃ h s, (machine sampleSettings).Run h s ∧ s.tasks 0 = .done ∧
    ((samplePartition 24312).upper ≤ (samplePartition 24315).lower ∨
      (samplePartition 24315).upper ≤ (samplePartition 24312).lower)
  := by
  obtain ⟨h, s, run, done, first, last, -⟩ := sample_run
  refine ⟨h, s, run, done, ?_⟩
  exact (partitions_kept run).1 _ first _ last rfl (by decide)

/-! ### The coming months -/

/-- The partition is attached, or it has expired. -/
def Present (cfg : Settings) (s : State) (name : String × ℕ) : Prop :=
  s.Attached name ∨ Expired cfg name s.now

theorem present_step {s t : State} {a : Action} (sound : Sound cfg s)
    (hstep : (machine cfg).step a s = some t) {name : String × ℕ} (h : Present cfg s name) :
  Present cfg t name
  := by
  obtain attached | expired := h
  · exact attached_step sound hstep attached
  · exact .inr (expired.later (clock_step hstep))

/-- A partition with the name is there, or was. -/
theorem Sound.present {s : State} (h : Sound cfg s) {p : Partition} (mem : p ∈ s.partitions) :
  Present cfg s p.name
  := by
  cases attached : p.attached with
  | true => exact .inl ⟨p, mem, rfl, attached⟩
  | false => exact .inr (h.detached p mem attached)

section Covers

variable (present : String × ℕ → Prop)

/-- The months that a task has gone through by certain readings of the clock are there. -/
def ReadingsCover (table : String) (readings : List ℕ) : Prop :=
  ∀ i reading, readings[i]? = some reading → present (table, reading + i)

/-- What a task has read, and what it has gone through, is there. -/
structure Pass.Covers (p : Pass) : Prop where
  existing : ∀ month ∈ p.existing, present (p.table, month)
  readings : ReadingsCover present p.table p.readings

def Phase.Covers : Phase → Prop
  | .looping p => p.Covers present
  | .creating p _ => p.Covers present
  | .enabling p reading => p.Covers present ∧ present (p.table, p.month reading)
  | _ => True

end Covers

theorem Pass.Covers.mono {present present' : String × ℕ → Prop} {p : Pass} (h : p.Covers present)
    (le : ∀ name, present name → present' name) :
  p.Covers present'
  := ⟨fun month mem => le _ (h.existing month mem),
    fun i reading found => le _ (h.readings i reading found)⟩

theorem Phase.Covers.mono {present present' : String × ℕ → Prop} {p : Phase} (h : p.Covers present)
    (le : ∀ name, present name → present' name) :
  p.Covers present'
  := by
  cases p with
  | looping p => exact Pass.Covers.mono h le
  | creating p reading => exact Pass.Covers.mono h le
  | enabling p reading => exact ⟨Pass.Covers.mono h.1 le, le _ h.2⟩
  | _ => trivial

/-- The next month is gone through. -/
theorem Pass.Covers.next {present : String × ℕ → Prop} {p : Pass} (h : p.Covers present)
    {reading : ℕ} (there : present (p.table, p.month reading)) :
  (p.next reading).Covers present
  := by
  refine ⟨h.existing, ?_⟩
  intro i reading' found
  obtain before | ⟨last, same⟩ := Table.of_getElem?_concat found
  · exact h.readings i reading' before
  · rw [last, same]
    rw [(month_upper p reading).1] at there
    exact there

/-- The months that the tasks have gone through are there. -/
structure Covered (cfg : Settings) (s : State) : Prop where
  tasks : ∀ r, (s.tasks r).Covers (Present cfg s)
  rounds : ∀ x ∈ s.rounds, monthsAhead < x.2.length ∧ ReadingsCover (Present cfg s) x.1 x.2

theorem covered_of_init {s : State} (h : (machine cfg).init s) :
  Covered cfg s
  := by
  obtain ⟨-, absent, rounds⟩ := h
  constructor
  · intro r
    rw [absent r]
    trivial
  · rw [rounds]
    exact nofun

theorem covers_put {present : String × ℕ → Prop} {s : State}
    (h : ∀ r, (s.tasks r).Covers present) {r : ℕ} {q : Phase} (hq : q.Covers present) :
  ∀ r', ((s.put r q).tasks r').Covers present
  := by
  intro r'
  simp only [State.put, Function.update_apply]
  split
  · exact hq
  · exact h r'

/-- The phase of the task after a step, with what is there by then. -/
theorem Covered.moved {s t : State} {r : ℕ} (sound : Sound cfg s) (h : Covered cfg s)
    (move : Moved cfg s r t) (le : ∀ name, Present cfg s name → Present cfg t name) :
  Covered cfg t
  := by
  have tasks : ∀ r, (s.tasks r).Covers (Present cfg t) := fun r => (h.tasks r).mono le
  have rounds : ∀ x ∈ s.rounds, monthsAhead < x.2.length ∧
      ReadingsCover (Present cfg t) x.1 x.2 := fun x mem =>
    ⟨(h.rounds x mem).1, fun i reading found => le _ ((h.rounds x mem).2 i reading found)⟩
  have own := tasks r
  cases move with
  | list table rest _ =>
    refine ⟨covers_put tasks ⟨?_, nofun⟩, rounds⟩
    intro month mem
    obtain ⟨p, memP, name, attached⟩ := mem_existingPartitions.mp mem
    exact .inl ⟨p, memP, name, attached⟩
  | known p looping mem =>
    rw [looping] at own
    exact ⟨covers_put tasks (Pass.Covers.next own (Pass.Covers.existing own _ mem)), rounds⟩
  | missing p looping _ =>
    rw [looping] at own
    exact ⟨covers_put tasks own, rounds⟩
  | passed p looping long =>
    rw [looping] at own
    refine ⟨covers_put tasks trivial, ?_⟩
    intro x mem
    obtain old | new := List.mem_append.mp mem
    · exact rounds x old
    · rw [List.mem_singleton.mp new]
      exact ⟨long, Pass.Covers.readings own⟩
  | create p reading db creating created =>
    rw [creating] at own
    refine ⟨covers_put tasks ⟨own, ?_⟩, rounds⟩
    obtain ⟨q, mem, name⟩ := exists_of_created created
    have after := sound.moved (.create p reading db creating created)
    rw [← name]
    exact after.present mem
  | enable p reading enabling =>
    rw [enabling] at own
    exact ⟨covers_put tasks (Pass.Covers.next own.1 own.2), rounds⟩
  | detach table cutoff month upper found rest db _ _ _ =>
    exact ⟨covers_put tasks trivial, rounds⟩
  | _ => exact ⟨covers_put tasks trivial, rounds⟩

theorem Covered.step {s t : State} {a : Action} (sound : Sound cfg s) (h : Covered cfg s)
    (hstep : (machine cfg).step a s = some t) :
  Covered cfg t
  := by
  have le : ∀ name, Present cfg s name → Present cfg t name :=
    fun name present => present_step sound hstep present
  obtain ⟨months, rfl⟩ | ⟨r, move⟩ := moved_of_step hstep
  · exact ⟨fun r => (h.tasks r).mono le, fun x mem =>
      ⟨(h.rounds x mem).1, fun i reading found => le _ ((h.rounds x mem).2 i reading found)⟩⟩
  · exact h.moved sound move le

theorem covered_of_run {h : List (State × Action)} {s : State} (run : (machine cfg).Run h s) :
  Sound cfg s ∧ Covered cfg s
  := by
  apply run.invariant (I := fun s => Sound cfg s ∧ Covered cfg s)
  · exact fun s init => ⟨sound_of_init init, covered_of_init init⟩
  · exact fun a s t inv hstep => ⟨inv.1.step hstep, inv.2.step inv.1 hstep⟩

/-- Once a task has gone through a table within one month, that month and the next three have their
partitions, in every later state, as long as they are not over; so that the current month always has
one, if the table is gone through again at least every third month. -/
theorem months_covered {h : List (State × Action)} {s : State} (run : (machine cfg).Run h s)
    {table : String} {readings : List ℕ} (passed : (table, readings) ∈ s.rounds) {month : ℕ}
    (within : ∀ reading ∈ readings, reading = month) {wanted : ℕ} (from_month : month ≤ wanted)
    (ahead : wanted ≤ month + monthsAhead) (current : s.now ≤ wanted) :
  ∃ p ∈ s.partitions, p.table = table ∧ p.attached = true ∧ p.lower = wanted ∧ p.upper = wanted + 1
  := by
  obtain ⟨sound, covered⟩ := covered_of_run run
  obtain ⟨long, covers⟩ := covered.rounds _ passed
  have inside : wanted - month < readings.length := by
    simp only at long
    omega
  have read : readings[wanted - month]? = some month := by
    rw [List.getElem?_eq_getElem inside, within _ (List.getElem_mem inside)]
  have same : month + (wanted - month) = wanted := by omega
  have present := covers _ _ read
  rw [same] at present
  obtain ⟨p, mem, name, attached⟩ | ⟨months, -, expired⟩ := present
  · obtain ⟨lower, upper⟩ := sound.wf.whole p mem
    have ofMonth : p.month = wanted := congrArg Prod.snd name
    exact ⟨p, mem, congrArg Prod.fst name, attached, by omega, by omega⟩
  · simp only at expired
    omega

/-- Two months later there is a partition for the last of the months. -/
theorem months_covered_sample :
  ∃ h s, (machine sampleSettings).Run h s ∧ s.now = 24314 ∧
    ∃ p ∈ s.partitions, p.table = "platform_usagelog" ∧ p.attached = true ∧ p.lower = 24315 ∧
      p.upper = 24315 + 1
  := by
  obtain ⟨h, s, run, done, first, last, rounds, now⟩ := sample_run
  have later : (machine sampleSettings).step (.turn 2) s = some { s with now := s.now + 2 } := rfl
  refine ⟨_, _, run.step later, ?_, ?_⟩
  · simp only [now]
  · have within : ∀ reading ∈ [24312, 24312, 24312, 24312], reading = 24312 := by decide
    apply months_covered (run.step later) rounds within (by decide) (by decide)
    simp only [now]
    decide

/-! ### Row level security -/

/-- The task is about to protect the partition, or was when it ended. -/
def Phase.Owes (name : String × ℕ) : Phase → Prop
  | .enabling p reading => (p.table, p.month reading) = name
  | .dead left => left = some name
  | _ => False

/-- A partition that is not protected is owed it by a task. -/
def Owed (s : State) : Prop :=
  ∀ p ∈ s.partitions, p.rls = false → ∃ r, (s.tasks r).Owes p.name

theorem owes_put {s : State} {r : ℕ} {q : Phase} {name : String × ℕ}
    (h : ∃ r', (s.tasks r').Owes name) (hq : (s.tasks r).Owes name → q.Owes name) :
  ∃ r', ((s.put r q).tasks r').Owes name
  := by
  obtain ⟨r', owes⟩ := h
  use r'
  by_cases mine : r' = r
  · subst mine
    simp only [State.put, Function.update_self]
    exact hq owes
  · simp only [State.put, Function.update_of_ne mine]
    exact owes

theorem Owed.put {s : State} {r : ℕ} {q : Phase} (h : Owed s)
    (quiet : ∀ name, ¬ (s.tasks r).Owes name) :
  Owed (s.put r q)
  := by
  intro p mem unprotected
  apply owes_put (h p mem unprotected)
  intro owes
  exact absurd owes (quiet p.name)

theorem Owed.moved {s t : State} {r : ℕ} (h : Owed s) (move : Moved cfg s r t) :
  Owed t
  := by
  cases move with
  | create p reading db creating created =>
    intro q mem unprotected
    obtain old | new := of_mem_created created mem
    · apply owes_put (h q old unprotected)
      rw [creating]
      exact nofun
    · rw [new]
      refine ⟨r, ?_⟩
      simp only [State.put, Function.update_self]
      rfl
  | enable p reading enabling =>
    intro q mem unprotected
    obtain ⟨old, memOld, rfl⟩ := Table.mem_update.mp mem
    split at unprotected
    · cases unprotected
    · case isFalse other =>
      rw [if_neg other]
      apply owes_put (h old memOld unprotected)
      rw [enabling]
      intro same
      exact absurd (decide_eq_true same.symm) other
  | detach table cutoff month upper found rest db detaching _ removed =>
    intro q mem unprotected
    have before : ∃ old ∈ s.partitions, old.name = q.name ∧ old.rls = q.rls := by
      obtain same | ⟨name, -, old, memOld, nameOld, rls⟩ := of_mem_detach removed mem
      · exact ⟨q, same, rfl, rfl⟩
      · exact ⟨old, memOld, nameOld.trans name.symm, rls⟩
    obtain ⟨old, memOld, name, rls⟩ := before
    rw [← name]
    apply owes_put (h old memOld (rls.trans unprotected))
    rw [detaching]
    exact nofun
  | leave p reading enabling =>
    intro q mem unprotected
    apply owes_put (h q mem unprotected)
    rw [enabling]
    exact congrArg some
  | fail enabling dead =>
    intro q mem unprotected
    apply owes_put (h q mem unprotected)
    intro owes
    cases phase : s.tasks r with
    | enabling p reading => exact absurd phase (enabling p reading)
    | dead left =>
      rw [phase] at owes
      exact absurd (phase.trans (congrArg Phase.dead owes)) (dead (some q.name))
    | _ =>
      rw [phase] at owes
      cases owes
  | start phase => exact h.put fun _ => phase ▸ nofun
  | list _ _ phase => exact h.put fun _ => phase ▸ nofun
  | known _ phase _ => exact h.put fun _ => phase ▸ nofun
  | missing _ phase _ => exact h.put fun _ => phase ▸ nofun
  | passed p phase _ =>
    have same : (s.round p).tasks r = .looping p := phase
    exact Owed.put (s := s.round p) h fun _ => same ▸ nofun
  | settings phase => exact h.put fun _ => phase ▸ nofun
  | cut _ _ _ _ _ phase _ => exact h.put fun _ => phase ▸ nofun
  | cutDone _ phase => exact h.put fun _ => phase ▸ nofun
  | find _ _ _ phase => exact h.put fun _ => phase ▸ nofun
  | skip _ _ _ _ _ phase => exact h.put fun _ => phase ▸ nofun
  | detachDone _ _ _ phase => exact h.put fun _ => phase ▸ nofun
  | finish phase => exact h.put fun _ => phase ▸ nofun

theorem owed_of_run {h : List (State × Action)} {s : State} (run : (machine cfg).Run h s) :
  Owed s
  := by
  apply run.invariant
  · intro s init p mem unprotected
    rw [init.1.rls p mem] at unprotected
    cases unprotected
  · intro a s t owed hstep
    obtain ⟨months, rfl⟩ | ⟨r, move⟩ := moved_of_step hstep
    · exact owed
    · exact owed.moved move

/-- The loop over a table that the task is in. -/
def Phase.pass : Phase → Option Pass
  | .looping p => some p
  | .creating p _ => some p
  | .enabling p _ => some p
  | _ => none

/-- The task may still create the partition, or protect it. -/
def Phase.MayProtect (name : String × ℕ) (phase : Phase) : Prop :=
  ∃ p, phase.pass = some p ∧ p.table = name.1 ∧ name.2 ∉ p.existing

/-- A task creates only what it has not read. -/
def Phase.Fresh : Phase → Prop
  | .creating p reading => p.month reading ∉ p.existing
  | .enabling p reading => p.month reading ∉ p.existing
  | _ => True

/-- The partition is attached and not protected, and no task is about to change that. -/
structure Exposed (name : String × ℕ) (s : State) : Prop where
  unprotected : ∃ p ∈ s.partitions, p.name = name ∧ p.attached = true ∧ p.rls = false
  unattended : ∀ r, ¬ (s.tasks r).MayProtect name

theorem fresh_put {s : State} (h : ∀ r, (s.tasks r).Fresh) {r : ℕ} {q : Phase} (hq : q.Fresh) :
  ∀ r', ((s.put r q).tasks r').Fresh
  := by
  intro r'
  simp only [State.put, Function.update_apply]
  split
  · exact hq
  · exact h r'

theorem fresh_moved {s t : State} {r : ℕ} (h : ∀ r, (s.tasks r).Fresh) (move : Moved cfg s r t) :
  ∀ r, (t.tasks r).Fresh
  := by
  have own := h r
  cases move with
  | missing p _ missing => exact fresh_put h missing
  | create p reading db creating _ =>
    rw [creating] at own
    exact fresh_put (s := s.write db) h own
  | _ =>
    apply fresh_put
    · exact h
    · trivial

theorem unattended_put {s : State} {name : String × ℕ} (h : ∀ r, ¬ (s.tasks r).MayProtect name)
    {r : ℕ} {q : Phase} (hq : ¬ q.MayProtect name) :
  ∀ r', ¬ ((s.put r q).tasks r').MayProtect name
  := by
  intro r'
  simp only [State.put, Function.update_apply]
  split
  · exact hq
  · exact h r'

/-- A task that goes on with a table has read no more names and no less. -/
theorem MayProtect.congr {name : String × ℕ} {phase phase' : Phase} (p p' : Pass)
    (pass : phase.pass = some p) (pass' : phase'.pass = some p') (table : p'.table = p.table)
    (existing : p'.existing = p.existing) (h : ¬ phase.MayProtect name) :
  ¬ phase'.MayProtect name
  := by
  rintro ⟨q, found, ofTable, unread⟩
  rw [pass'] at found
  cases found
  exact h ⟨p, pass, table ▸ ofTable, existing ▸ unread⟩

theorem not_mayProtect_of_none {name : String × ℕ} {phase : Phase} (h : phase.pass = none) :
  ¬ phase.MayProtect name
  := by
  rintro ⟨q, found, -⟩
  rw [h] at found
  cases found

/-- A partition that is exposed stays so, or has expired. -/
theorem Exposed.moved {s t : State} {r : ℕ} {name : String × ℕ} (sound : Sound cfg s)
    (fresh : ∀ r, (s.tasks r).Fresh) (h : Exposed name s) (move : Moved cfg s r t) :
  Exposed name t ∨ Expired cfg name s.now
  := by
  obtain ⟨⟨p, mem, same, attached, rls⟩, unattended⟩ := h
  have own := unattended r
  cases move with
  | list table rest _ =>
    left
    refine ⟨⟨p, mem, same, attached, rls⟩, unattended_put unattended ?_⟩
    rintro ⟨q, found, ofTable, unread⟩
    cases found
    apply unread
    refine mem_existingPartitions.mpr ⟨p, mem, ?_, attached⟩
    rw [same]
    exact Prod.ext ofTable.symm rfl
  | known p' looping _ =>
    left
    refine ⟨⟨p, mem, same, attached, rls⟩, unattended_put unattended ?_⟩
    rw [looping] at own
    exact MayProtect.congr p' (p'.next s.now) rfl rfl rfl rfl own
  | missing p' looping _ =>
    left
    refine ⟨⟨p, mem, same, attached, rls⟩, unattended_put unattended ?_⟩
    rw [looping] at own
    exact MayProtect.congr p' p' rfl rfl rfl rfl own
  | create p' reading db creating created =>
    left
    refine ⟨⟨p, subset_of_created created p mem, same, attached, rls⟩,
      unattended_put (s := s.write db) unattended ?_⟩
    rw [creating] at own
    exact MayProtect.congr p' p' rfl rfl rfl rfl own
  | enable p' reading enabling =>
    left
    have unread := fresh r
    rw [enabling] at own unread
    have other : p.name ≠ (p'.table, p'.month reading) := by
      intro mine
      rw [same] at mine
      apply own
      refine ⟨p', rfl, ?_, ?_⟩
      · rw [mine]
      · rw [mine]
        exact unread
    refine ⟨⟨p, ?_, same, attached, rls⟩, unattended_put (s := s.write _) unattended ?_⟩
    · refine Table.mem_update.mpr ⟨p, mem, ?_⟩
      rw [if_neg]
      exact fun mine => other (of_decide_eq_true mine)
    · exact MayProtect.congr p' (p'.next reading) rfl rfl rfl rfl own
  | detach table cutoff month upper found rest db detaching old removed =>
    by_cases mine : name = (table, month)
    · right
      rw [mine]
      exact sound.expired detaching old
    · left
      refine ⟨⟨p, mem_detach_of_ne removed mem (same ▸ mine), same, attached, rls⟩,
        unattended_put (s := s.write db) unattended (not_mayProtect_of_none rfl)⟩
  | passed p' _ _ =>
    left
    exact ⟨⟨p, mem, same, attached, rls⟩,
      unattended_put (s := s.round p') unattended (not_mayProtect_of_none rfl)⟩
  | _ =>
    left
    exact ⟨⟨p, mem, same, attached, rls⟩,
      unattended_put unattended (not_mayProtect_of_none rfl)⟩

/-- In every run a partition without row level security has been created by a task that is about to
protect it, or that has ended in between; and where no task is at work on its table that has not
seen it, it is without from then on, as long as it is within the retention period: later tasks pass
over partitions that exist. -/
theorem unprotected_partitions {h : List (State × Action)} {s : State}
    (run : (machine cfg).Run h s) :
  (∀ p ∈ s.partitions, p.rls = false → ∃ r, (s.tasks r).Owes p.name) ∧
  ∀ u ∈ Machine.states h s, ∀ name, Exposed name u →
    (∃ p ∈ s.partitions, p.name = name ∧ p.attached = true ∧ p.rls = false) ∨
      Expired cfg name s.now
  := by
  refine ⟨owed_of_run run, ?_⟩
  have kept := run.forall_later (I := fun s => Sound cfg s ∧ ∀ r, (s.tasks r).Fresh)
    (G := fun _ _ => True) (R := fun u s => ∀ name, Exposed name u →
      Exposed name s ∨ Expired cfg name s.now)
    (fun s init => ⟨sound_of_init init, fun r => init.2.1 r ▸ trivial⟩)
    (fun a s t inv _ hstep => by
      refine ⟨inv.1.step hstep, ?_⟩
      obtain ⟨months, rfl⟩ | ⟨r, move⟩ := moved_of_step hstep
      · exact inv.2
      · exact fresh_moved inv.2 move)
    (fun s name exposed => .inl exposed)
    (fun a u s t inv _ before hstep name exposed => by
      obtain still | expired := before name exposed
      · obtain ⟨months, rfl⟩ | ⟨r, move⟩ := moved_of_step hstep
        · exact .inl ⟨still.unprotected, still.unattended⟩
        · rw [move.clock_le]
          exact still.moved inv.1 inv.2 move
      · exact .inr (expired.later (clock_step hstep)))
    fun _ _ => trivial
  intro u hu name exposed
  obtain still | expired := kept u hu name exposed
  · exact .inl still.unprotected
  · exact .inr expired

/-- A task is killed after the creation of its first partition. -/
theorem unprotected_partitions_sample :
  ∃ h s, (machine sampleSettings).Run h s ∧ ∃ p ∈ s.partitions,
    p.attached = true ∧ p.rls = false ∧ ∃ r, (s.tasks r).Owes p.name
  := by
  obtain ⟨h, s, run, ends⟩ := (machine sampleSettings).exists_run_of_exec
    [.start 0, .work 0 true, .work 0 true, .work 0 true, .kill 0]
    (fun s => ⟨"conversation_message", 24312, 24312, 24313, true, false⟩ ∈ s.partitions)
    sampleStart_init (by decide +kernel)
  have mem := of_decide_eq_true ends
  exact ⟨h, s, run, _, mem, rfl, rfl, (unprotected_partitions run).1 _ mem rfl⟩

end Lumina.Platform.Partitions
