import Lumina.Library.Grouping
import Lumina.Library.Transition
import Mathlib.Data.List.AList
import Mathlib.Data.List.Sort

/-!
# Analytics

The usage logs are rolled up into one row for each day, user, category and model, and the summary
of a period groups these rows again.  `rollupTenant` computes the rows of one day anew from the
logs, and `usageSummary` reads the daily table only.

A point in time is a number of microseconds since the epoch, a day a number of days, and a cost a
number of millionths.  The bounds of the columns of the daily table are those of a transaction that
fails and is rolled back.
-/

namespace Lumina.Platform

open Grouping Transition

abbrev TenantId := ℕ
abbrev UserId := ℕ
abbrev Day := ℤ

def microsecondsPerDay : ℤ := 86400000000

/-- The UTC date of a point in time. -/
def dayOf (createdAt : ℤ) : Day := createdAt / microsecondsPerDay

/-- A row of the usage logs.  A cost that is not known is NULL. -/
structure UsageLog where
  tenantId : TenantId
  userId : Option UserId := none
  category : String
  model : String
  promptTokens : ℤ
  completionTokens : ℤ
  cost : Option ℤ
  createdAt : ℤ
deriving DecidableEq, Repr

/-- The aggregates of a group of rows. -/
@[ext]
structure Totals where
  requests : ℕ
  promptTokens : ℤ
  completionTokens : ℤ
  cost : Option ℤ
deriving DecidableEq, Repr

namespace Totals

instance : Zero Totals := ⟨⟨0, 0, 0, none⟩⟩

/-- `Sum` passes over NULL; a sum of nothing else is NULL. -/
instance : Add Totals where
  add a b :=
    { requests := a.requests + b.requests
      promptTokens := a.promptTokens + b.promptTokens
      completionTokens := a.completionTokens + b.completionTokens
      cost := a.cost.merge (· + ·) b.cost }

theorem add_def (a b : Totals) :
  a + b = ⟨a.requests + b.requests, a.promptTokens + b.promptTokens,
    a.completionTokens + b.completionTokens, a.cost.merge (· + ·) b.cost⟩
  := rfl

theorem zero_def : (0 : Totals) = ⟨0, 0, 0, none⟩ := rfl

instance : AddCommMonoid Totals where
  add_assoc a b c := by
    rw [add_def, add_def, add_def, add_def]
    ext1
    · apply add_assoc
    · apply add_assoc
    · apply add_assoc
    · rcases a with ⟨_, _, _, _ | _⟩ <;> rcases b with ⟨_, _, _, _ | _⟩ <;>
        rcases c with ⟨_, _, _, _ | _⟩ <;> simp [Option.merge, add_assoc]
  zero_add a := by
    rw [add_def, zero_def]
    ext1
    · apply zero_add
    · apply zero_add
    · apply zero_add
    · rcases a with ⟨_, _, _, _ | _⟩ <;> rfl
  add_zero a := by
    rw [add_def, zero_def]
    ext1
    · apply add_zero
    · apply add_zero
    · apply add_zero
    · rcases a with ⟨_, _, _, _ | _⟩ <;> rfl
  add_comm a b := by
    rw [add_def, add_def]
    ext1
    · apply add_comm
    · apply add_comm
    · apply add_comm
    · rcases a with ⟨_, _, _, _ | _⟩ <;> rcases b with ⟨_, _, _, _ | _⟩ <;>
        simp [Option.merge, add_comm]
  nsmul := nsmulRec

/-- What the columns of the daily table can hold. -/
def columnsFit (totals : Totals) : Bool :=
  decide (totals.requests < 2 ^ 31) &&
    decide (-2 ^ 63 ≤ totals.promptTokens ∧ totals.promptTokens < 2 ^ 63) &&
    decide (-2 ^ 63 ≤ totals.completionTokens ∧ totals.completionTokens < 2 ^ 63) &&
    totals.cost.all fun cost => decide (-10 ^ 14 < cost ∧ cost < 10 ^ 14)

end Totals

/-- What one row of the logs contributes. -/
def UsageLog.totals (log : UsageLog) : Totals where
  requests := 1
  promptTokens := log.promptTokens
  completionTokens := log.completionTokens
  cost := log.cost

/-- The columns that `daily_buckets` groups by. -/
structure UsageGroup where
  userId : Option UserId
  category : String
  model : String
deriving DecidableEq, Repr

def UsageLog.group (log : UsageLog) : UsageGroup where
  userId := log.userId
  category := log.category
  model := log.model

/-- The key of the daily table; NULL is a value of the user like any other. -/
structure DailyKey extends UsageGroup where
  tenantId : TenantId
  day : Day
deriving DecidableEq, Repr

def UsageLog.dailyKey (log : UsageLog) : DailyKey :=
  { log.group with tenantId := log.tenantId, day := dayOf log.createdAt }

/-- The daily table; its key is unique. -/
abbrev UsageDaily := AList fun _ : DailyKey => Totals

structure UsageState where
  usageLogs : List UsageLog
  usageDaily : UsageDaily
deriving DecidableEq

/-- `UsageLogRepository.daily_buckets` -/
def dailyBuckets (tenantId : TenantId) (day : Day) (usageLogs : List UsageLog) :
    List (UsageGroup × Totals) :=
  groupSums UsageLog.group UsageLog.totals (usageLogs.filter fun log =>
    decide (log.tenantId = tenantId) && decide (day * microsecondsPerDay ≤ log.createdAt) &&
      decide (log.createdAt < day * microsecondsPerDay + microsecondsPerDay))

/-- `UsageDailyRepository.upsert_bucket` -/
def upsertBucket (tenantId : TenantId) (day : Day) (usageDaily : UsageDaily)
    (bucket : UsageGroup × Totals) : Option UsageDaily :=
  if bucket.2.columnsFit then
    some (usageDaily.insert { bucket.1 with tenantId, day } bucket.2)
  else
    none

/-- `UsageRollupService.rollup_tenant`: the tables after the transaction and the number of rows
written, or nothing where the transaction fails. -/
def rollupTenant (tenantId : TenantId) (day : Day) (s : UsageState) : Option (UsageState × ℕ) := do
  let buckets := dailyBuckets tenantId day s.usageLogs
  let usageDaily ← buckets.foldlM (upsertBucket tenantId day) s.usageDaily
  return ({ s with usageDaily }, buckets.length)

/-- `GROUP_BY_CHOICES` -/
inductive GroupBy where
  | day
  | user
  | model
  | category
deriving DecidableEq, Repr

/-- The value of the column that a summary is grouped by. -/
inductive GroupKey where
  | day (day : Day)
  | userId (userId : Option UserId)
  | model (model : String)
  | category (category : String)
deriving DecidableEq, Repr

def DailyKey.field (key : DailyKey) : GroupBy → GroupKey
  | .day => .day key.day
  | .user => .userId key.userId
  | .model => .model key.model
  | .category => .category key.category

structure UsageBucket where
  key : String
  requests : ℕ
  promptTokens : ℤ
  completionTokens : ℤ
  cost : Option ℤ
deriving DecidableEq, Repr

section Summary

/- The order of the database, NULL last, and Python's `str`. -/
variable (le : GroupKey → GroupKey → Bool) (str : GroupKey → String)

/-- `UsageDailyRepository.summarize` -/
def summarize (tenantId : TenantId) (start stop : Day) (groupBy : GroupBy)
    (usageDaily : UsageDaily) : List (GroupKey × Totals) :=
  let rows := usageDaily.entries.map fun row => (row.1, row.2)
  let period := rows.filter fun row =>
    decide (row.1.tenantId = tenantId) && decide (start ≤ row.1.day) && decide (row.1.day ≤ stop)
  (groupSums (fun row => row.1.field groupBy) Prod.snd period).insertionSort
    fun a b => le a.1 b.1

def usageBucket (row : GroupKey × Totals) : UsageBucket where
  key := str row.1
  requests := row.2.requests
  promptTokens := row.2.promptTokens
  completionTokens := row.2.completionTokens
  cost := row.2.cost

/-- `AnalyticsService.usage_summary` -/
def usageSummary (tenantId : TenantId) (start stop : Day) (groupBy : GroupBy) (s : UsageState) :
    List UsageBucket :=
  (summarize le tenantId start stop groupBy s.usageDaily).map (usageBucket str)

end Summary

/-- A row of the logs of a tenant within a period of days. -/
def UsageLog.within (tenantId : TenantId) (start stop : Day) (log : UsageLog) : Bool :=
  decide (log.tenantId = tenantId) && decide (start ≤ dayOf log.createdAt) &&
    decide (dayOf log.createdAt ≤ stop)

def UsageLog.field (log : UsageLog) : GroupBy → GroupKey
  | .day => .day (dayOf log.createdAt)
  | .user => .userId log.userId
  | .model => .model log.model
  | .category => .category log.category

/-- The summary of a period as the logs themselves give it. -/
def directSummary (str : GroupKey → String) (tenantId : TenantId) (start stop : Day)
    (groupBy : GroupBy) (s : UsageState) : List UsageBucket :=
  (groupSums (fun log => log.field groupBy) UsageLog.totals
    (s.usageLogs.filter (UsageLog.within tenantId start stop))).map (usageBucket str)

inductive UsageAction where
  | add (log : UsageLog)
  | rollup (tenantId : TenantId) (day : Day)
deriving DecidableEq

/-- A roll-up that fails leaves the tables as they were. -/
def usageStep : UsageAction → UsageState → Option UsageState
  | .add log, s => some { s with usageLogs := s.usageLogs ++ [log] }
  | .rollup tenantId day, s =>
    match rollupTenant tenantId day s with
    | some (t, _) => some t
    | none => some s

/-- The daily table starts empty. -/
def usageMachine : Machine UsageState UsageAction where
  init s := s.usageDaily = ∅
  step := usageStep

/-- The day has been rolled up since the last row of it was appended. -/
def RolledUp (tenantId : TenantId) (day : Day) : List (UsageState × UsageAction) → Prop
  | [] => False
  | (_, .add log) :: earlier =>
    ¬(log.tenantId = tenantId ∧ dayOf log.createdAt = day) ∧ RolledUp tenantId day earlier
  | (s, .rollup tenantId' day') :: earlier =>
    (tenantId' = tenantId ∧ day' = day ∧ (rollupTenant tenantId day s).isSome) ∨
      RolledUp tenantId day earlier

section Buckets

variable {tenantId : TenantId} {day : Day}

theorem dayOf_eq_iff {createdAt : ℤ} :
  dayOf createdAt = day ↔
    day * microsecondsPerDay ≤ createdAt ∧
      createdAt < day * microsecondsPerDay + microsecondsPerDay
  := by
  have positive : 0 < microsecondsPerDay := by decide
  unfold dayOf
  rw [Int.ediv_eq_iff_of_pos positive]

/-- `daily_buckets` looks at the rows of one tenant and one day. -/
theorem dailyBuckets_eq (usageLogs : List UsageLog) :
  dailyBuckets tenantId day usageLogs =
    groupSums UsageLog.group UsageLog.totals (usageLogs.filter fun log =>
      decide (log.tenantId = tenantId ∧ dayOf log.createdAt = day))
  := by
  unfold dailyBuckets
  congr 2
  funext log
  rw [← Bool.decide_and, ← Bool.decide_and, decide_eq_decide, dayOf_eq_iff, and_assoc]

theorem dailyKey_eq_iff {log : UsageLog} {key : DailyKey} :
  log.dailyKey = key ↔
    log.tenantId = key.tenantId ∧ dayOf log.createdAt = key.day ∧ log.group = key.toUsageGroup
  := by
  obtain ⟨group, tenantId, day⟩ := key
  unfold UsageLog.dailyKey
  rw [DailyKey.mk.injEq]
  tauto

/-- The buckets of a day are the groups of all logs that have the keys of the day. -/
theorem groupSum_of_day {key : DailyKey} (usageLogs : List UsageLog) :
  groupSum UsageLog.group UsageLog.totals (usageLogs.filter fun log =>
      decide (log.tenantId = key.tenantId ∧ dayOf log.createdAt = key.day)) key.toUsageGroup =
    groupSum UsageLog.dailyKey UsageLog.totals usageLogs key
  := by
  unfold groupSum
  rw [List.filter_filter]
  congr 3
  funext log
  rw [← Bool.decide_and, decide_eq_decide, dailyKey_eq_iff]
  tauto

theorem mem_map_group_of_day {key : DailyKey} {usageLogs : List UsageLog} :
  key.toUsageGroup ∈ (usageLogs.filter fun log =>
      decide (log.tenantId = key.tenantId ∧ dayOf log.createdAt = key.day)).map UsageLog.group ↔
    key ∈ usageLogs.map UsageLog.dailyKey
  := by
  rw [List.mem_map, List.mem_map]
  constructor
  · rintro ⟨log, hlog, h⟩
    rw [List.mem_filter, decide_eq_true_eq] at hlog
    exact ⟨log, hlog.1, dailyKey_eq_iff.mpr ⟨hlog.2.1, hlog.2.2, h⟩⟩
  · rintro ⟨log, hlog, h⟩
    obtain ⟨htenant, hday, hgroup⟩ := dailyKey_eq_iff.mp h
    refine ⟨log, ?_, hgroup⟩
    rw [List.mem_filter, decide_eq_true_eq]
    exact ⟨hlog, htenant, hday⟩

/-- What writing the buckets of one day does to the daily table. -/
theorem lookup_foldlM_upsertBucket {sum : UsageGroup → Totals} {groups : List UsageGroup}
    {before after : UsageDaily}
    (h : (groups.map fun group => (group, sum group)).foldlM (upsertBucket tenantId day) before =
      some after) (key : DailyKey) :
  after.lookup key =
    if key.tenantId = tenantId ∧ key.day = day ∧ key.toUsageGroup ∈ groups then
      some (sum key.toUsageGroup)
    else
      before.lookup key
  := by
  induction groups generalizing before with
  | nil =>
    cases h
    rw [if_neg (by simp)]
  | cons group groups ih =>
    rw [List.map_cons, List.foldlM_cons] at h
    obtain ⟨next, hnext, hrest⟩ := Option.bind_eq_some_iff.mp h
    unfold upsertBucket at hnext
    split at hnext
    next =>
      cases hnext
      rw [ih hrest]
      by_cases here : key.tenantId = tenantId ∧ key.day = day
      · obtain ⟨rfl, rfl⟩ := here
        by_cases rest : key.toUsageGroup ∈ groups
        · rw [if_pos ⟨rfl, rfl, rest⟩, if_pos ⟨rfl, rfl, List.mem_cons_of_mem _ rest⟩]
        · rw [if_neg fun h => rest h.2.2]
          by_cases first : key.toUsageGroup = group
          · subst first
            rw [if_pos ⟨rfl, rfl, List.mem_cons_self⟩]
            apply AList.lookup_insert
          · rw [if_neg fun h => (List.mem_cons.mp h.2.2).elim first rest]
            apply AList.lookup_insert_ne
            intro h
            apply first
            rw [h]
      · rw [if_neg fun h => here ⟨h.1, h.2.1⟩, if_neg fun h => here ⟨h.1, h.2.1⟩]
        apply AList.lookup_insert_ne
        intro h
        apply here
        rw [h]
        exact ⟨rfl, rfl⟩
    next => cases hnext

/-- What a roll-up does: every key of the tenant and day that the logs have gets the sum over its
rows, and no other row of the daily table changes. -/
theorem lookup_rollupTenant {s t : UsageState} {count : ℕ}
    (h : rollupTenant tenantId day s = some (t, count)) :
  t.usageLogs = s.usageLogs ∧ ∀ key,
    t.usageDaily.lookup key =
      if key.tenantId = tenantId ∧ key.day = day ∧ key ∈ s.usageLogs.map UsageLog.dailyKey then
        some (groupSum UsageLog.dailyKey UsageLog.totals s.usageLogs key)
      else
        s.usageDaily.lookup key
  := by
  unfold rollupTenant at h
  obtain ⟨after, hafter, hreturn⟩ := Option.bind_eq_some_iff.mp h
  cases hreturn
  refine ⟨rfl, ?_⟩
  intro key
  rw [dailyBuckets_eq] at hafter
  rw [lookup_foldlM_upsertBucket hafter]
  by_cases here : key.tenantId = tenantId ∧ key.day = day
  · obtain ⟨rfl, rfl⟩ := here
    rw [groupSum_of_day]
    simp only [List.mem_dedup, mem_map_group_of_day]
  · rw [if_neg fun h => here ⟨h.1, h.2.1⟩, if_neg fun h => here ⟨h.1, h.2.1⟩]

end Buckets

/-- The daily table has no row for a key that the logs do not have. -/
def UsageState.Sound (s : UsageState) : Prop :=
  ∀ key totals, s.usageDaily.lookup key = some totals → key ∈ s.usageLogs.map UsageLog.dailyKey

/-- The rows of a day are the groups of the logs of the day. -/
def UsageState.Exact (s : UsageState) (tenantId : TenantId) (day : Day) : Prop :=
  ∀ key : DailyKey, key.tenantId = tenantId → key.day = day → ∀ totals,
    s.usageDaily.lookup key = some totals ↔
      key ∈ s.usageLogs.map UsageLog.dailyKey ∧
        groupSum UsageLog.dailyKey UsageLog.totals s.usageLogs key = totals

section Runs

variable {tenantId : TenantId} {day : Day}

theorem sound_step {a : UsageAction} {s t : UsageState} (sound : s.Sound)
    (hstep : usageMachine.step a s = some t) :
  t.Sound
  := by
  cases a with
  | add log =>
    cases hstep
    intro key totals h
    rw [List.map_append]
    apply List.mem_append_left
    apply sound key totals h
  | rollup tenantId day =>
    have cases : (match rollupTenant tenantId day s with
      | some (t, _) => some t
      | none => some s) = some t := hstep
    split at cases
    next u count hrollup =>
      cases cases
      obtain ⟨logs, rows⟩ := lookup_rollupTenant hrollup
      intro key totals h
      rw [rows] at h
      rw [logs]
      split at h
      next written => exact written.2.2
      next => apply sound key totals h
    next =>
      cases cases
      exact sound

/-- Right after its own roll-up a day is exact. -/
theorem exact_rollupTenant {s t : UsageState} {count : ℕ} (sound : s.Sound)
    (h : rollupTenant tenantId day s = some (t, count)) :
  t.Exact tenantId day
  := by
  obtain ⟨logs, rows⟩ := lookup_rollupTenant h
  intro key htenant hday totals
  rw [rows, logs]
  by_cases hkey : key ∈ s.usageLogs.map UsageLog.dailyKey
  · rw [if_pos ⟨htenant, hday, hkey⟩, Option.some.injEq]
    exact ⟨fun h => ⟨hkey, h⟩, And.right⟩
  · rw [if_neg fun h => hkey h.2.2]
    exact ⟨fun h => ⟨sound key totals h, absurd (sound key totals h) hkey⟩,
      fun h => absurd h.1 hkey⟩

/-- The roll-up of any day keeps a day exact. -/
theorem exact_of_rollupTenant {tenantId' : TenantId} {day' : Day} {s t : UsageState} {count : ℕ}
    (exact : s.Exact tenantId day) (h : rollupTenant tenantId' day' s = some (t, count)) :
  t.Exact tenantId day
  := by
  obtain ⟨logs, rows⟩ := lookup_rollupTenant h
  intro key htenant hday totals
  rw [rows, logs]
  split
  next written =>
    rw [Option.some.injEq]
    exact ⟨fun h => ⟨written.2.2, h⟩, And.right⟩
  next => apply exact key htenant hday totals

/-- So does a row of another tenant or another day. -/
theorem exact_add {log : UsageLog} {s : UsageState} (exact : s.Exact tenantId day)
    (other : ¬(log.tenantId = tenantId ∧ dayOf log.createdAt = day)) :
  UsageState.Exact { s with usageLogs := s.usageLogs ++ [log] } tenantId day
  := by
  intro key htenant hday totals
  have differ : log.dailyKey ≠ key := by
    intro h
    obtain ⟨hlog, hlogDay, _⟩ := dailyKey_eq_iff.mp h
    exact other ⟨hlog.trans htenant, hlogDay.trans hday⟩
  have keys : key ∈ (s.usageLogs ++ [log]).map UsageLog.dailyKey ↔
      key ∈ s.usageLogs.map UsageLog.dailyKey := by
    rw [List.map_append, List.mem_append, List.map_singleton, List.mem_singleton]
    exact ⟨fun h => h.resolve_right fun h => differ h.symm, Or.inl⟩
  rw [keys, groupSum_append, groupSum_cons, groupSum_nil, if_neg differ, add_zero, add_zero]
  apply exact key htenant hday totals

/-- A day that has been rolled up since the last row of it is exact. -/
theorem exact_of_rolledUp {h : List (UsageState × UsageAction)} {s : UsageState}
    (run : usageMachine.Run h s) (rolled : RolledUp tenantId day h) :
  s.Sound ∧ s.Exact tenantId day
  := by
  have sound : ∀ {h s}, usageMachine.Run h s → s.Sound := by
    intro h s run
    apply run.invariant
    · intro s init key totals h
      have empty : s.usageDaily = ∅ := init
      rw [empty] at h
      cases h
    · intro a s t
      apply sound_step
  refine ⟨sound run, ?_⟩
  induction run with
  | init _ => cases rolled
  | @step h s t a run hstep ih =>
    cases a with
    | add log =>
      cases hstep
      exact exact_add (ih rolled.2) rolled.1
    | rollup tenantId' day' =>
      have cases : (match rollupTenant tenantId' day' s with
        | some (t, _) => some t
        | none => some s) = some t := hstep
      split at cases
      next u count hrollup =>
        cases cases
        obtain ⟨rfl, rfl, -⟩ | rolled := rolled
        · apply exact_rollupTenant (sound run) hrollup
        · apply exact_of_rollupTenant (ih rolled) hrollup
      next hrollup =>
        cases cases
        obtain ⟨rfl, rfl, done⟩ | rolled := rolled
        · rw [hrollup] at done
          cases done
        · exact ih rolled

end Runs

/-- Where every day of a period is exact, the rows of the period are the groups of its logs. -/
theorem perm_of_exact {tenantId : TenantId} {start stop : Day} {s : UsageState}
    (exact : ∀ day, start ≤ day → day ≤ stop → s.Exact tenantId day) :
  ((s.usageDaily.entries.map fun row => (row.1, row.2)).filter fun row =>
      decide (row.1.tenantId = tenantId) && decide (start ≤ row.1.day) &&
        decide (row.1.day ≤ stop)).Perm
    (groupSums UsageLog.dailyKey UsageLog.totals
      (s.usageLogs.filter (UsageLog.within tenantId start stop)))
  := by
  apply perm_groupSums
  · have keys : (s.usageDaily.entries.map fun row => (row.1, row.2)).map Prod.fst =
        s.usageDaily.keys := by
      rw [List.map_map]
      rfl
    apply List.Nodup.sublist (List.filter_sublist.map Prod.fst)
    rw [keys]
    exact s.usageDaily.keys_nodup
  · intro key totals
    have within : ∀ log : UsageLog, log.dailyKey = key →
        (log.within tenantId start stop ↔
          key.tenantId = tenantId ∧ start ≤ key.day ∧ key.day ≤ stop) := by
      rintro log rfl
      unfold UsageLog.within
      rw [Bool.and_eq_true, Bool.and_eq_true, decide_eq_true_eq, decide_eq_true_eq,
        decide_eq_true_eq, and_assoc]
      rfl
    have entry : (key, totals) ∈ s.usageDaily.entries.map (fun row => (row.1, row.2)) ↔
        s.usageDaily.lookup key = some totals := by
      rw [← Option.mem_def, AList.mem_lookup_iff, List.mem_map]
      constructor
      · rintro ⟨⟨_, _⟩, hrow, h⟩
        cases h
        exact hrow
      · intro hrow
        exact ⟨⟨key, totals⟩, hrow, rfl⟩
    rw [List.mem_filter, entry, Bool.and_eq_true, Bool.and_eq_true, decide_eq_true_eq,
      decide_eq_true_eq, decide_eq_true_eq, and_assoc]
    constructor
    · rintro ⟨hrow, htenant, hstart, hstop⟩
      obtain ⟨hkey, hsum⟩ := (exact key.day hstart hstop key htenant rfl totals).mp hrow
      obtain ⟨log, hlog, h⟩ := List.mem_map.mp hkey
      refine ⟨?_, ?_⟩
      · rw [List.mem_map]
        exact ⟨log, List.mem_filter.mpr ⟨hlog, (within log h).mpr ⟨htenant, hstart, hstop⟩⟩, h⟩
      · rw [groupSum_filter _ _ fun log h => (within log h).mpr ⟨htenant, hstart, hstop⟩]
        exact hsum
    · rintro ⟨hkey, hsum⟩
      obtain ⟨log, hlog, h⟩ := List.mem_map.mp hkey
      obtain ⟨hlog, hwithin⟩ := List.mem_filter.mp hlog
      have here := (within log h).mp hwithin
      rw [groupSum_filter _ _ fun log h => (within log h).mpr here] at hsum
      refine ⟨?_, here⟩
      rw [exact key.day here.2.1 here.2.2 key here.1 rfl totals]
      exact ⟨List.mem_map.mpr ⟨log, hlog, h⟩, hsum⟩

/-- If every day of a period has been rolled up since its last row, the summary of the period
consists of the groups of the logs of the period, whatever they are grouped by. -/
theorem usageSummary_eq_direct (le : GroupKey → GroupKey → Bool) (str : GroupKey → String)
    {h : List (UsageState × UsageAction)} {s : UsageState} (run : usageMachine.Run h s)
    (tenantId : TenantId) (start stop : Day)
    (rolled : ∀ day, start ≤ day → day ≤ stop → RolledUp tenantId day h) (groupBy : GroupBy) :
  (usageSummary le str tenantId start stop groupBy s).Perm
    (directSummary str tenantId start stop groupBy s)
  := by
  have rows := perm_of_exact fun day hstart hstop =>
    (exact_of_rolledUp run (rolled day hstart hstop)).2
  have field : (fun log : UsageLog => log.field groupBy) =
      fun log => log.dailyKey.field groupBy := by
    funext log
    cases groupBy
    all_goals rfl
  apply List.Perm.map
  apply (List.perm_insertionSort _ _).trans
  apply (groupSums_perm _ _ rows).trans
  rw [field]
  apply regroup UsageLog.dailyKey UsageLog.totals fun key => key.field groupBy

/-- Three calls of one day, with a roll-up after the first one and one after the last one: the
system's calls are one bucket, and a cost that is not known does not count. -/
theorem usageSummary_eq_direct_three_calls :
  ∃ h s, usageMachine.Run h s ∧
    (usageSummary (fun a _ => a != .userId none) (fun key => if key = .userId none then "None" else "7")
      1 0 0 .user s).Perm
      (directSummary (fun key => if key = .userId none then "None" else "7") 1 0 0 .user s) ∧
    usageSummary (fun a _ => a != .userId none) (fun key => if key = .userId none then "None" else "7")
      1 0 0 .user s = [⟨"7", 1, 100, 20, some 3⟩, ⟨"None", 2, 60, 0, some 5⟩]
  := by
  obtain ⟨h, s, run, actions, guard, summary⟩ :=
    usageMachine.exists_history_of_execWhile
      [.add ⟨1, some 7, "llm", "m", 100, 20, some 3, 5⟩, .rollup 1 0,
        .add ⟨1, none, "embedding", "e", 40, 0, some 5, 6⟩,
        .add ⟨1, none, "embedding", "e", 20, 0, none, 7⟩, .rollup 1 0]
      (fun s a => match a with
        | .add _ => true
        | .rollup tenantId day => (rollupTenant tenantId day s).isSome)
      (fun s => decide (usageSummary (fun a _ => a != .userId none)
        (fun key => if key = .userId none then "None" else "7") 1 0 0 .user s =
          [⟨"7", 1, 100, 20, some 3⟩, ⟨"None", 2, 60, 0, some 5⟩]))
      (s := ⟨[], ∅⟩) rfl (by decide +kernel)
  refine ⟨h, s, run, ?_, of_decide_eq_true summary⟩
  apply usageSummary_eq_direct _ _ run
  intro day hstart hstop
  obtain rfl : day = 0 := le_antisymm hstop hstart
  cases h with
  | nil => cases actions
  | cons last earlier =>
    obtain ⟨s', a⟩ := last
    obtain ⟨rfl, -⟩ := List.cons.inj actions
    left
    exact ⟨rfl, rfl, guard _ List.mem_cons_self⟩

end Lumina.Platform
