import Lumina.Library.Program
import Lumina.Library.Transition
import Mathlib.Algebra.BigOperators.Group.List.Basic
import Mathlib.Algebra.Order.Ring.Int
import Mathlib.Logic.Function.Basic

/-!
# The periods of a reconciliation

`QuotaReconciliationService` reads the clock, takes the totals from the beginning of the month and
of the day on, and has `QuotaService.correct` put them into the counters, which reads the clock once
more to find the key.  Between any two operations the clock goes on, and the others write.

A correction is right if it puts the total of a period under the key of that period.  It is so
exactly if both readings are of one period, and the total has been taken before there was anything
to count after the period.
-/

namespace Lumina.Quota.Periods

open Interleaving Transition

/-! ### The calendar -/

def isLeap (year : ℕ) : Bool :=
  year % 4 = 0 && (year % 100 ≠ 0 || year % 400 = 0)

def daysInMonth (year month : ℕ) : ℕ :=
  if month = 2 then
    if isLeap year then 29 else 28
  else
    if month ∈ [4, 6, 9, 11] then 30 else 31

theorem one_le_daysInMonth (year month : ℕ) : 1 ≤ daysInMonth year month := by
  unfold daysInMonth
  split_ifs
  all_goals decide

def daysBeforeYear (year : ℕ) : ℕ :=
  (year - 1) * 365 + (year - 1) / 4 - (year - 1) / 100 + (year - 1) / 400

def daysBeforeMonth (year month : ℕ) : ℕ :=
  ((List.range (month - 1)).map fun k => daysInMonth year (k + 1)).sum

/-- `date` -/
structure Date where
  year : ℕ
  month : ℕ
  day : ℕ
  month_pos : 1 ≤ month
  month_le : month ≤ 12
  day_pos : 1 ≤ day
  day_le : day ≤ daysInMonth year month
deriving DecidableEq, Repr

def Date.ordinal (date : Date) : ℕ :=
  daysBeforeYear date.year + daysBeforeMonth date.year date.month + date.day

def Date.firstOfMonth (date : Date) : Date :=
  { date with
    day := 1
    day_pos := le_refl 1
    day_le := one_le_daysInMonth _ _ }

/-- `(now.year, now.month + 1) if now.month < 12 else (now.year + 1, 1)` -/
def Date.nextMonth (date : Date) : Date :=
  if h : date.month < 12 then
    { date.firstOfMonth with
      month := date.month + 1
      month_pos := Nat.le_add_left 1 _
      month_le := h
      day_le := one_le_daysInMonth _ _ }
  else
    { date.firstOfMonth with
      year := date.year + 1
      month := 1
      month_pos := le_refl 1
      month_le := by decide
      day_le := one_le_daysInMonth _ _ }

def microsecondsPerDay : ℕ := 24 * 3600 * 1000000

/-- `datetime`, in UTC. -/
structure DateTime where
  date : Date
  microsecond : ℕ
  microsecond_lt : microsecond < microsecondsPerDay
deriving DecidableEq, Repr

namespace DateTime

/-- The microseconds up to this time. -/
def instant (now : DateTime) : ℕ :=
  microsecondsPerDay * now.date.ordinal + now.microsecond

def midnight (date : Date) : DateTime where
  date := date
  microsecond := 0
  microsecond_lt := by decide

def monthStart (now : DateTime) : DateTime := midnight now.date.firstOfMonth

def dayStart (now : DateTime) : DateTime := midnight now.date

end DateTime

/-! ### The counters -/

abbrev TenantId := ℕ

/-- `RESOURCES` -/
inductive Resource where
  | tokensMonth
  | messagesDay
  | documents
  | storageBytes
  | streams
deriving DecidableEq, Repr

/-- `_PERIOD_MONTH` -/
def Resource.isMonthly (resource : Resource) : Bool := resource = .tokensMonth

/-- `_GAUGES` -/
def Resource.isGauge (resource : Resource) : Bool := resource = .streams

/-- A month, or a day. -/
inductive PeriodLabel where
  | month (year month : ℕ)
  | day (year month day : ℕ)
deriving DecidableEq, Repr

/-- `_period_label` -/
def periodLabel (resource : Resource) (now : DateTime) : PeriodLabel :=
  if resource.isMonthly then
    .month now.date.year now.date.month
  else
    .day now.date.year now.date.month now.date.day

/-- `_period_end`, in microseconds. -/
def periodEnd (resource : Resource) (now : DateTime) : ℕ :=
  if resource.isMonthly then
    (DateTime.midnight now.date.nextMonth).instant
  else
    now.dayStart.instant + microsecondsPerDay

/-- The key of a counter; that of a gauge has no period. -/
structure CounterKey where
  tenantId : TenantId
  resource : Resource
  label : Option PeriodLabel
deriving DecidableEq, Repr

def gaugeTtlSeconds : ℕ := 3600

/-- `_PERIOD_GRACE` -/
def periodGrace : ℕ := microsecondsPerDay

/-- `_key_and_ttl` -/
def keyAndTtl (tenantId : TenantId) (resource : Resource) (now : DateTime) : CounterKey × ℕ :=
  if resource.isGauge then
    (⟨tenantId, resource, none⟩, gaugeTtlSeconds)
  else
    (⟨tenantId, resource, periodLabel resource now⟩,
      (periodEnd resource now + periodGrace - now.instant) / 1000000)

/-! ### What is counted -/

structure UsageLog where
  tenantId : TenantId
  category : String
  promptTokens : ℕ
  completionTokens : ℕ
  createdAt : DateTime
deriving DecidableEq, Repr

inductive Role where
  | user
  | assistant
deriving DecidableEq, Repr

structure Message where
  tenantId : TenantId
  role : Role
  createdAt : DateTime
deriving DecidableEq, Repr

/-- An active document. -/
structure Document where
  tenantId : TenantId
  kbDeleted : Bool
  sizeBytes : ℕ
deriving DecidableEq, Repr

/-- `QuotaCounter`, without its tenant. -/
structure QuotaCounter where
  resource : Resource
  period : String
  periodStart : Date
  used : ℕ
  limit : Option ℕ
deriving DecidableEq, Repr

structure Counter where
  value : ℤ
  ttlSeconds : ℕ
deriving DecidableEq, Repr

/-- What the service works on: the clock, the database and the counters in Redis. -/
structure Outside where
  clock : DateTime
  activeTenants : List TenantId
  limits : TenantId → Resource → Option ℕ
  usageLogs : List UsageLog
  messages : List Message
  documents : List Document
  quotaCounters : List (TenantId × QuotaCounter)
  counters : CounterKey → Option Counter

namespace Outside

variable (w : Outside)

def llmTokenTotal (tenantId : TenantId) (since : DateTime) : ℕ :=
  ((w.usageLogs.filter fun log => decide (log.tenantId = tenantId ∧ log.category = "llm" ∧
    since.instant ≤ log.createdAt.instant)).map
      fun log => log.promptTokens + log.completionTokens).sum

def assistantCountSince (tenantId : TenantId) (since : DateTime) : ℕ :=
  (w.messages.filter fun message => decide (message.tenantId = tenantId ∧
    message.role = .assistant ∧ since.instant ≤ message.createdAt.instant)).length

def billable (tenantId : TenantId) : List Document :=
  w.documents.filter fun document => decide (document.tenantId = tenantId) && !document.kbDeleted

def activeCount (tenantId : TenantId) : ℕ := (w.billable tenantId).length

def activeSizeBytes (tenantId : TenantId) : ℕ := ((w.billable tenantId).map (·.sizeBytes)).sum

/-- `QuotaCounterRepository.upsert` -/
def upsert (tenantId : TenantId) (row : QuotaCounter) : Outside :=
  { w with
    quotaCounters := (tenantId, row) :: w.quotaCounters.filter fun x => !decide
      (x.1 = tenantId ∧ x.2.resource = row.resource ∧ x.2.period = row.period ∧
        x.2.periodStart = row.periodStart) }

end Outside

/-! ### The service -/

inductive Op where
  /-- `datetime.now(UTC)` -/
  | now
  | activeTenantIds
  | llmTokenTotal (tenantId : TenantId) (since : DateTime)
  | assistantCountSince (tenantId : TenantId) (since : DateTime)
  | activeCount (tenantId : TenantId)
  | activeSizeBytes (tenantId : TenantId)
  | limits (tenantId : TenantId)
  | upsert (tenantId : TenantId) (row : QuotaCounter)
  | set (key : CounterKey) (value : ℤ) (ttlSeconds : ℕ)

abbrev Op.Reply : Op → Type
  | .now => DateTime
  | .activeTenantIds => List TenantId
  | .limits _ => Resource → Option ℕ
  | .upsert _ _ | .set _ _ _ => Unit
  | .llmTokenTotal _ _ | .assistantCountSince _ _ | .activeCount _ | .activeSizeBytes _ => ℕ

inductive ReconcileError where
  | databaseError
  | redisError
deriving DecidableEq, Repr

abbrev Prog := Program Op.Reply ReconcileError

def perform (op : Op) : Prog op.Reply := Program.perform op

/-- `QuotaService.correct` -/
def correct (tenantId : TenantId) (resource : Resource) (value : ℤ) : Prog Unit := do
  let now ← perform .now
  let entry := keyAndTtl tenantId resource now
  perform (.set entry.1 (max value 0) entry.2)

/-- `_Fact` -/
structure Fact where
  resource : Resource
  period : String
  used : ℕ
  correctsRedis : Bool

/-- `if fact.corrects_redis: self._quota.correct(...)` -/
def correctFact (tenantId : TenantId) (fact : Fact) : Prog Unit :=
  if fact.correctsRedis then correct tenantId fact.resource fact.used else pure ()

/-- The loop over the facts: a snapshot of each, and the counters of those in Redis. -/
def storeFacts (tenantId : TenantId) (now : DateTime) (limits : Resource → Option ℕ) :
    List Fact → Prog Unit
  | [] => pure ()
  | fact :: facts => do
    let periodStart := if fact.period = "month" then now.monthStart else now.dayStart
    perform (.upsert tenantId {
      resource := fact.resource
      period := fact.period
      periodStart := periodStart.date
      used := fact.used
      limit := limits fact.resource })
    correctFact tenantId fact
    storeFacts tenantId now limits facts

def reconcileTenant (tenantId : TenantId) : Prog Unit := do
  let now ← perform .now
  let tokens ← perform (.llmTokenTotal tenantId now.monthStart)
  let messages ← perform (.assistantCountSince tenantId now.dayStart)
  let documents ← perform (.activeCount tenantId)
  let storage ← perform (.activeSizeBytes tenantId)
  let limits ← perform (.limits tenantId)
  storeFacts tenantId now limits
    [⟨.tokensMonth, "month", tokens, true⟩, ⟨.messagesDay, "day", messages, true⟩,
      ⟨.documents, "day", documents, false⟩, ⟨.storageBytes, "day", storage, false⟩]

/-- The loop over the tenants: one that fails does not stop the others. -/
def reconcileEach : List TenantId → Prog ℕ
  | [] => pure 0
  | tenantId :: tenants => do
    let done ← ((reconcileTenant tenantId).bind fun _ => pure true).handle fun _ => pure false
    let processed ← reconcileEach tenants
    return if done then processed + 1 else processed

def reconcileAll : Prog ℕ := do
  let tenants ← perform .activeTenantIds
  reconcileEach tenants

/-! ### Its runs -/

/-- What is metered by a counter: the times, and the amounts. -/
def Outside.events (w : Outside) (tenantId : TenantId) : Resource → List (DateTime × ℕ)
  | .tokensMonth =>
      (w.usageLogs.filter fun log => decide (log.tenantId = tenantId ∧ log.category = "llm")).map
        fun log => (log.createdAt, log.promptTokens + log.completionTokens)
  | .messagesDay =>
      (w.messages.filter fun message => decide (message.tenantId = tenantId ∧
        message.role = .assistant)).map fun message => (message.createdAt, 1)
  | .documents | .storageBytes | .streams => []

/-- The amounts of the events that satisfy a condition on their time. -/
def total (events : List (DateTime × ℕ)) (p : DateTime → Prop) [DecidablePred p] : ℕ :=
  ((events.filter fun x => p x.1).map Prod.snd).sum

/-- A total that has been read, with the last reading of the clock before it: what there was to
count of the period from whose beginning on it was taken, and what there was after that period. -/
structure Taken where
  tenantId : TenantId
  began : DateTime
  period : PeriodLabel
  used : ℕ
  after : ℕ

def Outside.taken (w : Outside) (tenantId : TenantId) (resource : Resource) (since : DateTime)
    (began : DateTime) : Taken :=
  let period := periodLabel resource since
  let events := w.events tenantId resource
  { tenantId, began, period
    used := total events fun time => periodLabel resource time = period
    after := total events fun time =>
      since.instant ≤ time.instant ∧ periodLabel resource time ≠ period }

/-- A value that has been put into a counter, with the last reading of the clock and the last total
of the resource. -/
structure Correction where
  key : CounterKey
  value : ℤ
  reading : Option DateTime
  taken : Option Taken

/-- A ghost: what a run has read and written. -/
structure Trace where
  reading : Option DateTime := none
  taken : Resource → Option Taken := fun _ => none
  corrections : List Correction := []

/-- The effect of an operation and its reply. -/
def Outside.exec (w : Outside) : (op : Op) → op.Reply × Outside
  | .now => (w.clock, w)
  | .activeTenantIds => (w.activeTenants, w)
  | .llmTokenTotal tenantId since => (w.llmTokenTotal tenantId since, w)
  | .assistantCountSince tenantId since => (w.assistantCountSince tenantId since, w)
  | .activeCount tenantId => (w.activeCount tenantId, w)
  | .activeSizeBytes tenantId => (w.activeSizeBytes tenantId, w)
  | .limits tenantId => (w.limits tenantId, w)
  | .upsert tenantId row => ((), w.upsert tenantId row)
  | .set key value ttlSeconds =>
      ((), { w with counters := Function.update w.counters key (some ⟨value, ttlSeconds⟩) })

def Trace.take (trace : Trace) (w : Outside) (tenantId : TenantId) (resource : Resource)
    (since : DateTime) : Trace :=
  { trace with
    taken := Function.update trace.taken resource
      (trace.reading.map (w.taken tenantId resource since)) }

/-- What an operation leaves in the trace. -/
def Trace.note (trace : Trace) (w : Outside) : Op → Trace
  | .now => { trace with reading := some w.clock }
  | .llmTokenTotal tenantId since => trace.take w tenantId .tokensMonth since
  | .assistantCountSince tenantId since => trace.take w tenantId .messagesDay since
  | .set key value _ =>
      { trace with
        corrections := ⟨key, value, trace.reading, trace.taken key.resource⟩ :: trace.corrections }
  | _ => trace

structure World where
  outside : Outside
  trace : Trace := {}

def World.exec (op : Op) (s : World) : op.Reply × World :=
  let (reply, outside) := s.outside.exec op
  (reply, ⟨outside, s.trace.note s.outside op⟩)

structure State where
  world : World
  program : Prog ℕ := reconcileAll

inductive Action where
  | work
  | fail (e : ReconcileError)
  /-- The others write, and the clock goes on. -/
  | interfere (outside : Outside)

def step : Action → State → Option State
  | .work, s =>
    match s.program with
    | .call op next =>
      let (reply, world) := s.world.exec op
      some ⟨world, next (.ok reply)⟩
    | _ => none
  | .fail e, s =>
    match s.program with
    | .call _ next => some { s with program := next (.error e) }
    | _ => none
  | .interfere outside, s =>
    if s.world.outside.clock.instant ≤ outside.clock.instant then
      some { s with world := { s.world with outside } }
    else
      none

/-- One run of the service, from any state of the database and of Redis. -/
def reconciliation : Machine State Action where
  init s := s.world.trace = {} ∧ s.program = reconcileAll
  step := step

/-- The value is the total of a period, and the key that of the same tenant and period. -/
def Correction.Exact (c : Correction) : Prop :=
  ∃ taken, c.taken = some taken ∧ c.key = ⟨taken.tenantId, c.key.resource, some taken.period⟩ ∧
    c.value = taken.used

/-- The clock has been read in one period before and after the total was taken, and there was
nothing to count after that period. -/
def Correction.InTime (c : Correction) : Prop :=
  ∃ taken now, c.taken = some taken ∧ c.reading = some now ∧
    periodLabel c.key.resource now = periodLabel c.key.resource taken.began ∧ taken.after = 0

/-- A correction is exact just if it is in time. -/
def Correction.Lawful (c : Correction) : Prop := c.Exact ↔ c.InTime

/-! ### The totals -/

section Totals

variable {events : List (DateTime × ℕ)} {resource : Resource} {since : DateTime}

/-- A total from the beginning of a period on. -/
theorem total_since
    (begins : ∀ time, periodLabel resource time = periodLabel resource since →
      since.instant ≤ time.instant) :
  (total events fun time => since.instant ≤ time.instant) =
    (total events fun time => periodLabel resource time = periodLabel resource since) +
      total events fun time => since.instant ≤ time.instant ∧
        periodLabel resource time ≠ periodLabel resource since
  := by
  unfold total
  induction events with
  | nil => rfl
  | cons x events ih =>
    have first := begins x.1
    simp only [List.filter_cons]
    by_cases hperiod : periodLabel resource x.1 = periodLabel resource since
    · simp [hperiod, first hperiod, ih, Nat.add_assoc]
    · by_cases hsince : since.instant ≤ x.1.instant
      · simp [hperiod, hsince, ih, Nat.add_left_comm]
      · simp [hperiod, hsince, ih]

/-- The total of the events of some rows. -/
theorem total_rows {ρ : Type} (rows : List ρ) (q : ρ → Prop) [DecidablePred q]
    (time : ρ → DateTime) (amount : ρ → ℕ) (p : DateTime → Prop) [DecidablePred p] :
  total ((rows.filter fun row => q row).map fun row => (time row, amount row)) p =
    ((rows.filter fun row => decide (q row ∧ p (time row))).map amount).sum
  := by
  unfold total
  rw [List.filter_map, List.map_map, List.filter_filter]
  induction rows with
  | nil => rfl
  | cons row rows ih =>
    simp only [List.filter_cons, Function.comp_apply, Bool.decide_and, Bool.and_comm] at ih ⊢
    split
    next => rw [List.map_cons, List.map_cons, List.sum_cons, List.sum_cons, ih, Function.comp_apply]
    next => exact ih

theorem llmTokenTotal_eq (w : Outside) (tenantId : TenantId) :
  w.llmTokenTotal tenantId since =
    total (w.events tenantId .tokensMonth) fun time => since.instant ≤ time.instant
  := by
  apply Eq.trans _ (total_rows w.usageLogs _ _ _ _).symm
  simp only [Outside.llmTokenTotal, and_assoc]

theorem assistantCountSince_eq (w : Outside) (tenantId : TenantId) :
  w.assistantCountSince tenantId since =
    total (w.events tenantId .messagesDay) fun time => since.instant ≤ time.instant
  := by
  apply Eq.trans _ (total_rows w.messages _ _ _ _).symm
  rw [List.map_const', List.sum_replicate_nat, Nat.mul_one]
  simp only [Outside.assistantCountSince, and_assoc]

/-- A time is not before the midnight of an earlier date of its month. -/
theorem midnight_le {date : Date} {time : DateTime} (hyear : time.date.year = date.year)
    (hmonth : time.date.month = date.month) (hday : date.day ≤ time.date.day) :
  (DateTime.midnight date).instant ≤ time.instant
  := by
  have ordinal : date.ordinal ≤ time.date.ordinal := by
    unfold Date.ordinal
    rw [hyear, hmonth]
    omega
  apply (Nat.mul_le_mul_left microsecondsPerDay ordinal).trans
  apply Nat.le_add_right

theorem monthStart_le {now time : DateTime}
    (h : periodLabel .tokensMonth time = periodLabel .tokensMonth now.monthStart) :
  now.monthStart.instant ≤ time.instant
  := by
  obtain ⟨hyear, hmonth⟩ := PeriodLabel.month.inj h
  exact midnight_le hyear hmonth time.date.day_pos

theorem dayStart_le {now time : DateTime}
    (h : periodLabel .messagesDay time = periodLabel .messagesDay now.dayStart) :
  now.dayStart.instant ≤ time.instant
  := by
  obtain ⟨hyear, hmonth, hday⟩ := PeriodLabel.day.inj h
  exact midnight_le hyear hmonth hday.ge

end Totals

/-! ### The invariant -/

/-- The surroundings of the service: the others leave its trace alone, and its own corrections are
lawful. -/
def surroundings : Contract Op.Reply ReconcileError World where
  step op s r s' := (r = .ok (s.exec op).1 ∧ s' = (s.exec op).2) ∨ (s' = s ∧ ∃ e, r = .error e)
  rely s s' := s'.trace = s.trace
  guarantee s s' := ∀ c ∈ s'.trace.corrections, c ∈ s.trace.corrections ∨ c.Lawful
  refl _ := rfl
  trans h h' := h'.trans h

theorem stable_trace (P : Trace → Prop) : surroundings.Stable fun s => P s.trace := by
  intro s s' h hrely
  rw [show s'.trace = s.trace from hrely]
  exact h

/-- What the total of a resource has been read to be. -/
def KnowsTotal (tenantId : TenantId) (now : DateTime) (resource : Resource) (used : ℕ)
    (trace : Trace) : Prop :=
  ∃ taken, trace.taken resource = some taken ∧ taken.tenantId = tenantId ∧ taken.began = now ∧
    taken.period = periodLabel resource now ∧ used = taken.used + taken.after

/-- What the totals of the counters in Redis have been read to be. -/
def Knows (tenantId : TenantId) (now : DateTime) (facts : List Fact) (trace : Trace) : Prop :=
  ∀ fact ∈ facts, fact.correctsRedis = true → fact.resource.isGauge = false ∧
    KnowsTotal tenantId now fact.resource fact.used trace

theorem keyAndTtl_resource (tenantId : TenantId) (resource : Resource) (now : DateTime) :
  (keyAndTtl tenantId resource now).1.resource = resource
  := by
  unfold keyAndTtl
  split
  all_goals rfl

/-- The value of a total that has been read, under a key of the clock. -/
theorem lawful_correction {taken : Taken} {resource : Resource} (now : DateTime)
    (counted : resource.isGauge = false)
    (period : taken.period = periodLabel resource taken.began) :
  Correction.Lawful ⟨(keyAndTtl taken.tenantId resource now).1, max (taken.used + taken.after : ℕ) 0,
    some now, some taken⟩
  := by
  have key : (keyAndTtl taken.tenantId resource now).1 =
      ⟨taken.tenantId, resource, some (periodLabel resource now)⟩ := by
    unfold keyAndTtl
    rw [counted]
    rfl
  have value : max ((taken.used + taken.after : ℕ) : ℤ) 0 = taken.used ↔ taken.after = 0 := by
    omega
  unfold Correction.Lawful Correction.Exact Correction.InTime
  rw [key]
  constructor
  · rintro ⟨taken', htaken, hkey, hvalue⟩
    cases htaken
    have label := Option.some.inj (CounterKey.mk.inj hkey).2.2
    exact ⟨taken, now, rfl, rfl, label.trans period, value.mp hvalue⟩
  · rintro ⟨taken', now', htaken, hnow, label, nothing⟩
    cases htaken
    cases hnow
    refine ⟨taken, rfl, ?_, value.mpr nothing⟩
    exact congrArg (fun label => CounterKey.mk taken.tenantId resource (some label))
      (label.trans period.symm)

/-- The rule of an operation that corrects nothing. -/
theorem perform_triple (op : Op) {P : Trace → Prop} (Q : op.Reply → Trace → Prop)
    (note : ∀ trace w, P trace → (Trace.note trace w op).corrections = trace.corrections ∧
      Q (w.exec op).1 (trace.note w op)) :
  surroundings.Triple (fun s => P s.trace) (perform op)
    fun r s => ∀ reply, r = .ok reply → Q reply s.trace
  := by
  apply Contract.Triple.perform (stable_trace P)
  · rintro s r s' hs (⟨rfl, rfl⟩ | ⟨rfl, e, rfl⟩)
    · obtain ⟨same, hQ⟩ := note s.trace s.outside hs
      refine ⟨fun c hc => Or.inl ?_, ?_⟩
      · exact same ▸ hc
      · rintro reply ⟨⟩
        exact hQ
    · exact ⟨fun c hc => Or.inl hc, nofun⟩
  · exact fun r => stable_trace fun trace => ∀ reply, r = .ok reply → Q reply trace

/-- The rule of an operation that corrects nothing, and of what follows. -/
theorem next_triple {α : Type} (op : Op) (P : Trace → Prop) (Q : op.Reply → Trace → Prop)
    {f : op.Reply → Prog α}
    (note : ∀ trace w, P trace → (Trace.note trace w op).corrections = trace.corrections ∧
      Q (w.exec op).1 (trace.note w op))
    (rest : ∀ reply, surroundings.Triple (fun s => Q reply s.trace) (f reply) fun _ _ => True) :
  surroundings.Triple (fun s => P s.trace) (perform op >>= f) fun _ _ => True
  := by
  apply Contract.Triple.bind (perform_triple op Q note)
  · intro reply
    exact (rest reply).conseq (fun s h => h reply rfl) fun _ _ h => h
  · exact fun _ _ _ => trivial

section Triples

variable {tenantId : TenantId} {now : DateTime} {facts : List Fact}

theorem correct_triple {fact : Fact} (hfact : fact ∈ facts) (redis : fact.correctsRedis = true) :
  surroundings.Triple (fun s => Knows tenantId now facts s.trace)
    (correct tenantId fact.resource fact.used)
    fun r s => ∀ u, r = .ok u → Knows tenantId now facts s.trace
  := by
  unfold correct
  apply Contract.Triple.bind
  · apply perform_triple .now fun reply trace =>
      trace.reading = some reply ∧ Knows tenantId now facts trace
    exact fun trace w h => ⟨rfl, rfl, h⟩
  · intro now'
    apply Contract.Triple.conseq (P := fun s =>
      s.trace.reading = some now' ∧ Knows tenantId now facts s.trace) _ _ fun _ _ h => h
    · apply Contract.Triple.perform
      · exact stable_trace fun trace => trace.reading = some now' ∧ Knows tenantId now facts trace
      · rintro s r s' ⟨reading, knows⟩ (⟨rfl, rfl⟩ | ⟨rfl, e, rfl⟩)
        · refine ⟨?_, fun _ _ => knows⟩
          intro c hc
          obtain rfl | hc := List.mem_cons.mp hc
          · right
            obtain ⟨counted, taken, htaken, rfl, rfl, period, used⟩ := knows fact hfact redis
            rw [reading, keyAndTtl_resource, htaken, used]
            exact lawful_correction now' counted period
          · exact Or.inl hc
        · exact ⟨fun c hc => Or.inl hc, nofun⟩
      · exact fun r => stable_trace fun trace => ∀ u, r = .ok u → Knows tenantId now facts trace
    · exact fun s h => h now' rfl
  · nofun

theorem storeFacts_triple (limits : Resource → Option ℕ) (rest : List Fact) :
  (∀ fact ∈ rest, fact ∈ facts) →
    surroundings.Triple (fun s => Knows tenantId now facts s.trace)
      (storeFacts tenantId now limits rest) fun _ _ => True
  := by
  have stable := stable_trace (Knows tenantId now facts)
  induction rest with
  | nil =>
    intro _
    exact Contract.Triple.pure stable fun _ _ => trivial
  | cons fact rest ih =>
    intro hrest
    obtain ⟨hfact, hrest⟩ := List.forall_mem_cons.mp hrest
    apply next_triple _ (Knows tenantId now facts) fun _ => Knows tenantId now facts
    · exact fun trace w h => ⟨rfl, h⟩
    · intro _
      apply Contract.Triple.bind
        (Q := fun r s => ∀ u : Unit, r = .ok u → Knows tenantId now facts s.trace)
      · unfold correctFact
        split
        next redis => exact correct_triple hfact redis
        next => exact Contract.Triple.pure stable fun s h _ _ => h
      · intro u
        exact (ih hrest).conseq (fun s h => h u rfl) fun _ _ h => h
      · exact fun _ _ _ => trivial

/-- What the query of a total leaves in the trace. -/
theorem knowsTotal_take {trace : Trace} {w : Outside} {resource : Resource} {since : DateTime}
    {used : ℕ} (reading : trace.reading = some now)
    (begins : ∀ time, periodLabel resource time = periodLabel resource since →
      since.instant ≤ time.instant)
    (period : periodLabel resource since = periodLabel resource now)
    (hused : used = total (w.events tenantId resource) fun time => since.instant ≤ time.instant) :
  KnowsTotal tenantId now resource used (trace.take w tenantId resource since)
  := by
  have mapped : trace.reading.map (w.taken tenantId resource since) =
      some (w.taken tenantId resource since now) := by
    rw [reading]
    rfl
  refine ⟨w.taken tenantId resource since now, ?_, rfl, rfl, period, ?_⟩
  · exact (Function.update_self _ _ _).trans mapped
  · exact hused.trans (total_since begins)

/-- The query of another total. -/
theorem KnowsTotal.take {trace : Trace} {w : Outside} {resource other : Resource}
    {since : DateTime} {used : ℕ} (h : KnowsTotal tenantId now resource used trace)
    (hne : resource ≠ other) :
  KnowsTotal tenantId now resource used (trace.take w tenantId other since)
  := by
  obtain ⟨taken, htaken, rest⟩ := h
  exact ⟨taken, (Function.update_of_ne hne _ _).trans htaken, rest⟩

def KnowsTotals (tenantId : TenantId) (now : DateTime) (tokens messages : ℕ) (trace : Trace) :
    Prop :=
  KnowsTotal tenantId now .tokensMonth tokens trace ∧
    KnowsTotal tenantId now .messagesDay messages trace

theorem reconcileTenant_triple (tenantId : TenantId) :
  surroundings.Triple (fun _ => True) (reconcileTenant tenantId) fun _ _ => True
  := by
  apply next_triple .now (fun _ => True) fun now trace => trace.reading = some now
  · exact fun trace w _ => ⟨rfl, rfl⟩
  intro now
  apply next_triple (.llmTokenTotal tenantId now.monthStart) (fun trace => trace.reading = some now)
    fun tokens trace => trace.reading = some now ∧
      KnowsTotal tenantId now .tokensMonth tokens trace
  · intro trace w reading
    refine ⟨rfl, reading, knowsTotal_take reading (fun _ => monthStart_le) rfl ?_⟩
    exact llmTokenTotal_eq w tenantId
  intro tokens
  apply next_triple (.assistantCountSince tenantId now.dayStart)
    (fun trace => trace.reading = some now ∧ KnowsTotal tenantId now .tokensMonth tokens trace)
    (KnowsTotals tenantId now tokens)
  · rintro trace w ⟨reading, known⟩
    refine ⟨rfl, known.take nofun, knowsTotal_take reading (fun _ => dayStart_le) rfl ?_⟩
    exact assistantCountSince_eq w tenantId
  intro messages
  -- the totals of the database and the limits leave nothing in the trace
  apply next_triple (.activeCount tenantId) (KnowsTotals tenantId now tokens messages)
    fun _ => KnowsTotals tenantId now tokens messages
  · exact fun trace w h => ⟨rfl, h⟩
  intro documents
  apply next_triple (.activeSizeBytes tenantId) (KnowsTotals tenantId now tokens messages)
    fun _ => KnowsTotals tenantId now tokens messages
  · exact fun trace w h => ⟨rfl, h⟩
  intro storage
  apply next_triple (.limits tenantId) (KnowsTotals tenantId now tokens messages)
    fun _ => Knows tenantId now
      [⟨.tokensMonth, "month", tokens, true⟩, ⟨.messagesDay, "day", messages, true⟩,
        ⟨.documents, "day", documents, false⟩, ⟨.storageBytes, "day", storage, false⟩]
  · rintro trace w ⟨htokens, hmessages⟩
    refine ⟨rfl, ?_⟩
    simp only [Knows, List.forall_mem_cons]
    exact ⟨fun _ => ⟨rfl, htokens⟩, fun _ => ⟨rfl, hmessages⟩, nofun, nofun, nofun⟩
  intro limits
  exact storeFacts_triple limits _ fun fact h => h

theorem reconcileEach_triple (tenants : List TenantId) :
  surroundings.Triple (fun _ => True) (reconcileEach tenants) fun _ _ => True
  := by
  have stable : surroundings.Stable fun _ => True := fun _ _ _ _ => trivial
  induction tenants with
  | nil => exact Contract.Triple.pure stable fun _ _ => trivial
  | cons tenantId tenants ih =>
    apply Contract.Triple.bind (Q := fun _ _ => True)
    · apply Contract.Triple.handle (Q := fun _ _ => True)
      · apply Contract.Triple.bind (reconcileTenant_triple tenantId)
        · exact fun _ => Contract.Triple.pure stable fun _ _ => trivial
        · exact fun _ _ _ => trivial
      · exact fun _ => Contract.Triple.pure stable fun _ _ => trivial
      · exact fun _ => stable
      · exact fun _ _ _ => trivial
    · intro done
      apply Contract.Triple.bind ih
      · exact fun _ => Contract.Triple.pure stable fun _ _ => trivial
      · exact fun _ _ _ => trivial
    · exact fun _ _ _ => trivial

theorem reconcileAll_triple :
  surroundings.Triple (fun _ => True) reconcileAll fun _ _ => True
  := by
  apply next_triple .activeTenantIds (fun _ => True) fun _ _ => True
  · exact fun _ _ _ => ⟨rfl, trivial⟩
  · exact reconcileEach_triple

end Triples

/-! ### The runs -/

section Runs

variable {h : List (State × Action)} {s s' : State} {a : Action}

/-- What a step can do. -/
theorem step_cases (hstep : step a s = some s') :
  (∃ op next, a = .work ∧ s.program = .call op next ∧
      s' = ⟨(s.world.exec op).2, next (.ok (s.world.exec op).1)⟩) ∨
    (∃ op next e, a = .fail e ∧ s.program = .call op next ∧
      s' = ⟨s.world, next (.error e)⟩) ∨
    ∃ outside, a = .interfere outside ∧ s' = ⟨⟨outside, s.world.trace⟩, s.program⟩
  := by
  cases a with
  | work =>
    rw [step] at hstep
    split at hstep
    next op next hprogram =>
      cases hstep
      exact Or.inl ⟨op, next, rfl, hprogram, rfl⟩
    next => cases hstep
  | fail e =>
    rw [step] at hstep
    split at hstep
    next op next hprogram =>
      cases hstep
      exact Or.inr (Or.inl ⟨op, next, e, rfl, hprogram, rfl⟩)
    next => cases hstep
  | interfere outside =>
    rw [step] at hstep
    split at hstep
    next =>
      cases hstep
      exact Or.inr (Or.inr ⟨outside, rfl, rfl⟩)
    next => cases hstep

/-- All corrections are lawful, and so are those to come. -/
structure Inv (s : State) : Prop where
  lawful : ∀ c ∈ s.world.trace.corrections, c.Lawful
  safe : surroundings.Safe (fun _ _ => True) s.program s.world

theorem Inv.step (inv : Inv s) (hstep : Periods.step a s = some s') : Inv s' := by
  obtain ⟨op, next, rfl, hprogram, rfl⟩ | ⟨op, next, e, rfl, hprogram, rfl⟩ | ⟨outside, rfl, rfl⟩ :=
    step_cases hstep
  · have safe := inv.safe
    rw [hprogram] at safe
    obtain ⟨guarantee, safe⟩ := safe.call (r := .ok (s.world.exec op).1) (Or.inl ⟨rfl, rfl⟩)
    refine ⟨fun c hc => ?_, safe⟩
    obtain old | lawful := guarantee c hc
    · exact inv.lawful c old
    · exact lawful
  · have safe := inv.safe
    rw [hprogram] at safe
    have now := safe.call (r := .error e) (Or.inr ⟨rfl, e, rfl⟩)
    exact ⟨inv.lawful, now.2⟩
  · exact ⟨inv.lawful, inv.safe.stable rfl⟩

/-- A step of the service changes no counter but by a correction, and forgets none. -/
theorem step_counters (hstep : Periods.step a s = some s') :
  (∀ c ∈ s.world.trace.corrections, c ∈ s'.world.trace.corrections) ∧
    ((∀ outside, a ≠ .interfere outside) → ∀ key,
      s'.world.outside.counters key ≠ s.world.outside.counters key →
        ∃ c ∈ s'.world.trace.corrections, c.key = key ∧
          ∃ ttl, s'.world.outside.counters key = some ⟨c.value, ttl⟩)
  := by
  obtain ⟨op, next, rfl, -, rfl⟩ | ⟨op, next, e, rfl, -, rfl⟩ | ⟨outside, rfl, rfl⟩ :=
    step_cases hstep
  · cases op with
    | set key value ttl =>
      refine ⟨fun c hc => List.mem_cons_of_mem _ hc, ?_⟩
      intro _ key' changed
      by_cases hkey : key' = key
      · subst hkey
        exact ⟨_, List.mem_cons_self, rfl, ttl, Function.update_self _ _ _⟩
      · exact absurd (Function.update_of_ne hkey _ _) changed
    | _ => exact ⟨fun c hc => hc, fun _ key changed => absurd rfl changed⟩
  · exact ⟨fun c hc => hc, fun _ key changed => absurd rfl changed⟩
  · exact ⟨fun c hc => hc, fun own => absurd rfl (own outside)⟩

/-- In every run, whatever the clock and the others do: a value that is put into a counter is the
total of the period of the counter if and only if the clock has been read in that period before and
after the total was taken, and there was nothing to count after the period; and the run changes no
counter but by these corrections. -/
theorem corrections_exact_iff (run : reconciliation.Run h s) :
  (∀ c ∈ s.world.trace.corrections, c.Exact ↔ c.InTime) ∧
    ∀ x ∈ h, (∀ outside, x.2 ≠ .interfere outside) → ∀ t, reconciliation.step x.2 x.1 = some t →
      ∀ key, t.world.outside.counters key ≠ x.1.world.outside.counters key →
        ∃ c ∈ s.world.trace.corrections, c.key = key ∧
          ∃ ttl, t.world.outside.counters key = some ⟨c.value, ttl⟩
  := by
  constructor
  · have inv : Inv s := by
      apply run.invariant (I := Inv)
      · rintro s ⟨htrace, hprogram⟩
        constructor
        · intro c hc
          rw [htrace] at hc
          cases hc
        · rw [hprogram]
          exact reconcileAll_triple.safe s.world trivial
      · exact fun a s s' inv hstep => inv.step hstep
    exact inv.lawful
  · induction run with
    | init _ =>
      intro x hx
      cases hx
    | @step h s s' a run hstep ih =>
      obtain ⟨kept, changes⟩ := step_counters hstep
      intro x hx own t ht key changed
      obtain rfl | hx := List.mem_cons.mp hx
      · cases hstep.symm.trans ht
        exact changes own key changed
      · obtain ⟨c, hc, result⟩ := ih x hx own t ht key changed
        exact ⟨c, kept c hc, result⟩

end Runs

/-! ### Small runs -/

def lastOfJanuary : Date := ⟨2026, 1, 31, by decide, by decide, by decide, by decide⟩

/-- A tenth of a second before the end of the month. -/
def beforeMidnight : DateTime := ⟨lastOfJanuary, 86399900000, by decide⟩

def afterMidnight : DateTime := .midnight lastOfJanuary.nextMonth

/-- A tenant that has used 500 tokens in January. -/
def sampleOutside (clock : DateTime) : Outside where
  clock := clock
  activeTenants := [1]
  limits _ _ := none
  usageLogs := [⟨1, "llm", 200, 300, .midnight lastOfJanuary⟩]
  messages := []
  documents := []
  quotaCounters := []
  counters _ := none

/-- The operations up to the snapshot of the tokens. -/
def toSnapshot : List Action := List.replicate 8 .work

/-- The tokens of January under the key of January. -/
theorem corrections_exact_iff_january :
  ∃ h s c, reconciliation.Run h s ∧ c ∈ s.world.trace.corrections ∧ c.value = 500 ∧ c.Exact
  := by
  obtain ⟨h, s, run, result⟩ := reconciliation.exists_run_of_exec
    (toSnapshot ++ [.work, .work])
    (fun s => s.world.trace.corrections.any fun c => decide (c.value = 500 ∧
      c.reading = some beforeMidnight ∧ c.key.resource = .tokensMonth) &&
        c.taken.any fun taken : Taken => decide (taken.began = beforeMidnight ∧ taken.after = 0))
    (s := ⟨⟨sampleOutside beforeMidnight, {}⟩, reconcileAll⟩) ⟨rfl, rfl⟩ (by decide +kernel)
  obtain ⟨c, hc, result⟩ := List.any_eq_true.mp result
  rw [Bool.and_eq_true, decide_eq_true_eq, Option.any_eq_true] at result
  obtain ⟨⟨value, reading, resource⟩, taken, htaken, result⟩ := result
  obtain ⟨began, nothing⟩ := of_decide_eq_true result
  refine ⟨h, s, c, run, hc, value, ?_⟩
  apply ((corrections_exact_iff run).1 c hc).mpr
  exact ⟨taken, beforeMidnight, htaken, reading, by rw [began], nothing⟩

/-- The month ends between the total and the correction: the tokens of January become the counter of
February. -/
theorem corrections_straddle :
  ¬∀ h s, reconciliation.Run h s → ∀ c ∈ s.world.trace.corrections, c.Exact
  := by
  intro claim
  obtain ⟨h, s, run, result⟩ := reconciliation.exists_run_of_exec
    (toSnapshot ++ [.interfere (sampleOutside afterMidnight), .work, .work])
    (fun s => s.world.trace.corrections.any fun c => decide (c.value = 500 ∧
      c.key = ⟨1, .tokensMonth, some (.month 2026 2)⟩) &&
        c.taken.any fun taken : Taken => decide (taken.period = .month 2026 1))
    (s := ⟨⟨sampleOutside beforeMidnight, {}⟩, reconcileAll⟩) ⟨rfl, rfl⟩ (by decide +kernel)
  obtain ⟨c, hc, result⟩ := List.any_eq_true.mp result
  rw [Bool.and_eq_true, decide_eq_true_eq, Option.any_eq_true] at result
  obtain ⟨⟨-, hkey⟩, taken, htaken, result⟩ := result
  have period := of_decide_eq_true result
  obtain ⟨taken', htaken', hkey', -⟩ := claim h s run c hc
  cases htaken.symm.trans htaken'
  rw [hkey, period] at hkey'
  cases (CounterKey.mk.inj hkey').2.2

end Lumina.Quota.Periods
